/-!
# Attachment sites

The eleven places where an attribute may stand. The usage declaration of an attribute type holds a
mask with one bit for each site that the attribute may have. The bits are read from the enum
`AttrTarget` of the built-in package; `Site.bit` is their usual value.
-/

namespace SchemaLang

/-- A place where an attribute may stand. -/
inductive Site where
  | package | script | table | struct | enum | enumValue | contract | method | param | result
  | field
  deriving DecidableEq, Repr

namespace Site

/-- Every site, from the lowest bit to the highest. -/
def all : List Site :=
  [.package, .script, .table, .struct, .enum, .enumValue, .contract, .method, .param, .result,
    .field]

/-- The name of the site's value in the enum `AttrTarget`. -/
def name : Site → String
  | package => "Package"
  | script => "Script"
  | table => "Table"
  | struct => "Struct"
  | enum => "Enum"
  | enumValue => "EnumVal"
  | contract => "Contract"
  | method => "Method"
  | param => "Param"
  | result => "Return"
  | field => "Field"

/-- The usual mask bit of the site: bit 0 for packages up to bit 10 for fields. -/
def bit (site : Site) : Int64 :=
  Int64.ofNat (Nat.pow 2 (all.idxOf site))

/-- The site with the given name. -/
def ofName? (text : String) : Option Site :=
  all.find? fun site => site.name == text

end Site

end SchemaLang
