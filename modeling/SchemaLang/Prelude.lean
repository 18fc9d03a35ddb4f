/-!
# The built-in package

Every package but the built-in one imports the built-in package under the name `tidl`, whether it
says so or not. The built-in package declares the scalar types, the marker tables `Struct` and
`Error`, and the declarations that say where attributes may stand. A provider may supply its own
directory for it; `Prelude.text` is used when it does not.
-/

namespace SchemaLang.Prelude

/-- The import path of the built-in package, and the alias under which it is imported. -/
def packageName : String := "tidl"

/-- The extension of source files, without the dot. -/
def sourceExtension : String := "tidl"

/-- The enum whose values are the mask bits of the attachment sites. -/
def attrTarget : String := "AttrTarget"

/-- The table that declares the use of an attribute type. -/
def attrUsage : String := "AttrUsage"

/-- The field of `AttrUsage` that holds the mask of permitted sites. -/
def targetField : String := "Target"

/-- The marker that every `struct` declaration carries. -/
def structMarker : String := "Struct"

/-- The marker of error enums. -/
def errorMarker : String := "Error"

/-- The name of the script that holds the embedded text. -/
def fileName : String := "prelude.tidl"

/-- The lines of the built-in package. -/
def lines : List String := [
  "// Declarations every tidl package sees through the implicit `tidl` import.",
  "",
  "// Attachment sites an attribute may be declared for.",
  "enum AttrTarget(uint32) \x7b",
  "    Package(1),",
  "    Script(2),",
  "    Table(4),",
  "    Struct(8),",
  "    Enum(16),",
  "    EnumVal(32),",
  "    Contract(64),",
  "    Method(128),",
  "    Param(256),",
  "    Return(512),",
  "    Field(1024)",
  "\x7d",
  "",
  "// Usage declaration: every attribute type carries one.",
  "@AttrUsage(Target: AttrTarget.Table | AttrTarget.Struct)",
  "table AttrUsage \x7b",
  "    Target AttrTarget;",
  "\x7d",
  "",
  "// Injected by the `struct` keyword.",
  "@AttrUsage(Target: AttrTarget.Table | AttrTarget.Struct)",
  "table Struct \x7b",
  "\x7d",
  "",
  "// Marks an enum as an error-code declaration.",
  "@AttrUsage(Target: AttrTarget.Enum)",
  "table Error \x7b",
  "\x7d",
  "",
  "// Scalar types.",
  "table Byte \x7b\x7d",
  "table Sbyte \x7b\x7d",
  "table Int16 \x7b\x7d",
  "table Uint16 \x7b\x7d",
  "table Int32 \x7b\x7d",
  "table Uint32 \x7b\x7d",
  "table Int64 \x7b\x7d",
  "table Uint64 \x7b\x7d",
  "table Float32 \x7b\x7d",
  "table Float64 \x7b\x7d",
  "table Bool \x7b\x7d",
  "table String \x7b\x7d"]

/-- The text of the built-in package. -/
def text : String :=
  String.join (lines.map fun line => line ++ "\n")

end SchemaLang.Prelude
