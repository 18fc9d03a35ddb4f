/-!
# Reserved words

The eighteen reserved words of the schema language. Twelve of them name scalar types and stand for
a marker table of the built-in package; six of those may also store an enum. The other six
introduce a declaration, an import or a composite type.

Spelling is exact: `uint16` is reserved, `Uint16` is an ordinary name. The words `true` and `false`
are literals, not reserved words.
-/

namespace SchemaLang

/-! ## Storage of enums -/

/-- How the values of an enum are stored: in `width` bytes, with or without a sign. -/
structure EnumBase where
  width : Nat
  signed : Bool
  deriving DecidableEq, Repr

namespace EnumBase

/-- The storage of an enum that names none: one byte without a sign. -/
def standard : EnumBase := ⟨1, false⟩

/-- The least value that the storage holds. -/
def least (base : EnumBase) : Int :=
  if base.signed then -(Nat.pow 2 (8 * base.width - 1) : Int) else 0

/-- The greatest value that the storage holds. -/
def greatest (base : EnumBase) : Int :=
  let bits := if base.signed then 8 * base.width - 1 else 8 * base.width
  (Nat.pow 2 bits : Int) - 1

/-- Whether a value fits the storage. -/
def contains (base : EnumBase) (value : Int) : Bool :=
  decide (base.least ≤ value) && decide (value ≤ base.greatest)

theorem contains_iff {base : EnumBase} {value : Int} :
    base.contains value = true ↔ base.least ≤ value ∧ value ≤ base.greatest := by
  simp [contains]

end EnumBase

/-! ## The words -/

/-- A reserved word. -/
inductive Keyword where
  | byte | sbyte | int16 | uint16 | int32 | uint32 | int64 | uint64
  | float32 | float64 | bool | string
  | enum | struct | table | contract | imports | map
  deriving DecidableEq, Repr

namespace Keyword

/-- What a reserved word is for. -/
inductive Category where
  /-- The word names a scalar type. -/
  | scalar
  /-- The word introduces a declaration, an import or a map type. -/
  | declaration
  deriving DecidableEq, Repr

/-- Every reserved word, in the order of `Keyword.index`. -/
def all : List Keyword :=
  [.byte, .sbyte, .int16, .uint16, .int32, .uint32, .int64, .uint64, .float32, .float64, .bool,
    .string, .enum, .struct, .table, .contract, .imports, .map]

/-- How the word is written. -/
def spelling : Keyword → String
  | byte => "byte"
  | sbyte => "sbyte"
  | int16 => "int16"
  | uint16 => "uint16"
  | int32 => "int32"
  | uint32 => "uint32"
  | int64 => "int64"
  | uint64 => "uint64"
  | float32 => "float32"
  | float64 => "float64"
  | bool => "bool"
  | string => "string"
  | enum => "enum"
  | struct => "struct"
  | table => "table"
  | contract => "contract"
  | imports => "import"
  | map => "map"

/-- The place of the word in `Keyword.all`. -/
def index (word : Keyword) : Nat :=
  all.idxOf word

/-- The marker table of the built-in package that a scalar word stands for. -/
def typeName : Keyword → Option String
  | byte => some "Byte"
  | sbyte => some "Sbyte"
  | int16 => some "Int16"
  | uint16 => some "Uint16"
  | int32 => some "Int32"
  | uint32 => some "Uint32"
  | int64 => some "Int64"
  | uint64 => some "Uint64"
  | float32 => some "Float32"
  | float64 => some "Float64"
  | bool => some "Bool"
  | string => some "String"
  | _ => none

/-- Scalar words are those with a marker table. -/
def category (word : Keyword) : Category :=
  if word.typeName.isSome then .scalar else .declaration

/-- The storage that the word selects for an enum, if it may store one. -/
def enumBase : Keyword → Option EnumBase
  | byte => some ⟨1, false⟩
  | sbyte => some ⟨1, true⟩
  | int16 => some ⟨2, true⟩
  | uint16 => some ⟨2, false⟩
  | int32 => some ⟨4, true⟩
  | uint32 => some ⟨4, false⟩
  | _ => none

/-- The reserved word with the given spelling. -/
def ofSpelling? (text : String) : Option Keyword :=
  all.find? fun word => word.spelling == text

theorem mem_all (word : Keyword) : word ∈ all := by
  cases word <;> decide

end Keyword

end SchemaLang
