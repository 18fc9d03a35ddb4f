import SchemaLang.Keyword
import SchemaLang.Position

/-!
# Diagnostics

Every failure is a cause at a position, and the first one ends the work on a package. A cause
belongs to one phase and one kind; the kind has a stable code, and the text is for people. A
diagnostic is shown as `<phase> <position> error: <message>`.
-/

namespace SchemaLang

/-- The part of the work that failed. -/
inductive Phase where
  | lexer | parse | link | driver
  deriving DecidableEq, Repr

def Phase.name : Phase → String
  | lexer => "lexer"
  | parse => "parse"
  | link => "link"
  | driver => "driver"

/-- The stable category of a failure. -/
inductive FaultKind where
  | illegalUtf8 | unterminatedString | unterminatedComment | illegalEscape | malformedNumber
  | unexpectedToken | enumValueOutOfRange | arrayLengthOutOfRange | nestedComposite
  | duplicateType | duplicateField | duplicateMethod | duplicateEnumValue | duplicateImport
  | duplicateBase | duplicateArgument | tooManyItems
  | unknownType | aliasConflict | invalidAttribute | attrTargetMismatch | missingBuiltin
  | notAContract | circularImport | circularInheritance
  | packageNotFound | ambiguousPackage | duplicateScript | unknownPackage | io | importDepth
  deriving DecidableEq, Repr

/-- The stable code of a category. -/
def FaultKind.code : FaultKind → String
  | illegalUtf8 => "tidl::lexer::illegal_utf8"
  | unterminatedString => "tidl::lexer::unterminated_string"
  | unterminatedComment => "tidl::lexer::unterminated_comment"
  | illegalEscape => "tidl::lexer::illegal_escape"
  | malformedNumber => "tidl::lexer::malformed_number"
  | unexpectedToken => "tidl::parse::unexpected_token"
  | enumValueOutOfRange => "tidl::parse::enum_value_out_of_range"
  | arrayLengthOutOfRange => "tidl::parse::array_length_out_of_range"
  | nestedComposite => "tidl::parse::nested_composite"
  | duplicateType => "tidl::parse::duplicate_type"
  | duplicateField => "tidl::parse::duplicate_field"
  | duplicateMethod => "tidl::duplicate_method"
  | duplicateEnumValue => "tidl::parse::duplicate_enum_value"
  | duplicateImport => "tidl::parse::duplicate_import"
  | duplicateBase => "tidl::parse::duplicate_base"
  | duplicateArgument => "tidl::parse::duplicate_argument"
  | tooManyItems => "tidl::too_many_items"
  | unknownType => "tidl::link::unknown_type"
  | aliasConflict => "tidl::link::alias_conflict"
  | invalidAttribute => "tidl::link::invalid_attribute"
  | attrTargetMismatch => "tidl::link::attr_target_mismatch"
  | missingBuiltin => "tidl::link::missing_builtin"
  | notAContract => "tidl::link::not_a_contract"
  | circularImport => "tidl::link::circular_import"
  | circularInheritance => "tidl::link::circular_inheritance"
  | packageNotFound => "tidl::driver::package_not_found"
  | ambiguousPackage => "tidl::driver::ambiguous_package"
  | duplicateScript => "tidl::driver::duplicate_script"
  | unknownPackage => "tidl::driver::unknown_package"
  | io => "tidl::driver::io"
  | importDepth => "tidl::driver::import_depth"

/-! ## Causes -/

/-- What a script may not declare twice. -/
inductive Duplicate where
  | type | field | method | enumValue | importAlias | base | argument
  deriving DecidableEq, Repr

namespace Duplicate

def kind : Duplicate → FaultKind
  | type => .duplicateType
  | field => .duplicateField
  | method => .duplicateMethod
  | enumValue => .duplicateEnumValue
  | importAlias => .duplicateImport
  | base => .duplicateBase
  | argument => .duplicateArgument

def label : Duplicate → String
  | type => "type name"
  | field => "field name"
  | method => "method name"
  | enumValue => "enum value"
  | importAlias => "import alias"
  | base => "base contract"
  | argument => "argument"

end Duplicate

/-- The part of a composite type that may not itself be composite. -/
inductive CompositePart where
  | element | mapKey | mapValue
  deriving DecidableEq, Repr

def CompositePart.message : CompositePart → String
  | element => "array or list element cannot be an array or list"
  | mapKey => "map key cannot be an array, list or map"
  | mapValue => "map value cannot be an array, list or map"

/-- What is wrong with an attribute whose use cannot be read from its type. -/
inductive UsageFlaw where
  | notATable | noUsage | noTarget
  deriving DecidableEq, Repr

def UsageFlaw.message : UsageFlaw → String
  | notATable => "type must be a table"
  | noUsage => "type has no AttrUsage declaration"
  | noTarget => "usage declaration has no Target argument"

/-- Why the work on a package failed. -/
inductive Cause where
  | illegalUtf8
  | unterminatedString
  | unterminatedComment
  | illegalEscape (escaped : Char)
  | malformedNumber (literal : String)
  | unexpectedToken (expected found : String)
  | enumValueOutOfRange (enum : String) (value : Int) (base : EnumBase)
  | arrayLengthOutOfRange (length : Int)
  | nestedComposite (part : CompositePart)
  /-- A name that is taken; `first` is where it was declared. -/
  | duplicate (what : Duplicate) (name : String) (first : Position)
  | tooManyFields
  | tooManyMethods
  | unknownType (path : String)
  | aliasConflict (name : String) (importedAt : Position)
  | invalidAttribute (name : String) (flaw : UsageFlaw)
  /-- No site accepts the attribute; `site` describes the node that carries it. -/
  | attrTargetMismatch (name site : String)
  | notConstant (found : String)
  | missingBuiltin (name : String)
  | notAContract (name : String)
  | circularImport (chain : List String)
  | circularInheritance (chain : List String)
  /-- An inherited method whose name is taken; `first` is the method that has it. -/
  | inheritedDuplicate (name : String) (first : Position)
  | packageNotFound (name : String)
  | ambiguousPackage (name : String) (candidates : List String)
  | duplicateScript (name : String)
  | unknownPackage (name : String)
  | unknownPackageType (package name : String)
  | io (message : String)
  /-- The imports are nested more deeply than the provider allows for. -/
  | importDepth (name : String)
  deriving DecidableEq, Repr

namespace Cause

def phase : Cause → Phase
  | illegalUtf8 | unterminatedString | unterminatedComment | illegalEscape _
  | malformedNumber _ => .lexer
  | unexpectedToken .. | enumValueOutOfRange .. | arrayLengthOutOfRange _ | nestedComposite _
  | duplicate .. | tooManyFields | tooManyMethods => .parse
  | unknownType _ | aliasConflict .. | invalidAttribute .. | attrTargetMismatch ..
  | notConstant _ | missingBuiltin _ | notAContract _ | circularImport _ | circularInheritance _
  | inheritedDuplicate .. => .link
  | packageNotFound _ | ambiguousPackage .. | duplicateScript _ | unknownPackage _
  | unknownPackageType .. | io _ | importDepth _ => .driver

def kind : Cause → FaultKind
  | illegalUtf8 => .illegalUtf8
  | unterminatedString => .unterminatedString
  | unterminatedComment => .unterminatedComment
  | illegalEscape _ => .illegalEscape
  | malformedNumber _ => .malformedNumber
  | unexpectedToken .. => .unexpectedToken
  | enumValueOutOfRange .. => .enumValueOutOfRange
  | arrayLengthOutOfRange _ => .arrayLengthOutOfRange
  | nestedComposite _ => .nestedComposite
  | duplicate what _ _ => what.kind
  | tooManyFields | tooManyMethods => .tooManyItems
  | unknownType _ | unknownPackageType .. => .unknownType
  | aliasConflict .. => .aliasConflict
  | invalidAttribute .. | notConstant _ => .invalidAttribute
  | attrTargetMismatch .. => .attrTargetMismatch
  | missingBuiltin _ => .missingBuiltin
  | notAContract _ => .notAContract
  | circularImport _ => .circularImport
  | circularInheritance _ => .circularInheritance
  | inheritedDuplicate .. => .duplicateMethod
  | packageNotFound _ => .packageNotFound
  | ambiguousPackage .. => .ambiguousPackage
  | duplicateScript _ => .duplicateScript
  | unknownPackage _ => .unknownPackage
  | io _ => .io
  | importDepth _ => .importDepth

/-- The hint at the place of a first declaration. -/
def see (first : Position) : String :=
  "\n\tsee: " ++ first.render

/-- The links of a chain, one on a line, each but the last followed by the verb. -/
def chainText (verb : String) : List String → String
  | [] => ""
  | [last] => "\n\t" ++ last
  | link :: rest => "\n\t" ++ link ++ " " ++ verb ++ chainText verb rest

def tooMany (what : String) : String :=
  "too many " ++ what ++ ", at most 65535 allowed"

def message : Cause → String
  | illegalUtf8 => "illegal utf-8 sequence"
  | unterminatedString => "string literal not terminated"
  | unterminatedComment => "block comment not terminated"
  | illegalEscape escaped => "illegal escape sequence `\\" ++ String.singleton escaped ++ "`"
  | malformedNumber literal => "malformed numeric literal `" ++ literal ++ "`"
  | unexpectedToken expected found => "expect " ++ expected ++ ", got " ++ found
  | enumValueOutOfRange enum value base =>
    "value " ++ toString value ++ " is out of enum(" ++ enum ++ ") type's range ["
      ++ toString base.least ++ ", " ++ toString base.greatest ++ "]"
  | arrayLengthOutOfRange length => "array length out of range: " ++ toString length
  | nestedComposite part => part.message
  | duplicate what name first => "duplicate " ++ what.label ++ "(" ++ name ++ ")" ++ see first
  | tooManyFields => tooMany "fields"
  | tooManyMethods => tooMany "methods"
  | unknownType path => "unknown type(" ++ path ++ ")"
  | aliasConflict name importedAt =>
    "type name(" ++ name ++ ") conflicts with import alias" ++ see importedAt
  | invalidAttribute name flaw => "attribute(" ++ name ++ ") " ++ flaw.message
  | attrTargetMismatch name site => "attribute(" ++ name ++ ") cannot target " ++ site
  | notConstant found => "expect an integer or enum value, got " ++ found
  | missingBuiltin name => "built-in declaration `" ++ name ++ "` not found"
  | notAContract name => "contract can only inherit from contracts, `" ++ name ++ "` is not one"
  | circularImport chain => "circular package import:" ++ chainText "imports" chain
  | circularInheritance chain => "circular inheritance:" ++ chainText "inherits" chain
  | inheritedDuplicate name first =>
    "duplicate method(" ++ name ++ ") after flattening" ++ see first
  | packageNotFound name => "package(" ++ name ++ ") not found"
  | ambiguousPackage name candidates =>
    "package(" ++ name ++ ") found in more than one place:\n\t"
      ++ String.intercalate "\n\t" candidates
  | duplicateScript name => "script(" ++ name ++ ") loaded twice"
  | unknownPackage name => "package(" ++ name ++ ") has not been compiled"
  | unknownPackageType package name => "package(" ++ package ++ ") has no type named " ++ name
  | io message => message
  | importDepth name => "package(" ++ name ++ ") is imported too deeply"

/-- Advice that goes with the message. -/
def hint : Cause → Option String
  | unterminatedString => some "string literals cannot span lines"
  | illegalEscape _ => some "only the enclosing quote character may be escaped"
  | arrayLengthOutOfRange _ =>
    some "array length must be between 1 and 65535; use `[]T` for a list"
  | attrTargetMismatch .. => some "check the `Target` of the attribute type's AttrUsage"
  | packageNotFound _ => some "add the directory containing it with --path or TIDL_PATH"
  | _ => none

end Cause

/-! ## Diagnostics -/

/-- A failure and where it happened. -/
structure Diagnostic where
  cause : Cause
  position : Position
  deriving DecidableEq, Repr

namespace Diagnostic

def kind (d : Diagnostic) : FaultKind := d.cause.kind

/-- The text `<phase> <position> error: <message>`. -/
def render (d : Diagnostic) : String :=
  d.cause.phase.name ++ " " ++ d.position.render ++ " error: " ++ d.cause.message

end Diagnostic

end SchemaLang
