import SchemaLang.Decimal.Binary64
import SchemaLang.Keyword
import SchemaLang.Path
import SchemaLang.Position
import SchemaLang.Registry

/-!
# Nodes

Everything that a script declares is a node of one arena, and nodes refer to one another by number.
A node owns its attributes and the nodes that its kind lists. The links to its parent and to its
script, and the target of a reference, own nothing and may lead to another package.
-/

namespace SchemaLang

/-! ## Payloads -/

/-- A directory of scripts that share their types. -/
structure Package where
  /-- The scripts, by file name. -/
  scripts : Std.TreeMap String NodeId
  /-- The types that any of the scripts declares. -/
  types : Registry

/-- A source file. -/
structure Script where
  package : NodeId
  path : Option Path
  /-- The import nodes, by alias. -/
  imports : Registry
  /-- The types declared here, in order. -/
  types : Array NodeId

/-- A dotted name, and what linking has bound it to. -/
structure Reference where
  path : List String
  target : Option NodeId
  deriving DecidableEq, Repr

/-- The name as it was written. -/
def Reference.dotted (reference : Reference) : String :=
  String.intercalate "." reference.path

structure Enumeration where
  base : EnumBase
  /-- The value nodes, by name. -/
  values : Registry
  /-- The first value. -/
  default : Option NodeId
  /-- Whether linking has found the error marker on the enum. -/
  isError : Bool

structure Table where
  fields : Array NodeId
  /-- Whether linking has found the struct marker on the table. -/
  isStruct : Bool
  deriving DecidableEq, Repr

/-- A field of a table, or a slot of the parameters or results of a method: its place and its
type. Places have 16 bits. -/
structure Member where
  id : UInt16
  type : NodeId
  deriving DecidableEq, Repr

structure Contract where
  /-- The references to the base contracts, in order. -/
  bases : Array NodeId
  /-- The contract's own methods, and after flattening those it inherits. -/
  methods : Registry
  flattened : Bool

structure Method where
  id : UInt16
  params : Array NodeId
  results : Array NodeId
  deriving DecidableEq, Repr

/-- An attribute: the reference to its table, and its arguments. -/
structure Attribute where
  type : NodeId
  args : Option NodeId
  deriving DecidableEq, Repr

/-! ## Kinds -/

/-- What a node is. -/
inductive NodeKind where
  | package (decl : Package)
  | script (decl : Script)
  /-- An import: the package that the alias stands for. -/
  | packageRef (package : NodeId)
  | typeRef (reference : Reference)
  | enum (decl : Enumeration)
  | enumValue (value : Int64)
  | table (decl : Table)
  | field (decl : Member)
  | contract (decl : Contract)
  | method (decl : Method)
  | param (decl : Member)
  | attr (decl : Attribute)
  | args (items : Array NodeId)
  | namedArgs (items : Registry)
  | string (value : String)
  | int (value : Int64)
  | float (value : Binary64)
  | bool (value : Bool)
  /-- The type `[length]element`. -/
  | array (length : UInt16) (element : NodeId)
  /-- The type `[]element`. -/
  | list (element : NodeId)
  /-- The type `map[key]value`. -/
  | map (key value : NodeId)
  /-- The expression `left | right`. -/
  | union (left right : NodeId)

namespace NodeKind

/-- How a kind is named in messages. -/
def describe : NodeKind → String
  | package _ => "package"
  | script _ => "script"
  | packageRef _ => "package reference"
  | typeRef _ => "type reference"
  | enum _ => "enum"
  | enumValue _ => "enum value"
  | table _ => "table"
  | field _ => "field"
  | contract _ => "contract"
  | method _ => "method"
  | param _ => "param"
  | attr _ => "attribute"
  | args _ => "argument list"
  | namedArgs _ => "named argument list"
  | string _ => "string"
  | int _ => "integer"
  | float _ => "float"
  | bool _ => "bool"
  | array .. => "array"
  | list _ => "list"
  | map .. => "map"
  | union .. => "binary operation"

/-- Arrays and lists, which may not be elements of arrays and lists. -/
def isSequence : NodeKind → Bool
  | array .. | list _ => true
  | _ => false

/-- Arrays, lists and maps, which may not be keys or values of maps. -/
def isComposite : NodeKind → Bool
  | array .. | list _ | map .. => true
  | _ => false

/-- The nodes that a node of this kind owns beside its attributes, in order. -/
def parts : NodeKind → List NodeId
  | package decl => decl.scripts.values
  | script decl => decl.imports.nodes ++ decl.types.toList
  | enum decl => decl.values.nodes
  | table decl => decl.fields.toList
  | field decl => [decl.type]
  | contract decl => decl.bases.toList ++ decl.methods.nodes
  | method decl => decl.params.toList ++ decl.results.toList
  | param decl => [decl.type]
  | attr decl => decl.type :: decl.args.toList
  | args items => items.toList
  | namedArgs items => items.nodes
  | array _ element => [element]
  | list element => [element]
  | map key value => [key, value]
  | union left right => [left, right]
  | packageRef _ | typeRef _ | enumValue _ | string _ | int _ | float _ | bool _ => []

end NodeKind

/-! ## Nodes -/

/-- A node of the arena. -/
structure Node where
  name : String
  /-- The node that owns this one, where it is owned. -/
  parent : Option NodeId
  /-- The script that the node was read from; packages and scripts have none. -/
  script : Option NodeId
  position : Position
  comments : List Comment
  /-- The attributes that stand on the node. -/
  attrs : Array NodeId
  /-- What tools keep with the node. -/
  extras : Std.TreeMap String String
  kind : NodeKind

namespace Node

/-- A node that nothing owns yet. -/
def detached (name : String) (script : Option NodeId) (position : Position) (kind : NodeKind) :
    Node :=
  ⟨name, none, script, position, [], #[], ∅, kind⟩

instance : Inhabited Node := ⟨detached "" none .unknown (.bool false)⟩

/-- The nodes that the node owns: its attributes, then its parts. -/
def children (node : Node) : List NodeId :=
  node.attrs.toList ++ node.kind.parts

/-- The node with its kind changed. -/
def mapKind (f : NodeKind → NodeKind) : Node → Node
  | ⟨name, parent, script, position, comments, attrs, extras, kind⟩ =>
    ⟨name, parent, script, position, comments, attrs, extras, f kind⟩

/-- The node below another one. -/
def withParent (parent : NodeId) (node : Node) : Node :=
  { node with parent := some parent }

end Node

end SchemaLang
