import SchemaLang.Arena.Build

/-!
# Calls of the operations

The operations that make nodes and tie them together, as data.

* `Operation`: an operation with its arguments; `Operation.run` carries it out.
* `Arena.Constructs`: what can be built by operations, in any order and on any nodes that exist, of the right
  kind or not.
* `Arena.Entry`: a name in a container. An operation with a rule of uniqueness asks for one
  (`Operation.request?`); `Arena.holder?` is the member that has it.
-/

namespace SchemaLang

/-! ## Operations -/

/-- An operation that makes a node or ties nodes together, with its arguments. -/
inductive Operation
  | newPackage (name : String)
  | newScript (package : NodeId) (name : String) (path : Option Path)
  | declareType (script type : NodeId)
  | newPackageRef (script : NodeId) (name : String) (package : NodeId) (position : Position)
  | newTypeRef (script : NodeId) (path : List String) (position : Position)
  | resolve (reference target : NodeId)
  | newEnum (script : NodeId) (name : String) (base : EnumBase) (position : Position)
  | newEnumValue (enum : NodeId) (name : String) (value : Int64) (position : Position)
  | newTable (script : NodeId) (name : String) (position : Position)
  | newField (table : NodeId) (name : String) (type : NodeId) (position : Position)
  | newContract (script : NodeId) (name : String) (position : Position)
  | addBase (contract base : NodeId)
  | newMethod (contract : NodeId) (name : String) (position : Position)
  | newParam (method type : NodeId) (position : Position)
  | newResult (method type : NodeId) (position : Position)
  | newAttr (script type : NodeId) (position : Position)
  | setAttrArgs (attr args : NodeId)
  | newArgs (script : NodeId) (position : Position)
  | pushArg (args item : NodeId)
  | newNamedArgs (script : NodeId) (position : Position)
  | insertNamedArg (args : NodeId) (name : String) (item : NodeId)
  | addAttr (node attr : NodeId)
  | removeAttr (node attr : NodeId)
  | newString (script : NodeId) (value : String) (position : Position)
  | newInt (script : NodeId) (value : Int64) (position : Position)
  | newFloat (script : NodeId) (value : Binary64) (position : Position)
  | newBool (script : NodeId) (value : Bool) (position : Position)
  | newArray (script : NodeId) (length : UInt16) (element : NodeId) (position : Position)
  | newList (script element : NodeId) (position : Position)
  | newMap (script key value : NodeId) (position : Position)
  | newUnion (script left right : NodeId) (position : Position)
  | bindComments (node : NodeId) (comments : List Comment)
  | setExtra (node : NodeId) (key value : String)

namespace Operation

/-- The nodes that an operation is called with. -/
def nodes : Operation → List NodeId
  | newPackage _ => []
  | newScript package .. => [package]
  | declareType script type => [script, type]
  | newPackageRef script _ package _ => [script, package]
  | newTypeRef script .. | newEnum script .. | newTable script .. | newContract script ..
  | newArgs script .. | newNamedArgs script .. | newString script .. | newInt script ..
  | newFloat script .. | newBool script .. => [script]
  | resolve reference target => [reference, target]
  | newEnumValue enum .. => [enum]
  | newField table _ type _ => [table, type]
  | addBase contract base => [contract, base]
  | newMethod contract .. => [contract]
  | newParam method type _ | newResult method type _ => [method, type]
  | newAttr script type _ => [script, type]
  | setAttrArgs attr args => [attr, args]
  | pushArg args item => [args, item]
  | insertNamedArg args _ item => [args, item]
  | addAttr node attr | removeAttr node attr => [node, attr]
  | newArray script _ element _ | newList script element _ => [script, element]
  | newMap script key value _ => [script, key, value]
  | newUnion script left right _ => [script, left, right]
  | bindComments node _ => [node]
  | setExtra node .. => [node]

/-- The nodes that the operation is called with exist. -/
def Applies (a : Arena) (op : Operation) : Prop :=
  ∀ n ∈ op.nodes, n < a.size

instance (a : Arena) (op : Operation) : Decidable (op.Applies a) :=
  inferInstanceAs (Decidable (∀ n ∈ op.nodes, n < a.size))

/-- The answer of an operation without the node that it made. -/
def plain {α : Type} (answer : Except NodeId α × Arena) : Except NodeId Unit × Arena :=
  (answer.1.map fun _ => (), answer.2)

/-- Carries out an operation: whether it is refused, for which node, and the arena after it. -/
def run (a : Arena) : Operation → Except NodeId Unit × Arena
  | newPackage name => (.ok (), (a.newPackage name).2)
  | newScript package name path => plain (a.newScript package name path)
  | declareType script type => a.declareType script type
  | newPackageRef script name package position =>
    plain (a.newPackageRef script name package position)
  | newTypeRef script path position => (.ok (), (a.newTypeRef script path position).2)
  | resolve reference target => (.ok (), (a.resolve reference target).2)
  | newEnum script name base position => (.ok (), (a.newEnum script name base position).2)
  | newEnumValue enum name value position => plain (a.newEnumValue enum name value position)
  | newTable script name position => (.ok (), (a.newTable script name position).2)
  | newField table name type position => plain (a.newField table name type position)
  | newContract script name position => (.ok (), (a.newContract script name position).2)
  | addBase contract base => a.addBase contract base
  | newMethod contract name position => plain (a.newMethod contract name position)
  | newParam method type position => (.ok (), (a.newParam method type position).2)
  | newResult method type position => (.ok (), (a.newResult method type position).2)
  | newAttr script type position => (.ok (), (a.newAttr script type position).2)
  | setAttrArgs attr args => (.ok (), a.setAttrArgs attr args)
  | newArgs script position => (.ok (), (a.newArgs script position).2)
  | pushArg args item => (.ok (), a.pushArg args item)
  | newNamedArgs script position => (.ok (), (a.newNamedArgs script position).2)
  | insertNamedArg args name item => a.insertNamedArg args name item
  | addAttr node attr => (.ok (), a.addAttr node attr)
  | removeAttr node attr => (.ok (), (a.removeAttr node attr).2)
  | newString script value position => (.ok (), (a.newString script value position).2)
  | newInt script value position => (.ok (), (a.newInt script value position).2)
  | newFloat script value position => (.ok (), (a.newFloat script value position).2)
  | newBool script value position => (.ok (), (a.newBool script value position).2)
  | newArray script length element position =>
    (.ok (), (a.newArray script length element position).2)
  | newList script element position => (.ok (), (a.newList script element position).2)
  | newMap script key value position => (.ok (), (a.newMap script key value position).2)
  | newUnion script left right position => (.ok (), (a.newUnion script left right position).2)
  | bindComments node comments => (.ok (), a.bindComments node comments)
  | setExtra node key value => (.ok (), a.setExtra node key value)

end Operation

/-- The second arena comes from the first one by operations on nodes that exist. -/
inductive Arena.Constructs (a : Arena) : Arena → Prop
  | refl : Constructs a a
  | step {b : Arena} (op : Operation) (h : Constructs a b) (applies : op.Applies b) :
    Constructs a (op.run b).2

/-! ## Names in containers -/

/-- A collection of names in a container. -/
inductive Space
  | scripts | types | imports | values | fields | bases | methods | labels
  deriving DecidableEq

/-- The members of a container with their names, where `name` gives the names of nodes. Scripts stand in the
order of their names, other members in the order of their registration. -/
def NodeKind.members (name : NodeId → String) : NodeKind → Space → List (String × NodeId)
  | .package decl, .scripts => decl.scripts.toList
  | .package decl, .types => decl.types.entries.toList
  | .script decl, .imports => decl.imports.entries.toList
  | .enum decl, .values => decl.values.entries.toList
  | .table decl, .fields => decl.fields.toList.map fun field => (name field, field)
  | .contract decl, .bases => decl.bases.toList.map fun base => (name base, base)
  | .contract decl, .methods => decl.methods.entries.toList
  | .namedArgs items, .labels => items.entries.toList
  | _, _ => []

/-- The kind is that of the containers that have the collection. -/
def Space.Suits (kind : NodeKind) : Space → Prop
  | .scripts | .types => ∃ decl, kind = .package decl
  | .imports => ∃ decl, kind = .script decl
  | .values => ∃ decl, kind = .enum decl
  | .fields => ∃ decl, kind = .table decl
  | .bases | .methods => ∃ decl, kind = .contract decl
  | .labels => ∃ items, kind = .namedArgs items

namespace Arena

/-- The members of a node with their names. -/
def members (a : Arena) (container : NodeId) (space : Space) : List (String × NodeId) :=
  (a.kind container).members a.name space

/-- A name in a collection of a container. -/
structure Entry where
  container : NodeId
  space : Space
  name : String

/-- The first registered member with the name. -/
def holder? (a : Arena) (entry : Entry) : Option NodeId :=
  ((a.members entry.container entry.space).find? (·.1 == entry.name)).map (·.2)

/-- The container is of the right kind. -/
def Entry.Suits (a : Arena) (entry : Entry) : Prop :=
  entry.space.Suits (a.kind entry.container)

end Arena

/-- The name that an operation with a rule of uniqueness asks for. -/
def Operation.request? (a : Arena) : Operation → Option Arena.Entry
  | newScript package name _ => some ⟨package, .scripts, name⟩
  | declareType script type => (a.packageOf script).map fun package => ⟨package, .types, a.name type⟩
  | newPackageRef script name .. => some ⟨script, .imports, name⟩
  | newEnumValue enum name .. => some ⟨enum, .values, name⟩
  | newField table name .. => some ⟨table, .fields, name⟩
  | addBase contract base => some ⟨contract, .bases, a.name base⟩
  | newMethod contract name _ => some ⟨contract, .methods, name⟩
  | insertNamedArg args name _ => some ⟨args, .labels, name⟩
  | _ => none

end SchemaLang
