import SchemaLang.Arena
import SchemaLang.Diagnostic

/-!
# Reflection

Questions about a linked tree: the values of an enum, the argument that an attribute gives to a
field of its table, the value of a constant expression, and the tags of tables and enums.
-/

namespace SchemaLang.Arena

/-- The values of an enum by name, in the order of declaration. -/
def enumValues (arena : Arena) (enum : NodeId) : List (String × Int64) :=
  match arena.enum? enum with
  | none => []
  | some decl =>
    decl.values.entries.toList.filterMap fun (name, node) =>
      (arena.enumValue? node).map fun value => (name, value)

/-- The argument that initialises a field: the one at the place of the field in a positional list,
the one with its name in a labelled list. -/
def fieldArg? (arena : Arena) (field args : NodeId) : Option NodeId :=
  match arena.kind args with
  | .args items => (arena.field? field).bind fun decl => items[decl.id.toNat]?
  | .namedArgs items => items.find? (arena.name field)
  | _ => none

/-- The field of a table with a name. -/
def findField? (arena : Arena) (table : NodeId) (name : String) : Option NodeId :=
  (arena.table? table).bind fun decl => decl.fields.find? fun field => arena.name field == name

/-- The argument of an attribute for a field of its table. -/
def attrArg? (arena : Arena) (attr : NodeId) (fieldName : String) : Option NodeId := do
  let decl ← arena.attr? attr
  let args ← decl.args
  let table ← arena.attrType attr
  let field ← arena.findField? table fieldName
  arena.fieldArg? field args

/-! ## Constants -/

/-- The value of a constant expression nested at most `fuel` deep. -/
def evalWithin (arena : Arena) : Nat → NodeId → Except Diagnostic Int64
  | 0, expr => .error ⟨.notConstant (arena.kind expr).describe, arena.position expr⟩
  | fuel + 1, expr =>
    match arena.kind expr with
    | .int value => .ok value
    | .enumValue value => .ok value
    | .typeRef reference =>
      match reference.target with
      | none => .error ⟨.unknownType reference.dotted, arena.position expr⟩
      | some target =>
        match arena.enumValue? target with
        | some value => .ok value
        | none => .error ⟨.notConstant (arena.kind target).describe, arena.position expr⟩
    | .union left right => do
      let l ← arena.evalWithin fuel left
      let r ← arena.evalWithin fuel right
      pure (l ||| r)
    | other => .error ⟨.notConstant other.describe, arena.position expr⟩

/-- The value of a constant expression: an integer, an enum value, a reference to one, or the
bitwise union of such expressions. The operands of a union are older than the union, so no
expression is nested more deeply than there are nodes. -/
def evalConst (arena : Arena) (expr : NodeId) : Except Diagnostic Int64 :=
  arena.evalWithin (arena.size + 1) expr

/-! ## Tags -/

/-- Whether a node is a table that linking has tagged as a struct. -/
def isStruct (arena : Arena) (table : NodeId) : Bool :=
  match arena.table? table with
  | some decl => decl.isStruct
  | none => false

/-- Whether a node is an enum that linking has tagged as an error enum. -/
def isError (arena : Arena) (enum : NodeId) : Bool :=
  match arena.enum? enum with
  | some decl => decl.isError
  | none => false

end SchemaLang.Arena
