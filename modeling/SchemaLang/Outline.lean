import SchemaLang.Arena
import SchemaLang.Decimal.Style
import SchemaLang.Text.Quoted

/-!
# Outlines

The outline of a node is one line for each node below and including it, each before those it owns,
indented by two spaces for every step of the way up. The summary of a package is a single line.
-/

namespace SchemaLang.Arena

/-- The number of steps up from a node, at most `fuel`. -/
def depthWithin (arena : Arena) : Nat → NodeId → Nat
  | 0, _ => 0
  | fuel + 1, id =>
    match (arena.node id).parent with
    | some parent => arena.depthWithin fuel parent + 1
    | none => 0

/-- The number of steps up from a node to one without a parent. -/
def depth (arena : Arena) (id : NodeId) : Nat :=
  arena.depthWithin arena.size id

/-- What a reference is bound to: the package and the name, or a question mark. -/
def targetText (arena : Arena) (reference : Reference) : String :=
  match reference.target with
  | some target => (arena.packageName? target).getD "" ++ "." ++ arena.name target
  | none => "?"

/-- The text of a node in an outline. -/
def lineText (arena : Arena) (id : NodeId) : String :=
  let name := arena.name id
  match arena.kind id with
  | .package _ => "package " ++ name
  | .script _ => "script " ++ name
  | .packageRef package => "import " ++ name ++ " \"" ++ arena.name package ++ "\""
  | .typeRef reference => "ref " ++ reference.dotted ++ " -> " ++ arena.targetText reference
  | .enum decl =>
    "enum " ++ name ++ " (" ++ toString decl.base.width ++ " byte "
      ++ (if decl.base.signed then "signed" else "unsigned") ++ ")"
      ++ (if decl.isError then " error" else "")
  | .enumValue value => name ++ " = " ++ toString value.toInt
  | .table decl => (if decl.isStruct then "struct " else "table ") ++ name
  | .field decl => "field " ++ name ++ " #" ++ toString decl.id.toNat
  | .contract _ => "contract " ++ name
  | .method decl => "method " ++ name ++ " #" ++ toString decl.id.toNat
  | .param decl => "param #" ++ toString decl.id.toNat
  | .attr _ => "@" ++ name
  | .args _ => "args"
  | .namedArgs items => "args " ++ String.intercalate ", " items.names
  | .string value => Text.quoted value
  | .int value => toString value.toInt
  | .float value => DecimalStyle.outline.render value
  | .bool value => if value then "true" else "false"
  | .array length _ => "array [" ++ toString length.toNat ++ "]"
  | .list _ => "list"
  | .map .. => "map"
  | .union .. => "|"

/-- The line of a node in an outline. -/
def line (arena : Arena) (id : NodeId) : String :=
  String.ofList (List.replicate (2 * arena.depth id) ' ') ++ arena.lineText id ++ "\n"

/-- The outline of a node. -/
def outline (arena : Arena) (id : NodeId) : String :=
  String.join ((arena.walk id).map arena.line)

/-- The number of nodes of a kind. -/
def countKind (arena : Arena) (p : NodeKind → Bool) (ids : List NodeId) : Nat :=
  ids.countP fun id => p (arena.kind id)

/-- One line about a linked package: how many scripts and types of each kind it has. -/
def summary (arena : Arena) (id : NodeId) : String :=
  match arena.package? id with
  | none => arena.name id ++ ": not a package"
  | some decl =>
    let count (p : NodeKind → Bool) : String := toString (arena.countKind p decl.types.nodes)
    let enums := count fun
      | .enum _ => true
      | _ => false
    let tables := count fun
      | .table _ => true
      | _ => false
    let contracts := count fun
      | .contract _ => true
      | _ => false
    "ok " ++ arena.name id ++ ": " ++ toString decl.scripts.size ++ " script(s), "
      ++ enums ++ " enum(s), " ++ tables ++ " table(s), " ++ contracts ++ " contract(s)"

end SchemaLang.Arena
