import SchemaLang.Node

/-!
# The arena

All nodes of a session live in one arena and are numbered in the order of their allocation. Nodes
are never removed one by one; the newest ones can be dropped together.

Every operation is defined for every number. A number beyond the arena reads as a default node and
updates nothing.
-/

namespace SchemaLang

/-- The nodes of a session, by number. -/
structure Arena where
  nodes : Array Node

namespace Arena

/-- The arena without nodes. -/
def empty : Arena := ⟨#[]⟩

/-- The number of nodes, which is the number of the next one. -/
def size (arena : Arena) : Nat :=
  arena.nodes.size

/-- The node with a number. -/
def node (arena : Arena) (id : NodeId) : Node :=
  arena.nodes.getD id default

def kind (arena : Arena) (id : NodeId) : NodeKind :=
  (arena.node id).kind

def name (arena : Arena) (id : NodeId) : String :=
  (arena.node id).name

def position (arena : Arena) (id : NodeId) : Position :=
  (arena.node id).position

/-- Adds a node and gives its number. -/
def push (arena : Arena) (node : Node) : NodeId × Arena :=
  match arena with
  | ⟨nodes⟩ => (nodes.size, ⟨nodes.push node⟩)

/-- Adds a node that nothing owns yet. -/
def alloc (arena : Arena) (name : String) (script : Option NodeId) (position : Position)
    (kind : NodeKind) : NodeId × Arena :=
  arena.push (.detached name script position kind)

/-- Changes one node. -/
def update (arena : Arena) (id : NodeId) (f : Node → Node) : Arena :=
  match arena with
  | ⟨nodes⟩ => ⟨nodes.modify id f⟩

/-- Changes the kind of one node. -/
def updateKind (arena : Arena) (id : NodeId) (f : NodeKind → NodeKind) : Arena :=
  arena.update id (Node.mapKind f)

/-- Puts a node below another one. -/
def adopt (arena : Arena) (parent child : NodeId) : Arena :=
  arena.update child (Node.withParent parent)

/-- Drops every node with a number from `count` on. -/
def truncate (arena : Arena) (count : Nat) : Arena :=
  ⟨arena.nodes.take count⟩

/-! ## Nodes of one kind -/

def package? (arena : Arena) (id : NodeId) : Option Package :=
  match arena.kind id with
  | .package decl => some decl
  | _ => none

def script? (arena : Arena) (id : NodeId) : Option Script :=
  match arena.kind id with
  | .script decl => some decl
  | _ => none

/-- The package that an import stands for. -/
def packageRef? (arena : Arena) (id : NodeId) : Option NodeId :=
  match arena.kind id with
  | .packageRef package => some package
  | _ => none

def reference? (arena : Arena) (id : NodeId) : Option Reference :=
  match arena.kind id with
  | .typeRef reference => some reference
  | _ => none

def enum? (arena : Arena) (id : NodeId) : Option Enumeration :=
  match arena.kind id with
  | .enum decl => some decl
  | _ => none

def enumValue? (arena : Arena) (id : NodeId) : Option Int64 :=
  match arena.kind id with
  | .enumValue value => some value
  | _ => none

def table? (arena : Arena) (id : NodeId) : Option Table :=
  match arena.kind id with
  | .table decl => some decl
  | _ => none

def field? (arena : Arena) (id : NodeId) : Option Member :=
  match arena.kind id with
  | .field decl => some decl
  | _ => none

def contract? (arena : Arena) (id : NodeId) : Option Contract :=
  match arena.kind id with
  | .contract decl => some decl
  | _ => none

def method? (arena : Arena) (id : NodeId) : Option Method :=
  match arena.kind id with
  | .method decl => some decl
  | _ => none

def attr? (arena : Arena) (id : NodeId) : Option Attribute :=
  match arena.kind id with
  | .attr decl => some decl
  | _ => none

def namedArgs? (arena : Arena) (id : NodeId) : Option Registry :=
  match arena.kind id with
  | .namedArgs items => some items
  | _ => none

/-! ## The way up -/

/-- The script that a node was read from; a script is its own. -/
def scriptOf (arena : Arena) (id : NodeId) : Option NodeId :=
  match arena.kind id with
  | .script _ => some id
  | _ => (arena.node id).script

/-- The package of a node, following at most `fuel` script links. -/
def packageWithin (arena : Arena) : Nat → NodeId → Option NodeId
  | 0, _ => none
  | fuel + 1, id =>
    match arena.kind id with
    | .package _ => some id
    | .script decl => some decl.package
    | _ => (arena.node id).script.bind (arena.packageWithin fuel)

/-- The package that a node belongs to; a package is its own. The link to a script leads to an older
node, so there are fewer links than nodes. -/
def packageOf (arena : Arena) (id : NodeId) : Option NodeId :=
  arena.packageWithin (arena.size + 1) id

/-- The name of the package that a node belongs to. -/
def packageName? (arena : Arena) (id : NodeId) : Option String :=
  (arena.packageOf id).map arena.name

/-! ## The way down -/

/-- The nodes that a node owns: its attributes, then its parts. -/
def children (arena : Arena) (id : NodeId) : List NodeId :=
  (arena.node id).children

/-- The number of nodes on the ways down from `id`, counting ways of at most `depth` nodes. -/
def countWithin (arena : Arena) : Nat → NodeId → Nat
  | 0, _ => 0
  | depth + 1, id =>
    (arena.children id).foldr (fun child count => arena.countWithin depth child + count) 1

/-- Visits the node on top of the stack and puts the nodes it owns in its place, until the stack is
empty or `fuel` nodes are visited. The nodes visited before are `visited`, newest first. -/
def walkOnto (arena : Arena) (visited : List NodeId) : Nat → List NodeId → List NodeId
  | 0, _ => visited.reverse
  | _ + 1, [] => visited.reverse
  | fuel + 1, id :: stack => arena.walkOnto (id :: visited) fuel (arena.children id ++ stack)

/-- The nodes below and including `id`, each before those it owns. A way down that does not come back
to itself has each node of the arena at most once, and ends with one number beyond it at most, so the
walk ends because its stack is empty. -/
def walk (arena : Arena) (id : NodeId) : List NodeId :=
  arena.walkOnto [] (arena.countWithin (arena.size + 1) id) [id]

/-! ## Attributes -/

/-- The node that the type of an attribute is bound to. -/
def attrType (arena : Arena) (attr : NodeId) : Option NodeId := do
  let decl ← arena.attr? attr
  let reference ← arena.reference? decl.type
  reference.target

/-- The attributes on a node whose type is bound to `type`. -/
def attrsOfType (arena : Arena) (node type : NodeId) : List NodeId :=
  (arena.node node).attrs.toList.filter fun attr => arena.attrType attr == some type

/-- What a tool keeps with a node under a key. -/
def extra? (arena : Arena) (id : NodeId) (key : String) : Option String :=
  (arena.node id).extras[key]?

end Arena

end SchemaLang
