import SchemaLang.Arena

/-!
# Building nodes

The operations that make nodes and tie them together. An operation with a rule of uniqueness gives
the node that has the name already, as an error, and then changes nothing. Operations on a node of
another kind than they are meant for set the parent and leave the rest alone.
-/

namespace SchemaLang.Arena

/-! ## Packages and scripts -/

def newPackage (arena : Arena) (name : String) : NodeId × Arena :=
  arena.alloc name none .unknown (.package ⟨∅, .empty⟩)

/-- Adds a script to a package; script names are unique in a package. -/
def newScript (arena : Arena) (package : NodeId) (name : String) (path : Option Path) :
    Except NodeId NodeId × Arena :=
  match (arena.package? package).bind fun decl => decl.scripts[name]? with
  | some existing => (.error existing, arena)
  | none =>
    let (id, arena) := arena.alloc name none ⟨name, 1, 1⟩ (.script ⟨package, path, .empty, #[]⟩)
    let arena := arena.adopt package id
    let arena := arena.updateKind package fun
      | .package ⟨scripts, types⟩ => .package ⟨scripts.insert name id, types⟩
      | kind => kind
    (.ok id, arena)

/-- Enters a declaration into its package and its script; type names are unique in a package. -/
def declareType (arena : Arena) (script type : NodeId) : Except NodeId Unit × Arena :=
  match arena.packageOf script with
  | none => (.ok (), arena)
  | some package =>
    let name := arena.name type
    match (arena.package? package).bind fun decl => decl.types.find? name with
    | some existing => (.error existing, arena)
    | none =>
      let arena := arena.updateKind package fun
        | .package ⟨scripts, types⟩ => .package ⟨scripts, types.insert name type⟩
        | kind => kind
      let arena := arena.updateKind script fun
        | .script ⟨owner, path, imports, types⟩ => .script ⟨owner, path, imports, types.push type⟩
        | kind => kind
      (.ok (), arena.adopt script type)

/-- Binds an import alias; aliases are unique in a script. -/
def newPackageRef (arena : Arena) (script : NodeId) (name : String) (package : NodeId)
    (position : Position) : Except NodeId NodeId × Arena :=
  match (arena.script? script).bind fun decl => decl.imports.find? name with
  | some existing => (.error existing, arena)
  | none =>
    let (id, arena) := arena.alloc name (some script) position (.packageRef package)
    let arena := arena.adopt script id
    let arena := arena.updateKind script fun
      | .script ⟨owner, path, imports, types⟩ =>
        .script ⟨owner, path, imports.insert name id, types⟩
      | kind => kind
    (.ok id, arena)

/-! ## References -/

/-- Adds an unbound reference; its name is the dotted path. -/
def newTypeRef (arena : Arena) (script : NodeId) (path : List String) (position : Position) :
    NodeId × Arena :=
  arena.alloc (String.intercalate "." path) (some script) position (.typeRef ⟨path, none⟩)

/-- Binds a reference, unless it is bound already. -/
def resolve (arena : Arena) (reference target : NodeId) : Bool × Arena :=
  match arena.reference? reference with
  | some ⟨_, none⟩ =>
    (true, arena.updateKind reference fun
      | .typeRef ⟨path, _⟩ => .typeRef ⟨path, some target⟩
      | kind => kind)
  | _ => (false, arena)

/-! ## Enums -/

def newEnum (arena : Arena) (script : NodeId) (name : String) (base : EnumBase)
    (position : Position) : NodeId × Arena :=
  arena.alloc name (some script) position (.enum ⟨base, .empty, none, false⟩)

/-- Adds a value to an enum; value names are unique in an enum, and the first value is its
default. -/
def newEnumValue (arena : Arena) (enum : NodeId) (name : String) (value : Int64)
    (position : Position) : Except NodeId NodeId × Arena :=
  match (arena.enum? enum).bind fun decl => decl.values.find? name with
  | some existing => (.error existing, arena)
  | none =>
    let script := (arena.node enum).script
    let (id, arena) := arena.alloc name script position (.enumValue value)
    let arena := arena.adopt enum id
    let arena := arena.updateKind enum fun
      | .enum ⟨base, values, default, isError⟩ =>
        .enum ⟨base, values.insert name id, some (default.getD id), isError⟩
      | kind => kind
    (.ok id, arena)

/-- Sets whether an enum is an error enum. -/
def setError (arena : Arena) (enum : NodeId) (value : Bool) : Arena :=
  arena.updateKind enum fun
    | .enum ⟨base, values, default, _⟩ => .enum ⟨base, values, default, value⟩
    | kind => kind

/-! ## Tables -/

def newTable (arena : Arena) (script : NodeId) (name : String) (position : Position) :
    NodeId × Arena :=
  arena.alloc name (some script) position (.table ⟨#[], false⟩)

/-- The fields of a table. -/
def fieldsOf (arena : Arena) (table : NodeId) : Array NodeId :=
  match arena.table? table with
  | some decl => decl.fields
  | none => #[]

/-- Adds a field to a table; field names are unique in a table, and the id of a field is its
place. -/
def newField (arena : Arena) (table : NodeId) (name : String) (type : NodeId)
    (position : Position) : Except NodeId NodeId × Arena :=
  match (arena.fieldsOf table).find? fun field => arena.name field == name with
  | some existing => (.error existing, arena)
  | none =>
    let count := (arena.fieldsOf table).size
    let script := (arena.node table).script
    let (id, arena) := arena.alloc name script position (.field ⟨UInt16.ofNat count, type⟩)
    let arena := arena.adopt table id
    let arena := arena.adopt id type
    let arena := arena.updateKind table fun
      | .table ⟨fields, isStruct⟩ => .table ⟨fields.push id, isStruct⟩
      | kind => kind
    (.ok id, arena)

/-- Sets whether a table is a struct. -/
def setStruct (arena : Arena) (table : NodeId) (value : Bool) : Arena :=
  arena.updateKind table fun
    | .table ⟨fields, _⟩ => .table ⟨fields, value⟩
    | kind => kind

/-! ## Contracts -/

def newContract (arena : Arena) (script : NodeId) (name : String) (position : Position) :
    NodeId × Arena :=
  arena.alloc name (some script) position (.contract ⟨#[], .empty, false⟩)

/-- The base references of a contract. -/
def basesOf (arena : Arena) (contract : NodeId) : Array NodeId :=
  match arena.contract? contract with
  | some decl => decl.bases
  | none => #[]

/-- Adds a base to a contract; the same dotted path is a base once. -/
def addBase (arena : Arena) (contract base : NodeId) : Except NodeId Unit × Arena :=
  match (arena.basesOf contract).find? fun other => arena.name other == arena.name base with
  | some existing => (.error existing, arena)
  | none =>
    let arena := arena.adopt contract base
    let arena := arena.updateKind contract fun
      | .contract ⟨bases, methods, flattened⟩ => .contract ⟨bases.push base, methods, flattened⟩
      | kind => kind
    (.ok (), arena)

/-- The number of methods of a contract. -/
def methodCount (arena : Arena) (contract : NodeId) : Nat :=
  match arena.contract? contract with
  | some decl => decl.methods.size
  | none => 0

/-- The method of a contract with a name. -/
def findMethod? (arena : Arena) (contract : NodeId) (name : String) : Option NodeId :=
  (arena.contract? contract).bind fun decl => decl.methods.find? name

/-- Enters a method into a contract. -/
def insertMethod (arena : Arena) (contract : NodeId) (name : String) (method : NodeId) : Arena :=
  arena.updateKind contract fun
    | .contract ⟨bases, methods, flattened⟩ =>
      .contract ⟨bases, methods.insert name method, flattened⟩
    | kind => kind

/-- Adds a method to a contract; method names are unique in a contract, and the id of a method is
its place. A node that is no contract stands in the way itself. -/
def newMethod (arena : Arena) (contract : NodeId) (name : String) (position : Position) :
    Except NodeId NodeId × Arena :=
  if (arena.contract? contract).isNone then (.error contract, arena)
  else
    match arena.findMethod? contract name with
    | some existing => (.error existing, arena)
    | none =>
      let count := arena.methodCount contract
      let script := (arena.node contract).script
      let (id, arena) := arena.alloc name script position (.method ⟨UInt16.ofNat count, #[], #[]⟩)
      let arena := arena.adopt contract id
      (.ok id, arena.insertMethod contract name id)

/-- Adds a slot with a place and a type below a method. -/
def newSlot (arena : Arena) (method : NodeId) (place : UInt16) (type : NodeId)
    (position : Position) : NodeId × Arena :=
  let script := (arena.node method).script
  let name := "arg" ++ toString place.toNat
  let (id, arena) := arena.alloc name script position (.param ⟨place, type⟩)
  let arena := arena.adopt method id
  (id, arena.adopt id type)

/-- Adds a parameter to a method. -/
def newParam (arena : Arena) (method type : NodeId) (position : Position) : NodeId × Arena :=
  let place :=
    match arena.method? method with
    | some decl => UInt16.ofNat decl.params.size
    | none => 0
  let (id, arena) := arena.newSlot method place type position
  (id, arena.updateKind method fun
    | .method ⟨number, params, results⟩ => .method ⟨number, params.push id, results⟩
    | kind => kind)

/-- Adds a result to a method. -/
def newResult (arena : Arena) (method type : NodeId) (position : Position) : NodeId × Arena :=
  let place :=
    match arena.method? method with
    | some decl => UInt16.ofNat decl.results.size
    | none => 0
  let (id, arena) := arena.newSlot method place type position
  (id, arena.updateKind method fun
    | .method ⟨number, params, results⟩ => .method ⟨number, params, results.push id⟩
    | kind => kind)

/-- Adds a copy of a method to a contract under another id. The copy shares the slots and attributes
of the method. -/
def copyMethod (arena : Arena) (method contract : NodeId) (number : UInt16) : NodeId × Arena :=
  let copy := { arena.node method with parent := some contract }
  let copy := copy.mapKind fun
    | .method ⟨_, params, results⟩ => .method ⟨number, params, results⟩
    | kind => kind
  let name := copy.name
  let (id, arena) := arena.push copy
  (id, arena.insertMethod contract name id)

/-- Sets the id of a method. -/
def setMethodId (arena : Arena) (method : NodeId) (number : UInt16) : Arena :=
  arena.updateKind method fun
    | .method ⟨_, params, results⟩ => .method ⟨number, params, results⟩
    | kind => kind

/-- Marks a contract as flattened. -/
def setFlattened (arena : Arena) (contract : NodeId) : Arena :=
  arena.updateKind contract fun
    | .contract ⟨bases, methods, _⟩ => .contract ⟨bases, methods, true⟩
    | kind => kind

/-! ## Attributes and arguments -/

/-- Adds an attribute; its name is that of the reference to its type. -/
def newAttr (arena : Arena) (script type : NodeId) (position : Position) : NodeId × Arena :=
  let name := arena.name type
  let (id, arena) := arena.alloc name (some script) position (.attr ⟨type, none⟩)
  (id, arena.adopt id type)

def setAttrArgs (arena : Arena) (attr args : NodeId) : Arena :=
  (arena.adopt attr args).updateKind attr fun
    | .attr ⟨type, _⟩ => .attr ⟨type, some args⟩
    | kind => kind

def newArgs (arena : Arena) (script : NodeId) (position : Position) : NodeId × Arena :=
  arena.alloc "" (some script) position (.args #[])

def pushArg (arena : Arena) (args item : NodeId) : Arena :=
  (arena.adopt args item).updateKind args fun
    | .args items => .args (items.push item)
    | kind => kind

def newNamedArgs (arena : Arena) (script : NodeId) (position : Position) : NodeId × Arena :=
  arena.alloc "" (some script) position (.namedArgs .empty)

/-- Adds an argument under a label; labels are unique in a list. -/
def insertNamedArg (arena : Arena) (args : NodeId) (name : String) (item : NodeId) :
    Except NodeId Unit × Arena :=
  match (arena.namedArgs? args).bind fun items => items.find? name with
  | some existing => (.error existing, arena)
  | none =>
    (.ok (), (arena.adopt args item).updateKind args fun
      | .namedArgs items => .namedArgs (items.insert name item)
      | kind => kind)

/-- Puts an attribute on a node, once. -/
def addAttr (arena : Arena) (node attr : NodeId) : Arena :=
  let arena := arena.update node fun
    | ⟨name, parent, script, position, comments, attrs, extras, kind⟩ =>
      ⟨name, parent, script, position, comments,
        if attrs.contains attr then attrs else attrs.push attr, extras, kind⟩
  arena.adopt node attr

/-- Takes an attribute off a node, and says whether it was there. -/
def removeAttr (arena : Arena) (node attr : NodeId) : Bool × Arena :=
  let present := (arena.node node).attrs.contains attr
  (present, arena.update node fun carrier =>
    { carrier with attrs := carrier.attrs.filter (· != attr) })

/-! ## Literals and types -/

def newString (arena : Arena) (script : NodeId) (value : String) (position : Position) :
    NodeId × Arena :=
  arena.alloc "" (some script) position (.string value)

def newInt (arena : Arena) (script : NodeId) (value : Int64) (position : Position) :
    NodeId × Arena :=
  arena.alloc "" (some script) position (.int value)

def newFloat (arena : Arena) (script : NodeId) (value : Binary64) (position : Position) :
    NodeId × Arena :=
  arena.alloc "" (some script) position (.float value)

def newBool (arena : Arena) (script : NodeId) (value : Bool) (position : Position) :
    NodeId × Arena :=
  arena.alloc "" (some script) position (.bool value)

def newArray (arena : Arena) (script : NodeId) (length : UInt16) (element : NodeId)
    (position : Position) : NodeId × Arena :=
  let (id, arena) := arena.alloc "" (some script) position (.array length element)
  (id, arena.adopt id element)

def newList (arena : Arena) (script element : NodeId) (position : Position) : NodeId × Arena :=
  let (id, arena) := arena.alloc "" (some script) position (.list element)
  (id, arena.adopt id element)

def newMap (arena : Arena) (script key value : NodeId) (position : Position) : NodeId × Arena :=
  let (id, arena) := arena.alloc "" (some script) position (.map key value)
  (id, (arena.adopt id key).adopt id value)

def newUnion (arena : Arena) (script left right : NodeId) (position : Position) :
    NodeId × Arena :=
  let (id, arena) := arena.alloc "" (some script) position (.union left right)
  (id, (arena.adopt id left).adopt id right)

/-! ## Comments and extras -/

/-- Binds comments to a node, after those it has. -/
def bindComments (arena : Arena) (node : NodeId) (comments : List Comment) : Arena :=
  arena.update node fun carrier => { carrier with comments := carrier.comments ++ comments }

/-- Keeps a text with a node under a key. -/
def setExtra (arena : Arena) (node : NodeId) (key value : String) : Arena :=
  arena.update node fun carrier => { carrier with extras := carrier.extras.insert key value }

end SchemaLang.Arena
