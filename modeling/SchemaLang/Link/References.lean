import SchemaLang.Arena.Build
import SchemaLang.Diagnostic

/-!
# Binding references

The first pass of linking binds every reference of a package. What a path denotes depends on the
script it stands in:

* `n` is the type `n` of the package, unless `n` is an import alias of the script;
* `a.b` is the type `b` of the package imported as `a`, or else the value `b` of the enum `a`;
* `a.b.c` is the value `c` of the enum `b` of the package imported as `a`;
* a longer path denotes nothing.
-/

namespace SchemaLang

/-- A step of linking, which fails with a diagnostic and keeps what it has changed by then. -/
abbrev Link := EStateM Diagnostic Arena

namespace Arena

/-- The value of an enum with a name. -/
def findEnumValue? (arena : Arena) (enum : NodeId) (name : String) : Option NodeId :=
  (arena.enum? enum).bind fun decl => decl.values.find? name

/-- The package that a script imports under an alias. -/
def importedPackage? (arena : Arena) (script : Script) (name : String) : Option Package := do
  let node ← script.imports.find? name
  let package ← arena.packageRef? node
  arena.package? package

/-- What a path denotes in a script of a package. -/
def denoted? (arena : Arena) (script : Script) (package : Package) :
    List String → Option NodeId
  | [name] => if script.imports.contains name then none else package.types.find? name
  | [first, second] =>
    match arena.importedPackage? script first with
    | some imported => imported.types.find? second
    | none => (package.types.find? first).bind fun enum => arena.findEnumValue? enum second
  | [first, second, third] =>
    (arena.importedPackage? script first).bind fun imported =>
      (imported.types.find? second).bind fun enum => arena.findEnumValue? enum third
  | _ => none

/-- The import whose alias stands in the way of a path. -/
def aliasConflict? (script : Script) : List String → Option (String × NodeId)
  | [name] => (script.imports.find? name).map fun node => (name, node)
  | _ => none

/-- What a reference denotes. -/
def lookup (arena : Arena) (id : NodeId) : Except Diagnostic NodeId :=
  let position := arena.position id
  let path :=
    match arena.reference? id with
    | some reference => reference.path
    | none => []
  let unknown : Diagnostic := ⟨.unknownType (String.intercalate "." path), position⟩
  match (arena.scriptOf id).bind arena.script? with
  | none => .error unknown
  | some script =>
    match arena.package? script.package with
    | none => .error unknown
    | some package =>
      match aliasConflict? script path with
      | some (name, node) => .error ⟨.aliasConflict name (arena.position node), position⟩
      | none =>
        match arena.denoted? script package path with
        | some target => .ok target
        | none => .error unknown

/-- Whether a node is a reference that is not bound. -/
def isUnbound (arena : Arena) (id : NodeId) : Bool :=
  match arena.kind id with
  | .typeRef ⟨_, none⟩ => true
  | _ => false

end Arena

namespace Link

/-- Binds one reference. -/
def bindReference (id : NodeId) : Link Unit :=
  fun arena =>
    match arena.lookup id with
    | .error failure => .error failure arena
    | .ok target => .ok () (arena.resolve id target).2

/-- Binds every reference of a package that is not bound yet. -/
def bindReferences (package : NodeId) : Link Unit :=
  fun arena =>
    let unbound := (arena.walk package).filter arena.isUnbound
    unbound.forM bindReference arena

end Link

end SchemaLang
