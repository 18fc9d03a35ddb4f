import SchemaLang.Grammar.Script
import SchemaLang.Link
import SchemaLang.Outline
import SchemaLang.Provider

/-!
# Sessions

A session compiles packages on demand. It keeps one arena, the packages that are linked, by name,
and the packages that are being compiled. An import compiles the imported package to its end before
the script that imports it is read on.

* A package enters the session only when it is linked; then it is never compiled again.
* When compiling fails, the nodes made for the package are dropped, unless a package that it imports
  was linked meanwhile: the nodes of that one lie behind them.
* An import of a package that is being compiled is a circular import.
-/

namespace SchemaLang

/-- The packages of a session. -/
structure Catalogue where
  /-- The linked packages, by name. -/
  loaded : Std.TreeMap String NodeId
  /-- The packages that are being compiled, outermost first. -/
  loading : List (String × NodeId)

namespace Catalogue

def empty : Catalogue := ⟨∅, []⟩

/-- Enters a package that is being compiled. -/
def enter (catalogue : Catalogue) (name : String) (package : NodeId) : Catalogue :=
  { catalogue with loading := catalogue.loading ++ [(name, package)] }

/-- Leaves the package that was entered last. -/
def leave (catalogue : Catalogue) : Catalogue :=
  { catalogue with loading := catalogue.loading.dropLast }

/-- Adds a linked package. -/
def add (catalogue : Catalogue) (name : String) (package : NodeId) : Catalogue :=
  { catalogue with loaded := catalogue.loaded.insert name package }

/-- The chain of imports that the import of `name` closes, if it closes one. -/
def cycle? (catalogue : Catalogue) (name : String) : Option (List String) :=
  let names := catalogue.loading.map (·.1)
  if names.contains name then some (names.dropWhile (· != name) ++ [name]) else none

end Catalogue

/-- An arena and the packages in it. -/
abbrev Session := Arena × Catalogue

/-- A step of a session. -/
abbrev Compile := EStateM Diagnostic Session

namespace Session

def empty : Session := (.empty, .empty)

def arena (session : Session) : Arena := session.1

def catalogue (session : Session) : Catalogue := session.2

/-- The linked package with a name. -/
def package? (session : Session) (name : String) : Option NodeId :=
  session.catalogue.loaded[name]?

/-- The type of a linked package with a name. -/
def typeOf (session : Session) (package name : String) : Except Diagnostic NodeId :=
  match session.package? package with
  | none => .error ⟨.unknownPackage package, .unknown⟩
  | some id =>
    match (session.arena.package? id).bind fun decl => decl.types.find? name with
    | none => .error ⟨.unknownPackageType package name, .unknown⟩
    | some type => .ok type

/-- The outlines of all linked packages, in the order of their names. -/
def outline (session : Session) : String :=
  String.join (session.catalogue.loaded.values.map session.arena.outline)

/-- An entry of the catalogue for people. -/
def describeEntry (opening middle closing : String) (entry : String × NodeId) : String :=
  opening ++ Text.quoted entry.1 ++ middle ++ "NodeId(" ++ toString entry.2 ++ ")" ++ closing

/-- The state of the session in one line. -/
def describe (session : Session) : String :=
  let loaded := session.catalogue.loaded.toList.map (describeEntry "" ": " "")
  let loading := session.catalogue.loading.map (describeEntry "(" ", " ")")
  "Compiler \x7b nodes: " ++ toString session.arena.size
    ++ ", loaded: \x7b" ++ String.intercalate ", " loaded ++ "\x7d"
    ++ ", loading: [" ++ String.intercalate ", " loading ++ "], .. \x7d"

end Session

namespace Compile

/-- A failure without a place is reported at the import that led to it. -/
def pointAt (failure : Diagnostic) (position : Position) : Diagnostic :=
  if !failure.position.isValid && position.isValid then { failure with position := position }
  else failure

/-- Reads one script of a package, whoever answers its imports. -/
def readFile {σ : Type} (importer : Importer σ) (package : NodeId) (name : String)
    (path : Option Path) (source : Text.Source) : EStateM Diagnostic (Arena × σ) Unit :=
  fun (arena, host) =>
    match arena.newScript package name path with
    | (.error _, arena) => .error ⟨.duplicateScript name, .unknown⟩ (arena, host)
    | (.ok script, arena) => readScript importer script source (arena, host)

/-- Reads one source file of a package. -/
def readPath (provider : Provider) (importer : Importer Catalogue) (package : NodeId)
    (path : Path) : Compile Unit :=
  match provider.read path with
  | .error fault => throw (fault.diagnostic path)
  | .ok bytes =>
    readFile importer package path.scriptName (some path) (.ofBytes bytes)

/-- Reads all scripts of a package. -/
def readSources (provider : Provider) (importer : Importer Catalogue) (package : NodeId) :
    Sources → Compile Unit
  | .embedded => readFile importer package Prelude.fileName none ⟨Prelude.text.toList, true⟩
  | .files paths => paths.forM (readPath provider importer package)

/-- Links a package whose scripts are read. The built-in package is checked against itself, and
another one against the built-in package that is linked. -/
def linkPackage (name : String) (package : NodeId) : Compile Unit :=
  fun (arena, catalogue) =>
    let builtin :=
      if name == Prelude.packageName then some package
      else catalogue.loaded[Prelude.packageName]?
    match Link.package package builtin arena with
    | .ok () arena => .ok () (arena, catalogue)
    | .error failure arena => .error failure (arena, catalogue)

/-- Reads and links a package as a new node, with nested imports answered by `importer`. -/
def load (provider : Provider) (importer : Importer Catalogue) (name : String)
    (sources : Sources) : Compile NodeId :=
  fun (arena, catalogue) =>
    let mark := arena.size
    let cached := catalogue.loaded.size
    let (package, arena) := arena.newPackage name
    let steps : Compile Unit := do
      readSources provider importer package sources
      linkPackage name package
    match steps (arena, catalogue.enter name package) with
    | .ok () (arena, catalogue) => .ok package (arena, catalogue.leave.add name package)
    | .error failure (arena, catalogue) =>
      let kept := if catalogue.loaded.size = cached then arena.truncate mark else arena
      .error failure (kept, catalogue.leave)

/-- The package with a name, compiled if it is not linked yet, with imports nested at most `depth`
deep. -/
def package (provider : Provider) : Nat → Importer Catalogue
  | depth, name, position => fun (arena, catalogue) =>
    match catalogue.loaded[name]? with
    | some package => .ok package (arena, catalogue)
    | none =>
      match catalogue.cycle? name with
      | some chain => .error ⟨.circularImport chain, position⟩ (arena, catalogue)
      | none =>
        match provider.locate name with
        | .error failure => .error (pointAt failure position) (arena, catalogue)
        | .ok sources =>
          match depth with
          | 0 => .error ⟨.importDepth name, position⟩ (arena, catalogue)
          | depth + 1 =>
            load provider (package provider depth) name sources (arena, catalogue)

end Compile

/-- Compiles a package and everything that it imports, or gives it from the session. -/
def Session.compile (provider : Provider) (name : String) : Compile NodeId :=
  Compile.package provider provider.depth name .unknown

end SchemaLang
