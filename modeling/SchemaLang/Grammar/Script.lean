import SchemaLang.Grammar.Declaration

/-!
# Scripts

```
script = ('import' ('(' imp* ')' | imp))* (attr* decl)* attr*
imp    = String | Ident String
```

An import is answered before the reading goes on. Every script that is not part of the built-in
package imports it at its start, unless the alias `tidl` is bound already. Attributes and comments
that are left at the end belong to the script.
-/

namespace SchemaLang.Parse

variable {σ : Type} (cx : ReadingContext σ)

/-! ## Imports -/

/-- The alias of an import that gives none: the last segment of its path. -/
def aliasOf (path : String) : String :=
  let trimmed := path.toList.reverse.dropWhile (· == '/')
  String.ofList (trimmed.takeWhile (· != '/')).reverse

/-- Binds an alias to a package. -/
def bindImport (name : String) (package : NodeId) (position : Position) : Parse σ NodeId :=
  buildUnique .importAlias name position fun arena =>
    arena.newPackageRef cx.script name package position

/-- One import: a path, or an alias and a path. -/
def importClause : Parse σ Unit := do
  let token ← next
  let (name, path, position) ←
    match token.kind with
    | .string path => pure (aliasOf path, path, token.position)
    | .ident name => do
      let (path, position) ← expectString "import path"
      pure (name, path, position)
    | _ => unexpected token "import path"
  let package ← importPackage cx path position
  let node ← bindImport cx name package position
  attachComments node

/-- One import of a group, unless the group ends. -/
def groupedImport : Parse σ Bool := do
  if ← nextIs ')' then pure false
  else
    importClause cx
    pure true

/-- One import statement, if the next token starts one. -/
def importStatement : Parse σ Bool := do
  let token ← peek
  if token.kind == .keyword .imports then
    advance
    if ← matchChar '(' then
      repeatWhile (groupedImport cx) cx.budget
      expectChar ')'
    else importClause cx
    pure true
  else pure false

/-- Imports the built-in package where the script has to and has not done so. -/
def implicitImport : Parse σ Unit := do
  let bound ← inspect fun arena =>
    match arena.script? cx.script with
    | some decl => decl.imports.contains Prelude.packageName
    | none => false
  if cx.package != Prelude.packageName && !bound then
    let position : Position := ⟨cx.file, 1, 1⟩
    let package ← importPackage cx Prelude.packageName position
    let _ ← bindImport cx Prelude.packageName package position

/-! ## The whole script -/

/-- One declaration with the attributes before it, unless the file ends. -/
def declaration : Parse σ Bool := do
  attributes cx
  let token ← next
  match token.kind with
  | .eof => pure false
  | .keyword .enum =>
    enumDeclaration cx
    pure true
  | .keyword .table =>
    tableDeclaration cx false
    pure true
  | .keyword .struct =>
    tableDeclaration cx true
    pure true
  | .keyword .contract =>
    contractDeclaration cx
    pure true
  | _ => unexpected token "declaration (enum, table, struct or contract)"

/-- A script. -/
def script : Parse σ Unit := do
  repeatWhile (importStatement cx) cx.budget
  implicitImport cx
  repeatWhile (declaration cx) cx.budget
  attachAttrs cx.script
  attachAllComments cx.script

end SchemaLang.Parse

namespace SchemaLang

/-- The file that positions in a script name: its path, or its name where it has none. -/
def Arena.scriptFile (arena : Arena) (script : NodeId) : String :=
  match (arena.script? script).bind (·.path) with
  | some path => path.display
  | none => arena.name script

/-- Reads a source into a script of the arena, answering imports with `importer`. -/
def readScript {σ : Type} (importer : Importer σ) (script : NodeId) (source : Text.Source) :
    EStateM Diagnostic (Arena × σ) Unit :=
  fun (arena, host) =>
    let file := arena.scriptFile script
    let feed := Feed.ofLexing (Lexing.ofSource file source)
    let cx : ReadingContext σ :=
      { script := script
        file := file
        package := (arena.packageName? script).getD ""
        budget := feed.size + 1
        importer := importer }
    match Parse.script cx ⟨feed, [], [], arena, host⟩ with
    | .ok () reading => .ok () (reading.arena, reading.host)
    | .error failure reading => .error failure (reading.arena, reading.host)

end SchemaLang
