import SchemaLang.Arena.Build
import SchemaLang.Token.Feed

/-!
# Reading a script

A reading turns the feed of one file into nodes. It stops at the first failure, and keeps the nodes
that it has built by then. Comments and attributes wait until the node they belong to is known:

* comments are picked up when the token after them is looked at, and wait until a node claims them
  or the file ends;
* attributes wait for the next declaration, member or slot.

Every loop of the grammar takes a token on each round, so the number of tokens bounds all of them.
-/

namespace SchemaLang

/-- How an import is answered: from the path and the place of the import, with the package that it
stands for. The answer may add nodes to the arena and change what the host keeps. -/
abbrev Importer (σ : Type) := String → Position → EStateM Diagnostic (Arena × σ) NodeId

/-- The state of a reading. `σ` is what the host of the reading keeps. -/
structure Reading (σ : Type) where
  /-- The tokens not yet taken. -/
  feed : Feed
  /-- The comments that no node has claimed, oldest first. -/
  comments : List Comment
  /-- The attributes that wait for their node, oldest first. -/
  attrs : List NodeId
  arena : Arena
  host : σ

/-- What does not change during a reading. -/
structure ReadingContext (σ : Type) where
  script : NodeId
  /-- The file that positions name. -/
  file : String
  /-- The name of the package of the script. -/
  package : String
  /-- A bound on the rounds of every loop. -/
  budget : Nat
  importer : Importer σ

/-- A step of a reading, which fails with a diagnostic. -/
abbrev Parse (σ : Type) := EStateM Diagnostic (Reading σ)

namespace Parse

variable {σ α : Type}

/-! ## Steps on the arena -/

/-- Runs an operation on the arena. -/
@[inline] def build (operation : Arena → α × Arena) : Parse σ α :=
  fun ⟨feed, comments, attrs, arena, host⟩ =>
    let (value, arena) := operation arena
    .ok value ⟨feed, comments, attrs, arena, host⟩

/-- Changes the arena. -/
@[inline] def change (operation : Arena → Arena) : Parse σ Unit :=
  build fun arena => ((), operation arena)

/-- Reads from the arena. -/
@[inline] def inspect (query : Arena → α) : Parse σ α :=
  fun reading => .ok (query reading.arena) reading

/-- Fails at a position. -/
def failAt (position : Position) (cause : Cause) : Parse σ α :=
  throw ⟨cause, position⟩

/-- Runs an operation with a rule of uniqueness. A name that is taken is a failure at `position`,
which names the place of the node that has it. -/
def buildUnique (what : Duplicate) (name : String) (position : Position)
    (operation : Arena → Except NodeId α × Arena) : Parse σ α := do
  match ← build operation with
  | .ok value => pure value
  | .error existing =>
    let first ← inspect fun arena => arena.position existing
    failAt position (.duplicate what name first)

/-! ## Tokens -/

/-- Looks at the next token. The comments before it start to wait. -/
def peek : Parse σ Token :=
  fun ⟨feed, comments, attrs, arena, host⟩ =>
    match feed with
    | .more [] token rest => .ok token ⟨.more [] token rest, comments, attrs, arena, host⟩
    | .more leading token rest =>
      .ok token ⟨.more [] token rest, comments ++ leading, attrs, arena, host⟩
    | .done leading position =>
      .ok ⟨.eof, position⟩ ⟨.done [] position, comments ++ leading, attrs, arena, host⟩
    | .broken failure => .error failure ⟨.broken failure, comments, attrs, arena, host⟩

/-- Drops the token that was looked at. The end of the file stays. -/
def advance : Parse σ Unit :=
  fun ⟨feed, comments, attrs, arena, host⟩ =>
    match feed with
    | .more _ _ rest => .ok () ⟨rest, comments, attrs, arena, host⟩
    | feed => .ok () ⟨feed, comments, attrs, arena, host⟩

/-- Takes the next token. -/
def next : Parse σ Token := do
  let token ← peek
  advance
  pure token

/-- Whether the next token is the character. -/
def nextIs (c : Char) : Parse σ Bool := do
  let token ← peek
  pure (token.kind == .char c)

/-- Takes the character if it is the next token. -/
def matchChar (c : Char) : Parse σ Bool := do
  if ← nextIs c then
    advance
    pure true
  else pure false

/-- The failure of a token that should have been something else. -/
def unexpected (token : Token) (expected : String) : Parse σ α :=
  failAt token.position (.unexpectedToken expected token.kind.describe)

/-- Takes the character. -/
def expectChar (c : Char) : Parse σ Unit := do
  let token ← next
  if token.kind == .char c then pure ()
  else unexpected token ("`" ++ String.singleton c ++ "`")

/-- Takes a name. -/
def expectIdent (what : String) : Parse σ (String × Position) := do
  let token ← next
  match token.kind with
  | .ident name => pure (name, token.position)
  | _ => unexpected token what

/-- Takes a string. -/
def expectString (what : String) : Parse σ (String × Position) := do
  let token ← next
  match token.kind with
  | .string value => pure (value, token.position)
  | _ => unexpected token what

/-- Whether the next token is a name. -/
def nextIsIdent : Parse σ Bool := do
  let token ← peek
  match token.kind with
  | .ident _ => pure true
  | _ => pure false

/-! ## Loops -/

/-- Repeats a step until it says no, at most `fuel` times. -/
@[specialize] def repeatWhile (step : Parse σ Bool) : Nat → Parse σ Unit
  | 0 => pure ()
  | fuel + 1 => do
    if ← step then repeatWhile step fuel else pure ()

/-! ## Comments -/

/-- Takes from the waiting comments, newest first, those on the anchor line or the line above it;
the anchor moves up to each comment taken. Both results are oldest first. -/
def claim (anchor : UInt32) (comments : List Comment) : List Comment × List Comment :=
  let (_, claimed, left) := comments.reverse.foldl
    (fun (anchor, claimed, left) comment =>
      let line := comment.position.line
      if line = anchor ∨ line + 1 = anchor then (line, comment :: claimed, left)
      else (anchor, claimed, comment :: left))
    (anchor, [], [])
  (claimed, left)

/-- Binds the waiting comments that lead or trail a node, those after its last token included. -/
def attachComments (node : NodeId) : Parse σ Unit := do
  let _ ← peek
  fun ⟨feed, comments, attrs, arena, host⟩ =>
    let (claimed, left) := claim (arena.position node).line comments
    .ok () ⟨feed, left, attrs, arena.bindComments node claimed, host⟩

/-- Binds all waiting comments to a node. -/
def attachAllComments (node : NodeId) : Parse σ Unit :=
  fun ⟨feed, comments, attrs, arena, host⟩ =>
    .ok () ⟨feed, [], attrs, arena.bindComments node comments, host⟩

/-! ## Attributes -/

/-- Makes an attribute wait for its node. -/
def holdAttr (attr : NodeId) : Parse σ Unit :=
  fun ⟨feed, comments, attrs, arena, host⟩ =>
    .ok () ⟨feed, comments, attrs ++ [attr], arena, host⟩

/-- Puts all waiting attributes on a node. -/
def attachAttrs (node : NodeId) : Parse σ Unit :=
  fun ⟨feed, comments, attrs, arena, host⟩ =>
    let arena := attrs.foldl (fun arena attr => arena.addAttr node attr) arena
    .ok () ⟨feed, comments, [], arena, host⟩

/-! ## Imports -/

/-- Has the host answer an import. -/
def importPackage (cx : ReadingContext σ) (path : String) (position : Position) :
    Parse σ NodeId :=
  fun ⟨feed, comments, attrs, arena, host⟩ =>
    match cx.importer path position (arena, host) with
    | .ok package (arena, host) => .ok package ⟨feed, comments, attrs, arena, host⟩
    | .error failure (arena, host) => .error failure ⟨feed, comments, attrs, arena, host⟩

end Parse

end SchemaLang
