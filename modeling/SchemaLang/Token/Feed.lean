import SchemaLang.Token.Lexer

/-!
# Significant tokens

The grammar never sees comments. A feed is what it reads instead: the other tokens, each with the
comments written before it, up to the end of the file or a lexical failure. Tokens are read whether
the grammar needs them or not; a failure shows only to a reader that gets to it.
-/

namespace SchemaLang

/-- The significant tokens of a file, each with the comments before it. -/
inductive Feed where
  /-- A token before the end. -/
  | more (leading : List Comment) (token : Token) (rest : Feed)
  /-- The end of the file. -/
  | done (leading : List Comment) (position : Position)
  /-- A lexical failure. -/
  | broken (failure : Diagnostic)
  deriving Repr

namespace Feed

/-- Puts a comment in front. A comment before a failure is never asked for. -/
def precede (comment : Comment) : Feed → Feed
  | more leading token rest => more (comment :: leading) token rest
  | done leading position => done (comment :: leading) position
  | broken failure => broken failure

/-- Puts a token in front. -/
def push (token : Token) (feed : Feed) : Feed :=
  match token.kind with
  | .comment text => feed.precede ⟨text, token.position⟩
  | .eof => done [] token.position
  | _ => more [] token feed

/-- The feed of a file that was read. -/
def ofLexing (lexing : Lexing) : Feed :=
  let last :=
    match lexing.failure with
    | some failure => broken failure
    | none => done [] .unknown
  lexing.tokens.foldr push last

/-- The number of tokens before the end, counted onto `count`. -/
def sizeOnto (count : Nat) : Feed → Nat
  | more _ _ rest => sizeOnto (count + 1) rest
  | _ => count

/-- The number of tokens before the end. -/
def size (feed : Feed) : Nat :=
  feed.sizeOnto 0

end Feed

end SchemaLang
