import SchemaLang.Token.Scan

/-!
# Reading tokens

A lexer stands at a place of a file and gives one token after the other, with one token of
lookahead. Columns count characters; a line feed starts a new line. Both counters wrap around. At
the end of the input the lexer gives `eof` as often as it is asked. After a failure it stands behind
the characters that the failed scan took, and may be asked again.
-/

namespace SchemaLang

open Text

/-- A line and a column, both counted from one in 32 bits. -/
structure Coordinate where
  line : UInt32
  column : UInt32
  deriving DecidableEq, Repr

namespace Coordinate

/-- Where a file starts. -/
def start : Coordinate := ⟨1, 1⟩

/-- The place after one character. -/
def step (here : Coordinate) (c : Char) : Coordinate :=
  if c == '\n' then ⟨here.line + 1, 1⟩ else ⟨here.line, here.column + 1⟩

/-- The place after some characters. -/
def after (here : Coordinate) (chars : List Char) : Coordinate :=
  chars.foldl step here

def position (here : Coordinate) (file : String) : Position :=
  ⟨file, here.line, here.column⟩

theorem after_append (here : Coordinate) (xs ys : List Char) :
    here.after (xs ++ ys) = (here.after xs).after ys := by
  simp [after]

/-- Passes over the blanks from an index on, and gives the index behind them and its place. -/
def passBlanks (bytes : ByteArray) (index : Nat) (line column : UInt32) : Nat × Coordinate :=
  if h : index < bytes.size then
    let byte := bytes[index]
    if byte == 0x20 || byte == 0x09 || byte == 0x0D then
      passBlanks bytes (index + 1) line (column + 1)
    else if byte == 0x0A then passBlanks bytes (index + 1) (line + 1) 1
    else (index, ⟨line, column⟩)
  else (index, ⟨line, column⟩)
termination_by bytes.size - index

end Coordinate

/-- A place in a file, with the token already looked at. -/
structure Lexer where
  file : String
  rest : List Char
  /-- Whether the rest ends where the file ends. -/
  intact : Bool
  coordinate : Coordinate
  lookahead : Option Token
  deriving Repr

namespace Lexer

/-- A lexer at the start of a file. -/
def ofSource (file : String) (source : Source) : Lexer :=
  ⟨file, source.chars, source.intact, .start, none⟩

/-- A lexer at the start of a file that is not decoded yet. It passes over the blanks that the file
starts with before it decodes. -/
def ofBytes (file : String) (bytes : ByteArray) : Lexer :=
  let (index, here) := Coordinate.passBlanks bytes 0 1 1
  let source := Source.ofBytes (bytes.extract index bytes.size)
  ⟨file, source.chars, source.intact, here, none⟩

/-- Reads the next token from the text, past the lookahead. -/
def scan (lexer : Lexer) : Except Diagnostic Token × Lexer :=
  let start := lexer.coordinate.after (lexer.rest.takeWhile isBlank)
  match lexer.rest.dropWhile isBlank with
  | [] =>
    let stopped := { lexer with rest := [], coordinate := start }
    if lexer.intact then (.ok ⟨.eof, start.position lexer.file⟩, stopped)
    else (.error ⟨.illegalUtf8, start.position lexer.file⟩, stopped)
  | c :: rest =>
    let scan := Scan.token lexer.intact c rest
    let moved := { lexer with rest := scan.rest, coordinate := start.after scan.lexeme }
    match scan.result with
    | .ok kind => (.ok ⟨kind, start.position lexer.file⟩, moved)
    | .error flaw => (.error ⟨flaw.cause, (start.after flaw.before).position lexer.file⟩, moved)

/-- Takes the next token. -/
def next (lexer : Lexer) : Except Diagnostic Token × Lexer :=
  match lexer.lookahead with
  | some token => (.ok token, { lexer with lookahead := none })
  | none => lexer.scan

/-- Looks at the next token without taking it. -/
def peek (lexer : Lexer) : Except Diagnostic Token × Lexer :=
  match lexer.next with
  | (.ok token, lexer) => (.ok token, { lexer with lookahead := some token })
  | (.error failure, lexer) => (.error failure, lexer)

end Lexer

/-- What reading a file to its end gives: the tokens, of which the last is `eof`, or the tokens
before a failure and the failure. -/
structure Lexing where
  tokens : List Token
  failure : Option Diagnostic
  deriving Repr

namespace Lexing

/-- Reads at most `fuel` tokens onto those already read, newest first. -/
def read : Nat → Lexer → List Token → Lexing
  | 0, _, done => ⟨done.reverse, none⟩
  | fuel + 1, lexer, done =>
    match lexer.next with
    | (.ok token, lexer) =>
      if token.kind = .eof then ⟨(token :: done).reverse, none⟩
      else read fuel lexer (token :: done)
    | (.error failure, _) => ⟨done.reverse, some failure⟩

/-- Reads from the lexer to the end. Every token but the last takes a character, or was already
looked at, so the length of the text bounds their number. -/
def ofLexer (lexer : Lexer) : Lexing :=
  read (lexer.rest.length + 2) lexer []

/-- Reads a file to its end. -/
def ofSource (file : String) (source : Source) : Lexing :=
  ofLexer (.ofSource file source)

/-- Reads the bytes of a file to the end. -/
def ofBytes (file : String) (bytes : ByteArray) : Lexing :=
  ofLexer (.ofBytes file bytes)

/-- The tokens of a file without lexical failure. -/
def complete (lexing : Lexing) : Except Diagnostic (List Token) :=
  match lexing.failure with
  | none => .ok lexing.tokens
  | some failure => .error failure

end Lexing

end SchemaLang
