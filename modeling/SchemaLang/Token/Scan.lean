import SchemaLang.Diagnostic
import SchemaLang.Text.Utf8
import SchemaLang.Token

/-!
# Scanning one token

A scan takes the characters of one token from the front of a text that does not start with a blank.
It says which characters it took, also when it fails: a reader that goes on after a failure starts
behind them.

A text that is not intact is followed by bytes that are no character. Looking at the character after
the text is then a failure by itself, wherever the scan stands.
-/

namespace SchemaLang

open Text

/-- A lexical failure, with the characters of the token before the place it is reported at. -/
structure ScanFlaw where
  cause : Cause
  before : List Char
  deriving DecidableEq, Repr

/-- What scanning one token gives. -/
structure Scan where
  /-- The characters taken. -/
  lexeme : List Char
  /-- The characters after them. -/
  rest : List Char
  result : Except ScanFlaw TokenKind

namespace Scan

/-- A scan that succeeds. -/
def accept (kind : TokenKind) (lexeme rest : List Char) : Scan :=
  ⟨lexeme, rest, .ok kind⟩

/-- A scan that fails, reported at the start of the token. -/
def fail (cause : Cause) (lexeme rest : List Char) : Scan :=
  ⟨lexeme, rest, .error ⟨cause, []⟩⟩

/-- A scan that runs into bytes that are no character, reported there. -/
def undecodable (lexeme : List Char) : Scan :=
  ⟨lexeme, [], .error ⟨.illegalUtf8, lexeme⟩⟩

/-- Goes on with the scan after looking at the next character, which fails in front of bytes that
are no character. -/
def peeked (intact : Bool) (lexeme rest : List Char) (next : Scan) : Scan :=
  if rest.isEmpty && !intact then undecodable lexeme else next

/-! ## Words -/

/-- A word, or a name with the colon after it. -/
def word (intact : Bool) (chars : List Char) : Scan :=
  let lexeme := chars.takeWhile isWordPart
  let rest := chars.dropWhile isWordPart
  peeked intact lexeme rest <|
    match TokenKind.ofWord (String.ofList lexeme), rest with
    | .ident name, ':' :: rest => accept (.label name) (lexeme ++ [':']) rest
    | kind, rest => accept kind lexeme rest

/-! ## Numbers -/

/-- The value of a hexadecimal digit of either case. -/
def digitValue (c : Char) : Nat :=
  if c.isDigit then c.toNat - '0'.toNat
  else if 'a' ≤ c then c.toNat - 'a'.toNat + 10
  else c.toNat - 'A'.toNat + 10

/-- The number that digits denote. -/
def digitsValue (base : Nat) (digits : List Char) : Nat :=
  digits.foldl (fun value digit => value * base + digitValue digit) 0

/-- A numeric literal in its parts. -/
inductive Numeral where
  /-- The mark `0x` or `0X` and hexadecimal digits. -/
  | hex (mark : Char) (digits : List Char)
  /-- Decimal digits, with the characters after a point and the sign and digits after an exponent
  mark where those are written. -/
  | decimal (whole : List Char) (fraction : Option (List Char))
      (exponent : Option (Char × List Char × List Char))
  deriving DecidableEq, Repr

namespace Numeral

/-- The characters of the literal. -/
def lexeme : Numeral → List Char
  | hex mark digits => '0' :: mark :: digits
  | decimal whole fraction exponent =>
    whole
      ++ (match fraction with
        | some digits => '.' :: digits
        | none => [])
      ++ (match exponent with
        | some (mark, sign, digits) => mark :: (sign ++ digits)
        | none => [])

/-- A point and the digits after it. -/
def splitFraction : List Char → Option (List Char) × List Char
  | '.' :: rest => (some (rest.takeWhile Char.isDigit), rest.dropWhile Char.isDigit)
  | rest => (none, rest)

/-- A sign. -/
def splitSign : List Char → List Char × List Char
  | '+' :: rest => (['+'], rest)
  | '-' :: rest => (['-'], rest)
  | rest => ([], rest)

/-- An exponent mark, a sign and digits. -/
def splitExponent : List Char → Option (Char × List Char × List Char) × List Char
  | mark :: rest =>
    if mark == 'e' || mark == 'E' then
      let (sign, rest) := splitSign rest
      (some (mark, sign, rest.takeWhile Char.isDigit), rest.dropWhile Char.isDigit)
    else (none, mark :: rest)
  | [] => (none, [])

/-- The longest numeral at the front of the text, which starts with a digit. -/
def split (chars : List Char) : Numeral × List Char :=
  let plain : Numeral × List Char :=
    let whole := chars.takeWhile Char.isDigit
    let (fraction, rest) := splitFraction (chars.dropWhile Char.isDigit)
    let (exponent, rest) := splitExponent rest
    (.decimal whole fraction exponent, rest)
  match chars with
  | '0' :: mark :: rest =>
    if mark == 'x' || mark == 'X' then
      (.hex mark (rest.takeWhile isHexDigit), rest.dropWhile isHexDigit)
    else plain
  | _ => plain

/-- An integer literal denotes its value up to `2 ^ 63 - 1`. -/
def intKind? (value : Nat) : Option TokenKind :=
  if value < 0x8000000000000000 then some (.int (Int64.ofNat value)) else none

/-- The size of an exponent. Digits count until the size reaches `0x10000`, which is beyond every
finite number for the digits of a short literal; the digits after that are read over. -/
def exponentSize (digits : List Char) : Nat :=
  digits.foldl (fun size digit =>
    if size < 0x10000 then size * 10 + digitValue digit else size) 0

/-- The token of a numeral. Integers must fit, hexadecimal marks and exponents need a digit. -/
def kind? : Numeral → Option TokenKind
  | hex _ digits => if digits.isEmpty then none else intKind? (digitsValue 16 digits)
  | decimal whole none none => intKind? (digitsValue 10 whole)
  | decimal whole fraction exponent =>
    let places := fraction.getD []
    let shift : Option Int :=
      match exponent with
      | none => some 0
      | some (_, sign, digits) =>
        if digits.isEmpty then none
        else if sign = ['-'] then some (-(exponentSize digits : Int))
        else some (exponentSize digits)
    shift.map fun e =>
      .float (Binary64.nearest (digitsValue 10 (whole ++ places)) (e - places.length))

end Numeral

/-- A numeric literal. -/
def number (intact : Bool) (chars : List Char) : Scan :=
  let (numeral, rest) := Numeral.split chars
  let lexeme := numeral.lexeme
  peeked intact lexeme rest <|
    match numeral.kind? with
    | some kind => accept kind lexeme rest
    | none => fail (.malformedNumber (String.ofList lexeme)) lexeme rest

/-! ## Strings and comments -/

/-- The inside of a string, from the characters taken so far and the value so far, both newest
first. A string ends on its line; its quote is the only character that may be escaped. -/
def stringBody (intact : Bool) (quote : Char) (taken value : List Char) : List Char → Scan
  | [] =>
    if intact then fail .unterminatedString taken.reverse [] else undecodable taken.reverse
  | c :: rest =>
    if c == '\n' then fail .unterminatedString (c :: taken).reverse rest
    else if c == '\\' then
      match rest with
      | [] =>
        if intact then fail .unterminatedString (c :: taken).reverse []
        else undecodable (c :: taken).reverse
      | d :: rest =>
        if d == quote then stringBody intact quote (d :: c :: taken) (d :: value) rest
        else if d == '\n' then fail .unterminatedString (d :: c :: taken).reverse rest
        else ⟨(d :: c :: taken).reverse, rest, .error ⟨.illegalEscape d, taken.reverse⟩⟩
    else if c == quote then
      accept (.string (String.ofList value.reverse)) (c :: taken).reverse rest
    else stringBody intact quote (c :: taken) (c :: value) rest

/-- A comment up to the end of its line. -/
def lineComment (intact : Bool) (chars : List Char) : Scan :=
  let text := chars.takeWhile (· != '\n')
  let rest := chars.dropWhile (· != '\n')
  let lexeme := '/' :: '/' :: text
  peeked intact lexeme rest (accept (.comment (String.ofList text)) lexeme rest)

/-- The inside of a delimited comment, from the characters of its text so far, newest first. -/
def blockBody (intact : Bool) (text : List Char) : List Char → Scan
  | [] =>
    let lexeme := '/' :: '*' :: text.reverse
    if intact then fail .unterminatedComment lexeme [] else undecodable lexeme
  | '*' :: '/' :: rest =>
    accept (.comment (String.ofList text.reverse)) ('/' :: '*' :: (text.reverse ++ ['*', '/'])) rest
  | c :: rest => blockBody intact (c :: text) rest

/-- A comment, or a slash. -/
def slash (intact : Bool) : List Char → Scan
  | '/' :: rest => lineComment intact rest
  | '*' :: rest => blockBody intact [] rest
  | rest => peeked intact ['/'] rest (accept (.char '/') ['/'] rest)

/-- An arrow, or a minus sign. -/
def dash (intact : Bool) : List Char → Scan
  | '>' :: rest => accept .arrow ['-', '>'] rest
  | rest => peeked intact ['-'] rest (accept (.char '-') ['-'] rest)

/-! ## Dispatch -/

/-- The token that starts with the character `c`, which is no blank. -/
def token (intact : Bool) (c : Char) (rest : List Char) : Scan :=
  if isWordStart c then word intact (c :: rest)
  else if c.isDigit then number intact (c :: rest)
  else if c == '"' || c == '\'' then stringBody intact c [c] [] rest
  else if c == '/' then slash intact rest
  else if c == '-' then dash intact rest
  else accept (.char c) [c] rest

end Scan

end SchemaLang
