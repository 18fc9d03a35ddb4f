import SchemaLang.Text.LetterRanges

/-!
# Classes of characters

Blanks separate tokens. A word starts with a letter or an underscore and goes on with letters,
numbers and underscores; letters and numbers of every alphabet count. ASCII characters are decided
without the tables.
-/

namespace SchemaLang.Text

/-- Whether a code point lies in one of the closed ranges. -/
def within (ranges : List (Nat × Nat)) (code : Nat) : Bool :=
  ranges.any fun range => decide (range.1 ≤ code) && decide (code ≤ range.2)

/-- Tab, line feed, carriage return and space separate tokens. -/
def isBlank (c : Char) : Bool :=
  c == '\t' || c == '\n' || c == '\r' || c == ' '

/-- Letters of any alphabet. -/
def isLetter (c : Char) : Bool :=
  if c.toNat < 128 then c.isAlpha else within letterRanges c.toNat

/-- Digits and other numbers of any alphabet. -/
def isNumeric (c : Char) : Bool :=
  if c.toNat < 128 then c.isDigit else within numberRanges c.toNat

/-- The characters that start a word. -/
def isWordStart (c : Char) : Bool :=
  isLetter c || c == '_'

/-- The characters that continue a word. -/
def isWordPart (c : Char) : Bool :=
  isLetter c || isNumeric c || c == '_'

/-- The sixteen digits of base sixteen, in either case. -/
def isHexDigit (c : Char) : Bool :=
  c.isDigit || (decide ('a' ≤ c) && decide (c ≤ 'f')) || (decide ('A' ≤ c) && decide (c ≤ 'F'))

theorem isWordPart_of_isWordStart {c : Char} (h : isWordStart c = true) : isWordPart c = true := by
  simp only [isWordStart, isWordPart, Bool.or_eq_true] at *
  rcases h with h | h <;> simp [h]

end SchemaLang.Text
