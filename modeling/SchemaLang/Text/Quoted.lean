import SchemaLang.Text.Class
import SchemaLang.Text.PrintableRanges

/-!
# Quoted text

Text is shown between double quotes. Quotes and backslashes are escaped, the common control
characters have escapes of one letter, and every other character that does not show by itself is
written by its code point in base sixteen.
-/

namespace SchemaLang.Text

/-- Characters that take room on a line. -/
def isPrintable (c : Char) : Bool :=
  if c.toNat < 128 then decide (0x20 ≤ c.toNat) && decide (c.toNat < 0x7F)
  else within printableRanges c.toNat

/-- Characters that attach to the one before them. -/
def isExtender (c : Char) : Bool :=
  if c.toNat < 128 then false else within extenderRanges c.toNat

/-- The escape of a character by its code point. -/
def codeEscape (c : Char) : String :=
  "\\u\x7b" ++ String.ofList (Nat.toDigits 16 c.toNat) ++ "\x7d"

/-- A character as it stands in quoted text. -/
def quotedChar (c : Char) : String :=
  if c == '"' then "\\\""
  else if c == '\\' then "\\\\"
  else if c == '\n' then "\\n"
  else if c == '\r' then "\\r"
  else if c == '\t' then "\\t"
  else if c == '\x00' then "\\0"
  else if isExtender c || !isPrintable c then codeEscape c
  else String.singleton c

/-- The text between double quotes, with escapes. -/
def quoted (text : String) : String :=
  "\"" ++ String.join (text.toList.map quotedChar) ++ "\""

end SchemaLang.Text
