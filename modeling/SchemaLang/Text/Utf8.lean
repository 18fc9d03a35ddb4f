/-!
# Reading UTF-8

Source files are bytes. Reading decodes them from the front: it ends at the end of the bytes, or at
the first byte that starts no well-formed character. Nothing after such a byte is ever reached, so
what a reader can see of a file is a list of characters and whether the list is the whole of it.

A sequence is well formed when it is the shortest one for its code point and the code point is that
of a character; surrogates and values above `U+10FFFF` are not.
-/

namespace SchemaLang.Text

/-- What can be read of a file: the characters before its end, or before the first byte that starts
no character. -/
structure Source where
  chars : List Char
  /-- Whether the characters are the whole file. -/
  intact : Bool
  deriving DecidableEq, Repr

/-- The payload of a continuation byte `10xxxxxx`. -/
def continuation? (byte : UInt8) : Option Nat :=
  if 0x80 ≤ byte && byte ≤ 0xBF then some (byte.toNat - 0x80) else none

/-- The character with the given code point, if it is a character and needs the length at hand:
the code point is at least `least`. -/
def scalar? (least code : Nat) : Option Char :=
  if least ≤ code ∧ code.isValidChar then some (Char.ofNat code) else none

/-- A character of two bytes. -/
def pair? (a b : UInt8) : Option Char := do
  guard (0xC2 ≤ a && a ≤ 0xDF)
  let y ← continuation? b
  scalar? 0x80 ((a.toNat - 0xC0) * 64 + y)

/-- A character of three bytes. -/
def triple? (a b c : UInt8) : Option Char := do
  guard (0xE0 ≤ a && a ≤ 0xEF)
  let y ← continuation? b
  let z ← continuation? c
  scalar? 0x800 (((a.toNat - 0xE0) * 64 + y) * 64 + z)

/-- A character of four bytes. -/
def quadruple? (a b c d : UInt8) : Option Char := do
  guard (0xF0 ≤ a && a ≤ 0xF4)
  let y ← continuation? b
  let z ← continuation? c
  let w ← continuation? d
  scalar? 0x10000 ((((a.toNat - 0xF0) * 64 + y) * 64 + z) * 64 + w)

/-- Decodes bytes onto the characters already read, newest first. -/
def decodeOnto (done : List Char) : List UInt8 → Source
  | [] => ⟨done.reverse, true⟩
  | a :: rest₁ =>
    if a < 0x80 then decodeOnto (Char.ofNat a.toNat :: done) rest₁
    else match rest₁ with
      | [] => ⟨done.reverse, false⟩
      | b :: rest₂ =>
        match pair? a b with
        | some char => decodeOnto (char :: done) rest₂
        | none =>
          match rest₂ with
          | [] => ⟨done.reverse, false⟩
          | c :: rest₃ =>
            match triple? a b c with
            | some char => decodeOnto (char :: done) rest₃
            | none =>
              match rest₃ with
              | [] => ⟨done.reverse, false⟩
              | d :: rest₄ =>
                match quadruple? a b c d with
                | some char => decodeOnto (char :: done) rest₄
                | none => ⟨done.reverse, false⟩

/-- What can be read of a file. -/
def Source.ofBytes (bytes : ByteArray) : Source :=
  decodeOnto [] bytes.data.toList

end SchemaLang.Text
