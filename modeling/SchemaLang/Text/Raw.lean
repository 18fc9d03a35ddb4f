import SchemaLang.Text.Utf8
import Std.Data.TreeMap

/-!
# Texts of the system

Names of files and directories come from the system as bytes, which need not be UTF-8. They are
compared and ordered by their bytes. To be shown they are decoded: what starts a character and does
not go on with it is shown as one replacement character, and so is a byte that starts none. So two
names can be shown alike.
-/

namespace SchemaLang

/-- A text of the system. -/
@[ext]
structure RawText where
  bytes : List UInt8
  deriving DecidableEq, Repr

namespace RawText

/-- The bytes of a text. -/
def ofString (text : String) : RawText :=
  ⟨text.toByteArray.data.toList⟩

instance : Coe String RawText := ⟨ofString⟩

instance : Ord RawText := ⟨fun text other => compare text.bytes other.bytes⟩

instance : Std.TransOrd RawText where
  eq_swap {text other} :=
    show compare text.bytes other.bytes = (compare other.bytes text.bytes).swap from
      Std.OrientedCmp.eq_swap
  isLE_trans {text _ last} h h' :=
    show (compare text.bytes last.bytes).isLE from Std.TransCmp.isLE_trans h h'

instance : Std.LawfulEqOrd RawText where
  compare_self {text} := show compare text.bytes text.bytes = .eq from Std.ReflCmp.compare_self
  eq_of_compare h := RawText.ext (Std.LawfulEqCmp.eq_of_compare h)

def empty : RawText := ⟨[]⟩

def isEmpty (text : RawText) : Bool :=
  text.bytes.isEmpty

instance : Append RawText := ⟨fun text other => ⟨text.bytes ++ other.bytes⟩⟩

@[simp] theorem bytes_append (text other : RawText) :
    (text ++ other).bytes = text.bytes ++ other.bytes := rfl

/-- What stands for bytes that are no character. -/
def replacement : Char := '\uFFFD'

/-- Whether a character of three or four bytes starts with the two. -/
def opens (a b : UInt8) : Bool :=
  (Text.triple? a b 0x80).isSome || (Text.quadruple? a b 0x80 0x80).isSome

/-- Whether a character of four bytes starts with the three. -/
def goesOn (a b c : UInt8) : Bool :=
  (Text.quadruple? a b c 0x80).isSome

/-- Decodes bytes onto the characters already read, newest first. -/
def showOnto (done : List Char) : List UInt8 → List Char
  | [] => done.reverse
  | a :: rest₁ =>
    if a < 0x80 then showOnto (Char.ofNat a.toNat :: done) rest₁
    else match rest₁ with
      | [] => (replacement :: done).reverse
      | b :: rest₂ =>
        match Text.pair? a b with
        | some char => showOnto (char :: done) rest₂
        | none =>
          if !opens a b then showOnto (replacement :: done) (b :: rest₂)
          else match rest₂ with
            | [] => (replacement :: done).reverse
            | c :: rest₃ =>
              match Text.triple? a b c with
              | some char => showOnto (char :: done) rest₃
              | none =>
                if !goesOn a b c then showOnto (replacement :: done) (c :: rest₃)
                else match rest₃ with
                  | [] => (replacement :: done).reverse
                  | d :: rest₄ =>
                    match Text.quadruple? a b c d with
                    | some char => showOnto (char :: done) rest₄
                    | none => showOnto (replacement :: done) (d :: rest₄)

/-- The text for people. -/
def shown (text : RawText) : String :=
  String.ofList (showOnto [] text.bytes)

end RawText

end SchemaLang
