import SchemaLang.Proofs.Text.Encoding
import SchemaLang.Text.Raw

/-!
# Unicode texts of the system

The characters of a Unicode text are decoded one after the other, and none is replaced. So it is shown
as it is (`RawText.shown_ofString`), and Unicode texts that are shown alike are the same
(`RawText.IsUnicode.eq_of_shown`). That fails where one of them is not Unicode.
-/

namespace SchemaLang.RawText

open Text

variable {a b c d : UInt8} {x : Char}

/-! ## Characters that are started -/

theorem exists_toNat_eq (code : Nat) (h : code.isValidChar) : ∃ y : Char, y.toNat = code :=
  ⟨.ofNat code, by rw [Char.ofNat, dif_pos h]; rfl⟩

theorem toNat_padding : (0x80 : UInt8).toNat = 128 := rfl

theorem valid_cases (x : Char) : x.toNat < 0xD800 ∨ 0xDFFF < x.toNat ∧ x.toNat < 0x110000 :=
  x.valid

theorem opens_of_triple (h : String.utf8EncodeChar x = [a, b, c]) : opens a b = true := by
  have hbytes := encode_eq_triple_iff.1 h
  have hvalid := valid_cases x
  obtain ⟨y, hy⟩ := exists_toNat_eq (x.toNat / 64 * 64) (by unfold Nat.isValidChar; omega)
  have htriple : triple? a b 0x80 = some y :=
    triple?_eq_some_iff.2 (encode_eq_triple_iff.2 ⟨by omega, by omega, by omega, by
      rw [toNat_padding]; omega⟩)
  rw [opens, htriple]
  rfl

theorem opens_of_quadruple (h : String.utf8EncodeChar x = [a, b, c, d]) : opens a b = true := by
  have hbytes := encode_eq_quadruple_iff.1 h
  have hvalid := valid_cases x
  obtain ⟨y, hy⟩ := exists_toNat_eq (x.toNat / 4096 * 4096) (by unfold Nat.isValidChar; omega)
  have hquadruple : quadruple? a b 0x80 0x80 = some y :=
    quadruple?_eq_some_iff.2 (encode_eq_quadruple_iff.2 ⟨by omega, by omega, by omega, by
      rw [toNat_padding]; omega, by rw [toNat_padding]; omega⟩)
  rw [opens, hquadruple, Option.isSome_some, Bool.or_true]

theorem goesOn_of_quadruple (h : String.utf8EncodeChar x = [a, b, c, d]) :
    goesOn a b c = true := by
  have hbytes := encode_eq_quadruple_iff.1 h
  have hvalid := valid_cases x
  obtain ⟨y, hy⟩ := exists_toNat_eq (x.toNat / 64 * 64) (by unfold Nat.isValidChar; omega)
  have hquadruple : quadruple? a b c 0x80 = some y :=
    quadruple?_eq_some_iff.2 (encode_eq_quadruple_iff.2 ⟨by omega, by omega, by omega, by omega, by
      rw [toNat_padding]; omega⟩)
  rw [goesOn, hquadruple]
  rfl

/-! ## Unicode texts -/

/-- The encoding of a character is shown as the character, whatever follows. -/
theorem showOnto_encode (done : List Char) (x : Char) (rest : List UInt8) :
    showOnto done (String.utf8EncodeChar x ++ rest) = showOnto (x :: done) rest := by
  rcases encode_cases x with hx | ⟨a, b, hx⟩ | ⟨a, b, c, hx⟩ | ⟨a, b, c, d, hx⟩
  · have hbyte : (UInt8.ofNat x.toNat).toNat = x.toNat := by
      rw [UInt8.toNat_ofNat', Nat.mod_eq_of_lt (by omega)]
    rw [encode_of_lt hx, List.singleton_append, showOnto.eq_def]
    dsimp only
    rw [if_pos (by rw [UInt8.lt_iff_toNat_lt, hbyte]; exact hx), hbyte, Char.ofNat_toNat]
  · have hbytes := encode_eq_pair_iff.1 hx
    rw [hx, List.cons_append, showOnto.eq_def]
    dsimp only
    rw [if_neg (not_lt_of_le (by omega)), List.singleton_append]
    dsimp only
    rw [pair?_eq_some_iff.2 hx]
  · have hbytes := encode_eq_triple_iff.1 hx
    rw [hx, List.cons_append, showOnto.eq_def]
    dsimp only
    rw [if_neg (not_lt_of_le (by omega)), List.cons_append]
    dsimp only
    rw [pair?_eq_none (by omega), List.singleton_append, opens_of_triple hx]
    dsimp only
    rw [triple?_eq_some_iff.2 hx]
    rfl
  · have hbytes := encode_eq_quadruple_iff.1 hx
    rw [hx, List.cons_append, showOnto.eq_def]
    dsimp only
    rw [if_neg (not_lt_of_le (by omega)), List.cons_append]
    dsimp only
    rw [pair?_eq_none (by omega), List.cons_append, opens_of_quadruple hx]
    dsimp only
    rw [triple?_eq_none (by omega), List.singleton_append, goesOn_of_quadruple hx]
    dsimp only
    rw [quadruple?_eq_some_iff.2 hx]
    rfl

theorem showOnto_flatMap_encode (done chars : List Char) :
    showOnto done (chars.flatMap String.utf8EncodeChar) = done.reverse ++ chars := by
  induction chars generalizing done with
  | nil => rw [List.append_nil]; rfl
  | cons x chars ih =>
    rw [List.flatMap_cons, showOnto_encode, ih, List.reverse_cons, List.append_assoc,
      List.singleton_append]

theorem bytes_ofString (text : String) :
    (ofString text).bytes = text.toList.flatMap String.utf8EncodeChar := by
  unfold ofString
  rw [← String.utf8Encode_toList, List.utf8Encode, List.toList_data_toByteArray]

/-- A Unicode text is shown as it is. -/
@[simp] theorem shown_ofString (text : String) : (ofString text).shown = text := by
  unfold shown
  rw [bytes_ofString, showOnto_flatMap_encode, List.reverse_nil, List.nil_append,
    String.ofList_toList]

/-- The text is Unicode. -/
def IsUnicode (text : RawText) : Prop :=
  ∃ string, text = ofString string

theorem IsUnicode.eq_of_shown {text other : RawText} (h : text.IsUnicode) (h' : other.IsUnicode)
    (hshown : text.shown = other.shown) : text = other := by
  obtain ⟨string, rfl⟩ := h
  obtain ⟨string', rfl⟩ := h'
  rw [shown_ofString, shown_ofString] at hshown
  rw [hshown]

-- two bytes that are no characters are shown alike
example : (⟨[0xFE]⟩ : RawText).shown = (⟨[0xFF]⟩ : RawText).shown := by decide

end SchemaLang.RawText
