import Mathlib.Data.Option.Basic
import SchemaLang.Proofs.Token.Tiling

/-!
# Decoding is the inverse of encoding

A file is read one character at a time, by the lead byte of each. This accepts just what the encoding
of characters gives (`Text.pair?_eq_some_iff` and its companions, one for each length). So a file can be
read to its end exactly if the whole of it is well formed (`Text.Source.intact_ofBytes_iff`), and what
is read of it are the characters that it encodes (`Text.Source.ofBytes_utf8Encode`).

The lexer never passes over a byte that was not decoded. A file without lexical failure is therefore
well formed up to its end, and in a well-formed file no lexical failure is one of decoding
(`Lexing.isValidUTF8_of_complete`).
-/

namespace SchemaLang

namespace Text

/-! ## The encoding of a character -/

section

variable {a b c d : UInt8} {x : Char}

theorem toNat_lt (x : Char) : x.toNat < 0x110000 := by
  have hvalid : x.toNat < 0xD800 ∨ 0xDFFF < x.toNat ∧ x.toNat < 0x110000 := x.valid
  omega

theorem ofNat_eq_iff {value : Nat} (h : value < 256) : .ofNat value = a ↔ a.toNat = value := by
  rw [← UInt8.toNat_inj, UInt8.toNat_ofNat', Nat.mod_eq_of_lt h, eq_comm]

theorem encode_of_lt (h : x.toNat < 0x80) : String.utf8EncodeChar x = [.ofNat x.toNat] := by
  have hnat : x.val.toNat = x.toNat := rfl
  rw [String.utf8EncodeChar, hnat, if_pos (by omega)]

theorem encode_eq_pair_iff : String.utf8EncodeChar x = [a, b] ↔
    (0x80 ≤ x.toNat ∧ x.toNat < 0x800) ∧ a.toNat = 0xC0 + x.toNat / 64 ∧
      b.toNat = 0x80 + x.toNat % 64 := by
  have hnat : x.val.toNat = x.toNat := rfl
  simp only [String.utf8EncodeChar, hnat]
  split
  · simp; omega
  split
  · simp only [List.cons.injEq, and_true]
    rw [ofNat_eq_iff (by omega), ofNat_eq_iff (by omega)]
    omega
  split
  · simp; omega
  · simp; omega

theorem encode_eq_triple_iff : String.utf8EncodeChar x = [a, b, c] ↔
    (0x800 ≤ x.toNat ∧ x.toNat < 0x10000) ∧ a.toNat = 0xE0 + x.toNat / 4096 ∧
      b.toNat = 0x80 + x.toNat / 64 % 64 ∧ c.toNat = 0x80 + x.toNat % 64 := by
  have hnat : x.val.toNat = x.toNat := rfl
  simp only [String.utf8EncodeChar, hnat]
  split
  · simp; omega
  split
  · simp; omega
  split
  · simp only [List.cons.injEq, and_true]
    rw [ofNat_eq_iff (by omega), ofNat_eq_iff (by omega), ofNat_eq_iff (by omega)]
    omega
  · simp; omega

theorem encode_eq_quadruple_iff : String.utf8EncodeChar x = [a, b, c, d] ↔
    0x10000 ≤ x.toNat ∧ a.toNat = 0xF0 + x.toNat / 262144 ∧
      b.toNat = 0x80 + x.toNat / 4096 % 64 ∧ c.toNat = 0x80 + x.toNat / 64 % 64 ∧
      d.toNat = 0x80 + x.toNat % 64 := by
  have hnat : x.val.toNat = x.toNat := rfl
  have hlt := toNat_lt x
  simp only [String.utf8EncodeChar, hnat]
  split
  · simp; omega
  split
  · simp; omega
  split
  · simp; omega
  · simp only [List.cons.injEq, and_true]
    rw [ofNat_eq_iff (by omega), ofNat_eq_iff (by omega), ofNat_eq_iff (by omega),
      ofNat_eq_iff (by omega)]
    omega

/-! ## Decoding a character -/

theorem continuation?_eq_some_iff {payload : Nat} :
    continuation? a = some payload ↔ a.toNat = 0x80 + payload ∧ payload < 64 := by
  simp only [continuation?, Bool.and_eq_true, decide_eq_true_eq, UInt8.le_iff_toNat_le,
    UInt8.toNat_ofNat, Option.ite_none_right_eq_some, Option.some.injEq]
  omega

theorem scalar?_eq_some_iff {least code : Nat} :
    scalar? least code = some x ↔ least ≤ code ∧ x.toNat = code := by
  simp only [scalar?, Option.ite_none_right_eq_some, Option.some.injEq]
  constructor
  · rintro ⟨⟨hleast, hvalid⟩, rfl⟩
    refine ⟨hleast, ?_⟩
    rw [Char.ofNat, dif_pos hvalid]
    rfl
  · rintro ⟨hleast, rfl⟩
    exact ⟨⟨hleast, x.valid⟩, Char.ofNat_toNat x⟩

theorem pair?_eq_some_iff : pair? a b = some x ↔ String.utf8EncodeChar x = [a, b] := by
  simp only [pair?, Option.bind_eq_bind, Option.bind_eq_some_iff, Option.guard_eq_some',
    Bool.and_eq_true, decide_eq_true_eq, UInt8.le_iff_toNat_le, UInt8.toNat_ofNat, exists_const,
    continuation?_eq_some_iff, scalar?_eq_some_iff, encode_eq_pair_iff]
  constructor
  · rintro ⟨⟨hlow, hhigh⟩, y, ⟨hb, hy⟩, hleast, hx⟩
    omega
  · rintro ⟨hrange, ha, hb⟩
    exact ⟨by omega, x.toNat % 64, by omega, by omega⟩

theorem triple?_eq_some_iff : triple? a b c = some x ↔ String.utf8EncodeChar x = [a, b, c] := by
  simp only [triple?, Option.bind_eq_bind, Option.bind_eq_some_iff, Option.guard_eq_some',
    Bool.and_eq_true, decide_eq_true_eq, UInt8.le_iff_toNat_le, UInt8.toNat_ofNat, exists_const,
    continuation?_eq_some_iff, scalar?_eq_some_iff, encode_eq_triple_iff]
  constructor
  · rintro ⟨⟨hlow, hhigh⟩, y, ⟨hb, hy⟩, z, ⟨hc, hz⟩, hleast, hx⟩
    omega
  · rintro ⟨hrange, ha, hb, hc⟩
    exact ⟨by omega, x.toNat / 64 % 64, by omega, x.toNat % 64, by omega, by omega⟩

theorem quadruple?_eq_some_iff :
    quadruple? a b c d = some x ↔ String.utf8EncodeChar x = [a, b, c, d] := by
  have hlt := toNat_lt x
  simp only [quadruple?, Option.bind_eq_bind, Option.bind_eq_some_iff, Option.guard_eq_some',
    Bool.and_eq_true, decide_eq_true_eq, UInt8.le_iff_toNat_le, UInt8.toNat_ofNat, exists_const,
    continuation?_eq_some_iff, scalar?_eq_some_iff, encode_eq_quadruple_iff]
  constructor
  · rintro ⟨⟨hlow, hhigh⟩, y, ⟨hb, hy⟩, z, ⟨hc, hz⟩, w, ⟨hd, hw⟩, hleast, hx⟩
    omega
  · rintro ⟨hrange, ha, hb, hc, hd⟩
    exact ⟨by omega, x.toNat / 4096 % 64, by omega, x.toNat / 64 % 64, by omega, x.toNat % 64,
      by omega, by omega⟩

end

/-! ## Decoding a file -/

/-- A character is encoded in one to four bytes. -/
theorem encode_cases (x : Char) : x.toNat < 0x80 ∨ (∃ a b, String.utf8EncodeChar x = [a, b]) ∨
    (∃ a b c, String.utf8EncodeChar x = [a, b, c]) ∨
      ∃ a b c d, String.utf8EncodeChar x = [a, b, c, d] := by
  have hnat : x.val.toNat = x.toNat := rfl
  simp only [String.utf8EncodeChar, hnat]
  split
  · exact .inl (by omega)
  split
  · exact .inr (.inl ⟨_, _, rfl⟩)
  split
  · exact .inr (.inr (.inl ⟨_, _, _, rfl⟩))
  · exact .inr (.inr (.inr ⟨_, _, _, _, rfl⟩))

/-- What is not ASCII is encoded without the bytes of ASCII. -/
theorem le_of_mem_encode {x : Char} (h : 0x80 ≤ x.toNat) :
    ∀ byte ∈ String.utf8EncodeChar x, 0x80 ≤ byte.toNat := by
  rcases encode_cases x with hx | ⟨a, b, hx⟩ | ⟨a, b, c, hx⟩ | ⟨a, b, c, d, hx⟩
  · omega
  · have hbytes := encode_eq_pair_iff.1 hx
    rw [hx, List.forall_mem_cons, List.forall_mem_singleton]
    omega
  · have hbytes := encode_eq_triple_iff.1 hx
    rw [hx, List.forall_mem_cons, List.forall_mem_cons, List.forall_mem_singleton]
    omega
  · have hbytes := encode_eq_quadruple_iff.1 hx
    rw [hx, List.forall_mem_cons, List.forall_mem_cons, List.forall_mem_cons,
      List.forall_mem_singleton]
    omega

/-- No encoding starts with a shorter one. -/
theorem pair?_eq_none {a b : UInt8} (h : 0xE0 ≤ a.toNat) : pair? a b = none := by
  refine Option.eq_none_iff_forall_ne_some.2 fun y hy => ?_
  have hbytes := encode_eq_pair_iff.1 (pair?_eq_some_iff.1 hy)
  omega

theorem triple?_eq_none {a b c : UInt8} (h : 0xF0 ≤ a.toNat) : triple? a b c = none := by
  refine Option.eq_none_iff_forall_ne_some.2 fun y hy => ?_
  have hbytes := encode_eq_triple_iff.1 (triple?_eq_some_iff.1 hy)
  omega

theorem not_lt_of_le {a : UInt8} (h : 0x80 ≤ a.toNat) : ¬ a < 0x80 := by
  rw [UInt8.lt_iff_toNat_lt]
  exact Nat.not_lt.2 h

/-- What was already read stands before what is read. -/
theorem decodeOnto_append (done before : List Char) (bytes : List UInt8) :
    decodeOnto (done ++ before) bytes =
      ⟨before.reverse ++ (decodeOnto done bytes).chars, (decodeOnto done bytes).intact⟩ := by
  fun_induction decodeOnto done bytes with
  | case1 done => rw [decodeOnto, List.reverse_append]
  | case2 done a rest ha ih =>
    rw [List.cons_append] at ih
    rw [decodeOnto.eq_def]
    simp only [ha, if_true, ih]
  | case4 done a ha b rest x hx ih =>
    rw [List.cons_append] at ih
    rw [decodeOnto.eq_def]
    simp only [ha, if_false, hx, ih]
  | case6 done a ha b hpair c rest x hx ih =>
    rw [List.cons_append] at ih
    rw [decodeOnto.eq_def]
    simp only [ha, if_false, hpair, hx, ih]
  | case8 done a ha b hpair c htriple d rest x hx ih =>
    rw [List.cons_append] at ih
    rw [decodeOnto.eq_def]
    simp only [ha, if_false, hpair, htriple, hx, ih]
  | _ =>
    -- decoding ends here
    rw [decodeOnto.eq_def]
    simp [*]

/-- The encoding of a character is decoded to it, whatever follows. -/
theorem decodeOnto_encode (done : List Char) (x : Char) (rest : List UInt8) :
    decodeOnto done (String.utf8EncodeChar x ++ rest) = decodeOnto (x :: done) rest := by
  rcases encode_cases x with hx | ⟨a, b, hx⟩ | ⟨a, b, c, hx⟩ | ⟨a, b, c, d, hx⟩
  · have hbyte : (UInt8.ofNat x.toNat).toNat = x.toNat := by
      rw [UInt8.toNat_ofNat', Nat.mod_eq_of_lt (by omega)]
    rw [encode_of_lt hx, List.singleton_append, decodeOnto.eq_def]
    dsimp only
    rw [if_pos (by rw [UInt8.lt_iff_toNat_lt, hbyte]; exact hx), hbyte, Char.ofNat_toNat]
  · have hbytes := encode_eq_pair_iff.1 hx
    rw [hx, List.cons_append, decodeOnto.eq_def]
    dsimp only
    rw [if_neg (not_lt_of_le (by omega)), List.singleton_append]
    dsimp only
    rw [pair?_eq_some_iff.2 hx]
  · have hbytes := encode_eq_triple_iff.1 hx
    rw [hx, List.cons_append, decodeOnto.eq_def]
    dsimp only
    rw [if_neg (not_lt_of_le (by omega)), List.cons_append]
    dsimp only
    rw [pair?_eq_none (by omega), List.singleton_append]
    dsimp only
    rw [triple?_eq_some_iff.2 hx]
  · have hbytes := encode_eq_quadruple_iff.1 hx
    rw [hx, List.cons_append, decodeOnto.eq_def]
    dsimp only
    rw [if_neg (not_lt_of_le (by omega)), List.cons_append]
    dsimp only
    rw [pair?_eq_none (by omega), List.cons_append]
    dsimp only
    rw [triple?_eq_none (by omega), List.singleton_append]
    dsimp only
    rw [quadruple?_eq_some_iff.2 hx]

theorem decodeOnto_flatMap_encode (done chars : List Char) :
    decodeOnto done (chars.flatMap String.utf8EncodeChar) = ⟨done.reverse ++ chars, true⟩ := by
  induction chars generalizing done with
  | nil => rw [List.append_nil]; rfl
  | cons x chars ih =>
    rw [List.flatMap_cons, decodeOnto_encode, ih, List.reverse_cons, List.append_assoc,
      List.singleton_append]

/-- Behind the characters that were there before, the source has those that the front of the bytes encodes,
and where it is intact, those that all of them encode. -/
def Source.Decodes (source : Source) (done : List Char) (bytes : List UInt8) : Prop :=
  ∃ (chars : List Char) (tail : List UInt8), source.chars = done.reverse ++ chars ∧
    bytes = chars.flatMap String.utf8EncodeChar ++ tail ∧ (source.intact = true → tail = [])

theorem Source.Decodes.stop (done : List Char) (bytes : List UInt8) :
    Source.Decodes ⟨done.reverse, false⟩ done bytes :=
  ⟨[], bytes, (List.append_nil _).symm, rfl, nofun⟩

theorem Source.Decodes.cons {source : Source} {done : List Char} {x : Char} {rest : List UInt8}
    (h : source.Decodes (x :: done) rest) (taken : List UInt8)
    (hx : String.utf8EncodeChar x = taken) : source.Decodes done (taken ++ rest) := by
  obtain ⟨chars, tail, hchars, rfl, htail⟩ := h
  refine ⟨x :: chars, tail, ?_, ?_, htail⟩
  · rw [hchars, List.reverse_cons, List.append_assoc, List.singleton_append]
  · rw [List.flatMap_cons, hx, List.append_assoc]

/-- What is decoded is what the bytes encode, up to where decoding gets. -/
theorem decodes_decodeOnto (bytes : List UInt8) (done : List Char) :
    (decodeOnto done bytes).Decodes done bytes := by
  fun_induction decodeOnto done bytes with
  | case1 done => exact ⟨[], [], (List.append_nil _).symm, rfl, fun _ => rfl⟩
  | case2 done a rest ha ih =>
    have ha : a.toNat < 0x80 := UInt8.lt_iff_toNat_lt.1 ha
    have hx : (Char.ofNat a.toNat).toNat = a.toNat := by
      rw [Char.ofNat, dif_pos (.inl (by omega))]
      rfl
    refine ih.cons [a] ?_
    rw [encode_of_lt (by rw [hx]; omega), hx, UInt8.ofNat_toNat]
  | case4 done a _ b rest x hx ih => exact ih.cons [a, b] (pair?_eq_some_iff.1 hx)
  | case6 done a _ b _ c rest x hx ih => exact ih.cons [a, b, c] (triple?_eq_some_iff.1 hx)
  | case8 done a _ b _ c _ d rest x hx ih => exact ih.cons [a, b, c, d] (quadruple?_eq_some_iff.1 hx)
  | _ => exact .stop ..

namespace Source

/-- Of the bytes that encode characters these characters are read. -/
theorem ofBytes_utf8Encode (chars : List Char) : ofBytes chars.utf8Encode = ⟨chars, true⟩ := by
  unfold ofBytes List.utf8Encode
  rw [List.toList_data_toByteArray]
  exact decodeOnto_flatMap_encode [] chars

/-- All of a file is read exactly if it is well formed. -/
theorem intact_ofBytes_iff {bytes : ByteArray} :
    (ofBytes bytes).intact = true ↔ bytes.IsValidUTF8 := by
  constructor
  · intro h
    obtain ⟨chars, tail, -, hbytes, htail⟩ := decodes_decodeOnto bytes.data.toList []
    refine ⟨chars, ByteArray.ext (Array.toList_inj.1 ?_)⟩
    rw [List.utf8Encode, List.toList_data_toByteArray, hbytes, htail h, List.append_nil]
  · rintro ⟨chars, rfl⟩
    rw [ofBytes_utf8Encode]

end Source

end Text

/-! ## Lexing -/

namespace Lexing

open Text

theorem Tiles.intact {place : List Char → Position → Prop} {intact : Bool}
    {before text : List Char} {tokens : List Token}
    (h : Tiles place intact before text tokens none) : intact = true := by
  generalize hnone : (none : Option Diagnostic) = failure at h
  induction h with
  | eof _ hintact _ => exact hintact
  | token _ _ _ _ ih => exact ih hnone
  | flaw => cases hnone

/-- Only bytes that are no character are reported as such. -/
theorem Tiles.intact_of_illegalUtf8 {place : List Char → Position → Prop} {intact : Bool}
    {before text : List Char} {tokens : List Token} {failure : Diagnostic}
    (h : Tiles place intact before text tokens (some failure))
    (hcause : failure.cause = .illegalUtf8) : intact = false := by
  generalize hsome : some failure = result at h
  induction h with
  | eof => cases hsome
  | token _ _ _ _ ih => exact ih hsome
  | flaw _ _ hflawed _ =>
    obtain rfl := Option.some.inj hsome
    dsimp only at hcause
    subst hcause
    cases hflawed with
    | illegalUtf8 hbroken => exact hbroken

/-- A file that is read to its end is well-formed UTF-8 as a whole, and of a well-formed file no part
is refused as ill-formed. -/
theorem isValidUTF8_of_complete (file : String) (bytes : ByteArray) :
    (∀ tokens, (ofSource file (.ofBytes bytes)).complete = .ok tokens → bytes.IsValidUTF8) ∧
      (bytes.IsValidUTF8 → ∀ failure, (ofSource file (.ofBytes bytes)).complete = .error failure →
        failure.cause ≠ .illegalUtf8) := by
  have htiles := tiles_ofSource file (.ofBytes bytes)
  unfold complete
  cases hfailure : (ofSource file (.ofBytes bytes)).failure with
  | none =>
    rw [hfailure] at htiles
    exact ⟨fun _ _ => Source.intact_ofBytes_iff.1 htiles.intact, fun _ _ => nofun⟩
  | some failure =>
    rw [hfailure] at htiles
    refine ⟨fun _ => nofun, fun hvalid other hother hcause => ?_⟩
    obtain rfl := Except.error.inj hother
    have hbroken := htiles.intact_of_illegalUtf8 hcause
    rw [Source.intact_ofBytes_iff.2 hvalid] at hbroken
    cases hbroken

/-- A comment that ends with a letter of two bytes, and a string with an overlong quote. -/
theorem isValidUTF8_of_complete_accent :
    (ByteArray.mk #[0x2F, 0x2F, 0xC3, 0xA9]).IsValidUTF8 ∧
      ¬ (ByteArray.mk #[0x22, 0xC0, 0xA2, 0x22]).IsValidUTF8 := by
  have hread : (ofSource "a" (.ofBytes ⟨#[0x2F, 0x2F, 0xC3, 0xA9]⟩)).complete =
      .ok [⟨.comment "é", ⟨"a", 1, 1⟩⟩, ⟨.eof, ⟨"a", 1, 4⟩⟩] := by decide
  have hfails : (ofSource "a" (.ofBytes ⟨#[0x22, 0xC0, 0xA2, 0x22]⟩)).complete =
      .error ⟨.illegalUtf8, ⟨"a", 1, 2⟩⟩ := by decide
  exact ⟨(isValidUTF8_of_complete "a" _).1 _ hread,
    fun hvalid => (isValidUTF8_of_complete "a" _).2 hvalid _ hfails rfl⟩

end Lexing

end SchemaLang
