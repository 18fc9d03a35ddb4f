import SchemaLang.Proofs.Text.Encoding
import SchemaLang.Proofs.Token.Streaming

/-!
# Reading the tokens of a file comes to an end

Every scan that succeeds takes a byte, except at the end of the file (`Lexer.unread_scan_lt`). So the loop
that takes token after token is not cut off when it is given one round more than there are bytes
(`Lexing.readAll_ofBytes`), and each round takes at most one token (`Lexing.length_tokens_le`).
-/

namespace SchemaLang

open Text

/-- A part of a text that lacks a character lacks a byte. -/
theorem Text.length_encode_lt {text text' : List Char} (h : text' <:+ text)
    (hlt : text'.length < text.length) :
    (text'.flatMap String.utf8EncodeChar).length < (text.flatMap String.utf8EncodeChar).length := by
  obtain ⟨taken, rfl⟩ := h
  rw [List.length_append] at hlt
  cases taken with
  | nil => exact absurd hlt (by simp)
  | cons c taken =>
    have hc : 0 < (String.utf8EncodeChar c).length := by
      rw [String.length_utf8EncodeChar]
      exact Char.utf8Size_pos c
    rw [List.cons_append, List.flatMap_cons, List.flatMap_append, List.length_append,
      List.length_append]
    omega

variable {lexer lexer' : Lexer} {token : Token}

namespace Lexer

/-- The number of bytes that what is left of the text takes in the file. -/
def unread (lexer : Lexer) : Nat :=
  (lexer.rest.flatMap String.utf8EncodeChar).length

/-- A scan that gives a token before the end of the file takes a byte. -/
theorem unread_scan_lt (h : lexer.scan = (.ok token, lexer')) (hne : token.kind ≠ .eof) :
    lexer'.unread < lexer.unread := by
  have hsuffix := rest_scan_suffix lexer
  rw [h] at hsuffix
  exact length_encode_lt hsuffix (length_rest_scan_lt h hne).1

/-- What is left at the start is all that was decoded of the file. -/
theorem unread_ofBytes_le (file : String) (bytes : ByteArray) :
    (ofSource file (.ofBytes bytes)).unread ≤ bytes.size := by
  obtain ⟨chars, tail, hchars, hbytes, -⟩ := decodes_decodeOnto bytes.data.toList []
  have hrest : (ofSource file (.ofBytes bytes)).rest = chars := hchars
  have hsize : bytes.size = bytes.data.toList.length := Array.length_toList.symm
  rw [unread, hrest, hsize, hbytes, List.length_append]
  exact Nat.le_add_right ..

end Lexer

namespace Lexing

variable {rounds : Nat}

/-- Takes tokens up to the end of the file or a failure. It is cut off where this takes more rounds. -/
def readAll : Nat → List Token → Lexer → Option Lexing
  | 0, _, _ => none
  | rounds + 1, tokens, lexer =>
    match lexer.next with
    | (.ok token, lexer) =>
      if token.kind = .eof then some ⟨tokens ++ [token], none⟩
      else readAll rounds (tokens ++ [token]) lexer
    | (.error failure, _) => some ⟨tokens, some failure⟩

/-- With more rounds than there are bytes the loop is not cut off. -/
theorem readAll_eq (hnone : lexer.lookahead = none) (h : lexer.unread < rounds)
    (tokens : List Token) :
    readAll rounds tokens lexer =
      some ⟨tokens ++ (ofLexer lexer).tokens, (ofLexer lexer).failure⟩ := by
  induction rounds generalizing lexer tokens with
  | zero => exact absurd h (Nat.not_lt_zero _)
  | succ rounds ih =>
    rw [readAll]
    cases hnext : lexer.next with
    | mk result after =>
      cases result with
      | error failure =>
        rw [ofLexer_of_error hnext, List.append_nil]
      | ok token =>
        dsimp only
        by_cases heof : token.kind = .eof
        · rw [if_pos heof, ofLexer_of_eof hnext heof]
        · have hafter : after.lookahead = none := by
            have hlook := Lexer.lookahead_next lexer
            rwa [hnext] at hlook
          have hlt := Lexer.unread_scan_lt ((Lexer.next_of_lookahead hnone).symm.trans hnext) heof
          rw [if_neg heof, ih hafter (by omega), ofLexer_of_ok hnext heof, onto, List.append_assoc,
            List.singleton_append]

theorem readAll_ofSource {file : String} {source : Source}
    (h : (Lexer.ofSource file source).unread < rounds) :
    readAll rounds [] (.ofSource file source) = some (ofSource file source) :=
  readAll_eq rfl h []

theorem readAll_ofBytes {file : String} {bytes : ByteArray} (h : bytes.size < rounds) :
    readAll rounds [] (.ofSource file (.ofBytes bytes)) = some (ofSource file (.ofBytes bytes)) :=
  readAll_ofSource (Nat.lt_of_le_of_lt (Lexer.unread_ofBytes_le file bytes) h)

/-- A round takes at most one token. -/
theorem length_tokens_le {tokens : List Token} {lexing : Lexing}
    (h : readAll rounds tokens lexer = some lexing) :
    lexing.tokens.length ≤ tokens.length + rounds := by
  induction rounds generalizing lexer tokens with
  | zero => cases h
  | succ rounds ih =>
    rw [readAll] at h
    cases hnext : lexer.next with
    | mk result after =>
      rw [hnext] at h
      cases result with
      | error failure =>
        cases h
        exact Nat.le_add_right ..
      | ok token =>
        dsimp only at h
        split at h
        · cases h
          rw [List.length_append, List.length_singleton]
          omega
        · have hrest := ih h
          rw [List.length_append, List.length_singleton] at hrest
          omega

/-- A file has at most one token more than it has bytes. -/
theorem length_tokens_ofBytes_le (file : String) (bytes : ByteArray) :
    (ofSource file (.ofBytes bytes)).tokens.length ≤ bytes.size + 1 := by
  have hall : readAll (bytes.size + 1) [] (.ofSource file (.ofBytes bytes)) = some _ :=
    readAll_ofBytes (Nat.lt_succ_self bytes.size)
  have hle := length_tokens_le hall
  rwa [List.length_nil, Nat.zero_add] at hle

end Lexing

end SchemaLang
