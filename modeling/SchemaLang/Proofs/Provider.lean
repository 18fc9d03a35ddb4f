import SchemaLang.Proofs.Arena.Home
import SchemaLang.Proofs.Grammar.Lexing
import SchemaLang.Provider.Memory

/-!
# The strings of files in memory

An import is written as a string, and a string takes a character at least. So what files in memory
can import are finitely many names, no more than the files have bytes (`length_strings_le`).
-/

namespace SchemaLang

/-- The value of a string token. -/
def TokenKind.string? : TokenKind → Option String
  | string value => some value
  | _ => none

/-- The strings of a source, up to a lexical failure. -/
def Text.Source.strings (source : Source) : List String :=
  source.kinds.filterMap TokenKind.string?

theorem Text.Source.mem_strings {source : Source} {value : String} :
    value ∈ source.strings ↔ .string value ∈ source.kinds := by
  unfold strings
  rw [List.mem_filterMap]
  constructor
  · rintro ⟨kind, hmem, hkind⟩
    cases kind <;> cases hkind
    exact hmem
  · exact fun hmem => ⟨_, hmem, rfl⟩

/-! ## Strings and quotes -/

namespace Scan

/-- A character that a string starts with. -/
def isQuote (c : Char) : Bool :=
  c == '"' || c == '\''

theorem result_peeked {intact : Bool} {lexeme rest : List Char} {next : Scan} {kind : TokenKind}
    (h : (peeked intact lexeme rest next).result = .ok kind) : next.result = .ok kind := by
  unfold peeked at h
  split at h
  · cases h
  · exact h

theorem string?_ofWord (name : String) : (TokenKind.ofWord name).string? = none := by
  unfold TokenKind.ofWord
  split
  · rfl
  split
  · rfl
  split <;> rfl

theorem string?_word {intact : Bool} {chars : List Char} {kind : TokenKind}
    (h : (word intact chars).result = .ok kind) : kind.string? = none := by
  have hnext := result_peeked h
  split at hnext <;> cases hnext
  · rfl
  · exact string?_ofWord _

theorem string?_intKind {value : Nat} {kind : TokenKind}
    (h : Numeral.intKind? value = some kind) : kind.string? = none := by
  unfold Numeral.intKind? at h
  split at h <;> cases h
  rfl

theorem string?_kind {numeral : Numeral} {kind : TokenKind} (h : numeral.kind? = some kind) :
    kind.string? = none := by
  unfold Numeral.kind? at h
  split at h
  · split at h
    · cases h
    · exact string?_intKind h
  · exact string?_intKind h
  · obtain ⟨e, -, rfl⟩ := Option.map_eq_some_iff.1 h
    rfl

theorem string?_number {intact : Bool} {chars : List Char} {kind : TokenKind}
    (h : (number intact chars).result = .ok kind) : kind.string? = none := by
  have hnext := result_peeked h
  split at hnext
  · rename_i hkind
    cases hnext
    exact string?_kind hkind
  · cases hnext

theorem string?_blockBody {intact : Bool} {text rest : List Char} {kind : TokenKind}
    (h : (blockBody intact text rest).result = .ok kind) : kind.string? = none := by
  fun_induction blockBody intact text rest with
  | case1 => cases h
  | case2 => cases h
  | case3 =>
    cases h
    rfl
  | case4 text c rest hclose ih => exact ih h

theorem string?_slash {intact : Bool} {rest : List Char} {kind : TokenKind}
    (h : (slash intact rest).result = .ok kind) : kind.string? = none := by
  unfold slash at h
  split at h
  · cases result_peeked h
    rfl
  · exact string?_blockBody h
  · cases result_peeked h
    rfl

theorem string?_dash {intact : Bool} {rest : List Char} {kind : TokenKind}
    (h : (dash intact rest).result = .ok kind) : kind.string? = none := by
  unfold dash at h
  split at h
  · cases h
    rfl
  · cases result_peeked h
    rfl

/-- A string starts with a quote. -/
theorem string?_token {intact : Bool} {c : Char} {rest : List Char} {kind : TokenKind}
    (h : (token intact c rest).result = .ok kind) (hc : isQuote c = false) :
    kind.string? = none := by
  unfold token at h
  split at h
  · exact string?_word h
  split at h
  · exact string?_number h
  split at h
  · rename_i hquote
    rw [isQuote, hquote] at hc
    cases hc
  split at h
  · exact string?_slash h
  split at h
  · exact string?_dash h
  · cases h
    rfl

end Scan

theorem Lexer.string?_scan {lexer lexer' : Lexer} {token : Token}
    (h : lexer.scan = (.ok token, lexer')) (hq : ∀ c ∈ lexer.rest, Scan.isQuote c = false) :
    token.kind.string? = none := by
  unfold scan at h
  split at h
  · dsimp only at h
    split at h
    · cases h
      rfl
    · cases h
  · rename_i c rest hrest
    have hc : c ∈ lexer.rest :=
      (List.dropWhile_suffix Text.isBlank).subset (hrest ▸ List.mem_cons_self)
    dsimp only at h
    split at h
    · rename_i kind hkind
      cases h
      exact Scan.string?_token hkind (hq c hc)
    · cases h

/-- A text without quotes has no strings. -/
theorem Lexing.string?_read : ∀ (fuel : Nat) (lexer : Lexer) (done : List Token),
    lexer.lookahead = none → (∀ c ∈ lexer.rest, Scan.isQuote c = false) →
    (∀ token ∈ done, token.kind.string? = none) →
    ∀ token ∈ (read fuel lexer done).tokens, token.kind.string? = none
  | 0, _, _, _, _, hdone => by simpa [read] using hdone
  | fuel + 1, lexer, done, hnone, hq, hdone => by
    have hnext : lexer.next = lexer.scan := by rw [Lexer.next, hnone]
    unfold read
    rw [hnext]
    split
    · rename_i token lexer' hscan
      have hcons : ∀ other ∈ token :: done, other.kind.string? = none :=
        List.forall_mem_cons.2 ⟨Lexer.string?_scan hscan hq, hdone⟩
      split
      · exact fun other hmem => hcons other (List.mem_reverse.1 hmem)
      · rename_i hne
        have hsuffix := lexer.rest_scan_suffix
        rw [hscan] at hsuffix
        exact string?_read fuel lexer' (token :: done)
          ((Lexer.length_rest_scan_lt hscan hne).2.trans hnone)
          (fun c hc => hq c (hsuffix.subset hc)) hcons
    · exact fun other hmem => hdone other (List.mem_reverse.1 hmem)

theorem Text.Source.strings_eq_nil {source : Source}
    (h : ∀ c ∈ source.chars, Scan.isQuote c = false) : source.strings = [] := by
  unfold strings
  rw [List.filterMap_eq_nil_iff]
  intro kind hkind
  obtain ⟨token, htoken, rfl⟩ := List.mem_map.1 (List.mem_filter.1 hkind).1
  exact Lexing.string?_read _ (.ofSource "" source) [] rfl h (List.forall_mem_nil _) token htoken

/-! ## Counting -/

/-- Every token but the end of the file takes a character. -/
theorem Lexing.count_read_le : ∀ (fuel : Nat) (lexer : Lexer) (done : List Token),
    lexer.lookahead = none → TokenKind.count ((read fuel lexer done).tokens.map Token.kind) ≤
      TokenKind.count (done.map Token.kind) + lexer.rest.length
  | 0, lexer, done, _ => by
    simp [read, TokenKind.count, List.countP_reverse]
  | fuel + 1, lexer, done, hnone => by
    have hreverse : ∀ tokens : List Token, TokenKind.count (tokens.reverse.map Token.kind) =
        TokenKind.count (tokens.map Token.kind) := fun tokens => by
      unfold TokenKind.count
      rw [List.map_reverse, List.countP_reverse]
    have hnext : lexer.next = lexer.scan := by rw [Lexer.next, hnone]
    unfold read
    rw [hnext]
    split
    · rename_i token lexer' hscan
      split
      · rename_i heof
        rw [hreverse]
        simp [TokenKind.count, heof]
      · rename_i hne
        obtain ⟨hlt, hlook⟩ := Lexer.length_rest_scan_lt hscan hne
        have ih := count_read_le fuel lexer' (token :: done) (hlook.trans hnone)
        rw [List.map_cons, TokenKind.count_cons hne] at ih
        omega
    · rw [hreverse]
      omega

theorem Text.length_chars_decodeOnto_le : ∀ (bytes : List UInt8) (done : List Char),
    (decodeOnto done bytes).chars.length ≤ done.length + bytes.length := by
  intro bytes done
  fun_induction decodeOnto done bytes <;> simp_all <;> omega

/-- A source has no more strings than its file has bytes. -/
theorem Text.Source.length_strings_le (bytes : ByteArray) :
    (ofBytes bytes).strings.length ≤ bytes.size := by
  have hstrings : (ofBytes bytes).strings.length ≤ TokenKind.count (ofBytes bytes).kinds := by
    unfold strings TokenKind.count
    rw [List.length_filterMap_eq_countP]
    refine List.countP_mono_left fun kind _ h => ?_
    cases kind <;> first | rfl | cases h
  have hkinds : TokenKind.count (ofBytes bytes).kinds ≤ (ofBytes bytes).chars.length := by
    have hread := Lexing.count_read_le ((ofBytes bytes).chars.length + 2)
      (.ofSource "" (ofBytes bytes)) [] rfl
    have hzero : TokenKind.count [] = 0 := rfl
    rw [List.map_nil, hzero, Nat.zero_add] at hread
    exact Nat.le_trans (List.Sublist.countP_le List.filter_sublist) hread
  have hchars := length_chars_decodeOnto_le bytes.data.toList []
  rw [List.length_nil, Nat.zero_add, Array.length_toList] at hchars
  exact Nat.le_trans hstrings (Nat.le_trans hkinds hchars)

namespace Memory

/-- The strings of all files. -/
def strings (memory : Memory) : List String :=
  memory.files.values.flatMap fun bytes => (Text.Source.ofBytes bytes).strings

theorem length_strings_le (memory : Memory) : memory.strings.length ≤ memory.byteCount := by
  have honto : ∀ (files : List ByteArray) (count : Nat),
      count + (files.flatMap fun bytes => (Text.Source.ofBytes bytes).strings).length ≤
        files.foldl (fun count bytes => count + bytes.size) count := by
    intro files
    induction files with
    | nil => exact fun count => Nat.le_refl _
    | cons bytes files ih =>
      intro count
      have hbytes := Text.Source.length_strings_le bytes
      have hrest := ih (count + bytes.size)
      rw [List.flatMap_cons, List.length_append, List.foldl_cons]
      omega
  have hall := honto memory.files.values 0
  rwa [Nat.zero_add] at hall

theorem mem_strings_of_read {memory : Memory} {path : Path} {bytes : ByteArray} {value : String}
    (h : memory.read path = .ok bytes) (hv : .string value ∈ (Text.Source.ofBytes bytes).kinds) :
    value ∈ memory.strings := by
  unfold read at h
  dsimp only at h
  split at h
  · rename_i found hfound
    cases h
    exact List.mem_flatMap.2 ⟨_, mem_values_iff.2 ⟨_, hfound⟩, Text.Source.mem_strings.2 hv⟩
  · cases h

end Memory

theorem Scan.all_not_isQuote_ofList {chars : List Char} (h : chars.all (!isQuote ·) = true) :
    (String.ofList chars).toList.all (!isQuote ·) = true := by
  rwa [String.toList_ofList]

/-- The embedded text of the built-in package has no strings. -/
theorem Prelude.strings_text : (⟨Prelude.text.toList, true⟩ : Text.Source).strings = [] := by
  have hlines : lines.Forall fun line => line.toList.all (!Scan.isQuote ·) = true := by
    unfold lines
    -- each line is unified with the list of its characters, so that none of them is decoded
    repeat' apply And.intro
    all_goals exact Scan.all_not_isQuote_ofList (by decide)
  refine Text.Source.strings_eq_nil fun c hc => ?_
  rw [Prelude.text, String.toList_join] at hc
  obtain ⟨written, hwritten, hc⟩ := List.mem_flatMap.1 hc
  obtain ⟨line, hline, rfl⟩ := List.mem_map.1 hwritten
  rw [String.toList_append, List.mem_append] at hc
  rcases hc with hc | hc
  · have hquote := List.all_eq_true.1 (List.forall_iff_forall_mem.1 hlines line hline) c hc
    simpa using hquote
  · cases List.mem_singleton.1 hc
    rfl

end SchemaLang
