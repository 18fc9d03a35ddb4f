import SchemaLang.Proofs.Grammar.Exactness

/-!
# The tokens of a file

Every token but the end of the file takes a character, so a file without lexical failure is read up
to its end: its tokens end with `eof`, which stands nowhere else (`Lexing.ends`), and its feed
spells its tokens without the comments (`Lexing.spells`).
-/

namespace SchemaLang

open Text

/-! ## A scan moves on -/

namespace Scan

/-- A run of characters that starts with the first one takes that one. -/
theorem dropWhile_cons_suffix {p : Char → Bool} {c : Char} (h : p c = true) (rest : List Char) :
    (c :: rest).dropWhile p <:+ rest := by
  rw [List.dropWhile_cons_of_pos h]
  exact List.dropWhile_suffix p

theorem rest_peeked_suffix {intact : Bool} {lexeme rest chars : List Char} {scan : Scan}
    (h : scan.rest <:+ chars) : (peeked intact lexeme rest scan).rest <:+ chars := by
  unfold peeked
  split
  · exact List.nil_suffix
  · exact h

theorem rest_word_suffix (intact : Bool) {c : Char} (rest : List Char)
    (h : isWordStart c = true) : (word intact (c :: rest)).rest <:+ rest := by
  have hrun := dropWhile_cons_suffix (isWordPart_of_isWordStart h) rest
  refine rest_peeked_suffix ?_
  split
  · rename_i name rest' _ hrest
    rw [hrest] at hrun
    exact (List.suffix_cons ..).trans hrun
  · exact hrun

theorem splitFraction_suffix (chars : List Char) : (Numeral.splitFraction chars).2 <:+ chars := by
  unfold Numeral.splitFraction
  split
  · exact (List.dropWhile_suffix _).trans (List.suffix_cons ..)
  · exact List.suffix_rfl

theorem splitSign_suffix (chars : List Char) : (Numeral.splitSign chars).2 <:+ chars := by
  unfold Numeral.splitSign
  split
  · exact List.suffix_cons ..
  · exact List.suffix_cons ..
  · exact List.suffix_rfl

theorem splitExponent_suffix (chars : List Char) : (Numeral.splitExponent chars).2 <:+ chars := by
  unfold Numeral.splitExponent
  split
  · rename_i mark rest
    split
    · exact (List.dropWhile_suffix _).trans ((splitSign_suffix rest).trans (List.suffix_cons ..))
    · exact List.suffix_rfl
  · exact List.suffix_rfl

theorem split_suffix {c : Char} (rest : List Char) (h : c.isDigit = true) :
    (Numeral.split (c :: rest)).2 <:+ rest := by
  have hplain : (Numeral.splitExponent (Numeral.splitFraction
      ((c :: rest).dropWhile Char.isDigit)).2).2 <:+ rest :=
    (splitExponent_suffix _).trans ((splitFraction_suffix _).trans (dropWhile_cons_suffix h rest))
  generalize hchars : c :: rest = chars at hplain ⊢
  fun_cases Numeral.split chars with
  | case1 mark rest' hmark =>
    obtain ⟨-, rfl⟩ := List.cons.inj hchars
    exact (List.dropWhile_suffix _).trans (List.suffix_cons ..)
  | case2 => exact hplain
  | case3 => exact hplain

theorem rest_number_suffix (intact : Bool) {c : Char} (rest : List Char)
    (h : c.isDigit = true) : (number intact (c :: rest)).rest <:+ rest := by
  have hsplit := split_suffix rest h
  refine rest_peeked_suffix ?_
  split
  · exact hsplit
  · exact hsplit

theorem rest_stringBody_suffix (intact : Bool) (quote : Char) (taken value rest : List Char) :
    (stringBody intact quote taken value rest).rest <:+ rest := by
  have hcons : ∀ {chars rest : List Char} (c : Char), chars <:+ rest → chars <:+ c :: rest :=
    fun c h => h.trans (List.suffix_cons c _)
  fun_induction stringBody intact quote taken value rest <;>
    simp_all [fail, accept, undecodable]

theorem rest_blockBody_suffix (intact : Bool) (text rest : List Char) :
    (blockBody intact text rest).rest <:+ rest := by
  have hcons : ∀ {chars rest : List Char} (c : Char), chars <:+ rest → chars <:+ c :: rest :=
    fun c h => h.trans (List.suffix_cons c _)
  fun_induction blockBody intact text rest <;> simp_all [fail, accept, undecodable]

theorem rest_slash_suffix (intact : Bool) (rest : List Char) : (slash intact rest).rest <:+ rest := by
  unfold slash
  split
  · exact rest_peeked_suffix ((List.dropWhile_suffix _).trans (List.suffix_cons ..))
  · exact (rest_blockBody_suffix ..).trans (List.suffix_cons ..)
  · exact rest_peeked_suffix List.suffix_rfl

theorem rest_dash_suffix (intact : Bool) (rest : List Char) : (dash intact rest).rest <:+ rest := by
  unfold dash
  split
  · exact List.suffix_cons ..
  · exact rest_peeked_suffix List.suffix_rfl

/-- A scan takes a character, and goes on with what follows in the text. -/
theorem rest_token_suffix (intact : Bool) (c : Char) (rest : List Char) :
    (token intact c rest).rest <:+ rest := by
  unfold token
  split
  · exact rest_word_suffix intact rest ‹_›
  split
  · exact rest_number_suffix intact rest ‹_›
  split
  · exact rest_stringBody_suffix ..
  split
  · exact rest_slash_suffix ..
  split
  · exact rest_dash_suffix ..
  · exact List.suffix_rfl

end Scan

/-! ## The tokens of a file -/

theorem Lexer.rest_scan_suffix (lexer : Lexer) : lexer.scan.2.rest <:+ lexer.rest := by
  unfold scan
  dsimp only
  split
  · split
    · exact List.nil_suffix
    · exact List.nil_suffix
  · rename_i c rest hrest
    have hmoved : (Scan.token lexer.intact c rest).rest <:+ lexer.rest :=
      (Scan.rest_token_suffix lexer.intact c rest).trans
        ((List.suffix_cons c rest).trans (hrest ▸ List.dropWhile_suffix isBlank))
    split
    · exact hmoved
    · exact hmoved

theorem Lexer.length_rest_scan_lt {lexer lexer' : Lexer} {token : Token}
    (h : lexer.scan = (.ok token, lexer')) (hne : token.kind ≠ .eof) :
    lexer'.rest.length < lexer.rest.length ∧ lexer'.lookahead = lexer.lookahead := by
  unfold scan at h
  split at h
  · dsimp only at h
    split at h
    · cases h
      exact absurd rfl hne
    · cases h
  · rename_i c rest hrest
    have hle := (List.dropWhile_suffix (l := lexer.rest) isBlank).length_le
    have hmoved := (Scan.rest_token_suffix lexer.intact c rest).length_le
    rw [hrest, List.length_cons] at hle
    dsimp only at h
    split at h
    · cases h
      exact ⟨by dsimp only; omega, rfl⟩
    · cases h

/-- Comments are no part of the grammar. -/
def TokenKind.isSignificant : TokenKind → Bool
  | comment _ => false
  | _ => true

theorem Feed.Spells.precede {feed : Feed} {kinds : List TokenKind} (h : feed.Spells kinds)
    (comment : Comment) : (feed.precede comment).Spells kinds := by
  cases h with
  | done => exact .done
  | broken => exact .broken
  | more hkind hne hrest => exact .more hkind hne hrest

namespace Lexing

/-- The kinds of the tokens that are no comments. -/
def significant (lexing : Lexing) : List TokenKind :=
  (lexing.tokens.map Token.kind).filter TokenKind.isSignificant

/-- The tokens end with the end of the file, which stands nowhere else. -/
def Ends (tokens : List Token) : Prop :=
  ∃ init last, tokens = init ++ [last] ∧ last.kind = .eof ∧ ∀ token ∈ init, token.kind ≠ .eof

theorem ends_read : ∀ (fuel : Nat) (lexer : Lexer) (done : List Token), lexer.lookahead = none →
    lexer.rest.length < fuel → (∀ token ∈ done, token.kind ≠ .eof) →
    (read fuel lexer done).failure = none → Ends (read fuel lexer done).tokens
  | 0, _, _, _, hfuel, _, _ => absurd hfuel (Nat.not_lt_zero _)
  | fuel + 1, lexer, done, hnone, hfuel, hdone, hok => by
    have hnext : lexer.next = lexer.scan := by rw [Lexer.next, hnone]
    unfold read at hok ⊢
    rw [hnext] at hok ⊢
    split
    · rename_i token lexer' hscan
      rw [hscan] at hok
      dsimp only at hok ⊢
      split
      · rename_i heof
        exact ⟨done.reverse, token, List.reverse_cons, heof, by simpa using hdone⟩
      · rename_i hne
        rw [if_neg hne] at hok
        obtain ⟨hlt, hlook⟩ := Lexer.length_rest_scan_lt hscan hne
        exact ends_read fuel lexer' (token :: done) (hlook.trans hnone) (by omega)
          (List.forall_mem_cons.2 ⟨hne, hdone⟩) hok
    · rename_i failure lexer' hscan
      rw [hscan] at hok
      cases hok

theorem ends (file : String) (source : Source) (h : (ofSource file source).failure = none) :
    Ends (ofSource file source).tokens :=
  ends_read _ _ [] rfl (Nat.lt_succ_of_lt (Nat.lt_succ_self _)) (List.forall_mem_nil _) h

theorem spells_push {token : Token} {feed : Feed} {kinds : List TokenKind}
    (h : feed.Spells kinds) (hne : token.kind ≠ .eof) :
    (feed.push token).Spells ([token.kind].filter TokenKind.isSignificant ++ kinds) := by
  unfold Feed.push
  split
  · rename_i text hkind
    rw [hkind]
    exact h.precede _
  · rename_i hkind
    exact absurd hkind hne
  · rename_i hcomment _
    have hsignificant : token.kind.isSignificant = true := by
      unfold TokenKind.isSignificant
      split
      · rename_i text hkind
        exact absurd hkind (hcomment text)
      · rfl
    rw [List.filter_cons_of_pos hsignificant]
    exact .more rfl hne h

theorem spells_foldr {tokens : List Token} {last : Feed} {kinds : List TokenKind}
    (h : last.Spells kinds) (hne : ∀ token ∈ tokens, token.kind ≠ .eof) :
    (tokens.foldr Feed.push last).Spells
      ((tokens.map Token.kind).filter TokenKind.isSignificant ++ kinds) := by
  induction tokens with
  | nil => exact h
  | cons token tokens ih =>
    rw [List.forall_mem_cons] at hne
    have hspells := spells_push (ih hne.2) hne.1
    rwa [← List.append_assoc, ← List.filter_append, List.singleton_append] at hspells

/-- The feed of a file that was read to its end spells the tokens that are no comments. -/
theorem spells {lexing : Lexing} (h : Ends lexing.tokens) :
    (Feed.ofLexing lexing).Spells lexing.significant := by
  obtain ⟨init, last, htokens, hlast, hinit⟩ := h
  have hdone : ∀ feed, (Feed.push last feed).Spells ([last.kind].filter TokenKind.isSignificant) := by
    intro feed
    unfold Feed.push
    rw [hlast]
    exact .done
  unfold Feed.ofLexing significant
  rw [htokens, List.foldr_append, List.map_append, List.filter_append]
  exact spells_foldr (hdone _) hinit

/-- The end of the file comes last, or does not come. -/
theorem ends_or_broken : ∀ (fuel : Nat) (lexer : Lexer) (done : List Token),
    (∀ token ∈ done, token.kind ≠ .eof) → (read fuel lexer done).failure ≠ none →
    ∀ token ∈ (read fuel lexer done).tokens, token.kind ≠ .eof
  | 0, _, _, _, hbroken => absurd rfl hbroken
  | fuel + 1, lexer, done, hdone, hbroken => by
    unfold read at hbroken ⊢
    split
    · rename_i token lexer' hnext
      rw [hnext] at hbroken
      dsimp only at hbroken ⊢
      split
      · rename_i heof
        rw [if_pos heof] at hbroken
        exact absurd rfl hbroken
      · rename_i hne
        rw [if_neg hne] at hbroken
        exact ends_or_broken fuel lexer' (token :: done) (List.forall_mem_cons.2 ⟨hne, hdone⟩) hbroken
    · simpa using hdone

/-- The feed of a file spells the tokens that are no comments, up to a lexical failure. -/
theorem spells_ofSource (file : String) (source : Source) :
    (Feed.ofLexing (ofSource file source)).Spells (ofSource file source).significant := by
  cases hfailure : (ofSource file source).failure with
  | none => exact spells (ends file source hfailure)
  | some failure =>
    have hne := ends_or_broken _ (.ofSource file source) [] (List.forall_mem_nil _)
      (by rw [show (read _ _ _).failure = _ from hfailure]; exact Option.some_ne_none _)
    have hbroken : (Feed.broken failure).Spells [] := .broken
    have hspells := spells_foldr hbroken hne
    rw [List.append_nil] at hspells
    unfold Feed.ofLexing
    rw [hfailure]
    exact hspells

/-- The name of a file shows in positions only. -/
theorem scan_file (file : String) (lexer : Lexer) :
    (∃ token token' lexer', lexer.scan = (.ok token, lexer') ∧
      Lexer.scan { lexer with file := file } = (.ok token', { lexer' with file := file }) ∧
      token'.kind = token.kind ∧ lexer'.lookahead = lexer.lookahead) ∨
    ∃ failure failure' lexer', lexer.scan = (.error failure, lexer') ∧
      Lexer.scan { lexer with file := file } = (.error failure', { lexer' with file := file }) := by
  unfold Lexer.scan
  dsimp only
  cases lexer.rest.dropWhile isBlank with
  | nil =>
    cases lexer.intact with
    | true => exact Or.inl ⟨_, _, _, rfl, rfl, rfl, rfl⟩
    | false => exact Or.inr ⟨_, _, _, rfl, rfl⟩
  | cons c rest =>
    dsimp only
    cases (Scan.token lexer.intact c rest).result with
    | ok kind => exact Or.inl ⟨_, _, _, rfl, rfl, rfl, rfl⟩
    | error flaw => exact Or.inr ⟨_, _, _, rfl, rfl⟩

theorem map_kind_read (file : String) : ∀ (fuel : Nat) (lexer : Lexer) (done done' : List Token),
    lexer.lookahead = none → done'.map Token.kind = done.map Token.kind →
    (read fuel { lexer with file := file } done').tokens.map Token.kind =
      (read fuel lexer done).tokens.map Token.kind
  | 0, lexer, done, done', _, hdone => by simp [read, hdone]
  | fuel + 1, lexer, done, done', hnone, hdone => by
    have hnext : lexer.next = lexer.scan ∧
        Lexer.next { lexer with file := file } = Lexer.scan { lexer with file := file } := by
      simp [Lexer.next, hnone]
    unfold read
    rw [hnext.1, hnext.2]
    rcases scan_file file lexer with
      ⟨token, token', lexer', hscan, hscan', hkind, hlook⟩ | ⟨failure, failure', lexer', hscan, hscan'⟩
    · simp only [hscan, hscan', hkind]
      split
      · simp [hdone, hkind]
      · exact map_kind_read file fuel lexer' _ _ (hlook.trans hnone) (by simp [hdone, hkind])
    · simp [hscan, hscan', hdone]

end Lexing

/-- The kinds of the tokens of a source that are no comments, up to a lexical failure. -/
def Text.Source.kinds (source : Source) : List TokenKind :=
  (Lexing.ofSource "" source).significant

theorem Lexing.significant_ofSource (file : String) (source : Source) :
    (ofSource file source).significant = source.kinds := by
  unfold Text.Source.kinds significant
  exact congrArg _ (map_kind_read file _ (.ofSource "" source) [] [] rfl rfl)

end SchemaLang
