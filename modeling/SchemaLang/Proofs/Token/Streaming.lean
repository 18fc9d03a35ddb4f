import SchemaLang.Proofs.Grammar.Lexing
import SchemaLang.Proofs.Token.Tiling

/-!
# Tokens on demand

A lexer is asked for one token at a time, with or without taking it. Whatever the order of the calls, up
to the first failure they give the tokens of the whole file in turn (`Lexer.answers`): a lexer of which
`n` tokens were taken stands before the rest of the file (`Lexer.drops`), and a look does not move it.

* `Lexing.ofLexer_of_ok` and so on: reading from a lexer to the end, one token at a time.
* `Lexing.answer`: what a file says to the call for its `n`-th token. Behind the last one it says the end
  of the file for ever, or its failure.
* `Lexer.Gives`: what a sequence of calls took from a file.
-/

namespace SchemaLang

open Text

variable {lexer lexer' : Lexer} {token : Token} {failure : Diagnostic}

namespace Lexer

/-! ## One call -/

/-- Every token but the last takes a character or was looked at. -/
def pending (lexer : Lexer) : Nat :=
  lexer.rest.length + lexer.lookahead.toList.length

theorem lookahead_scan (lexer : Lexer) : lexer.scan.2.lookahead = lexer.lookahead := by
  unfold scan
  dsimp only
  split
  · split <;> rfl
  · split <;> rfl

theorem next_of_lookahead (h : lexer.lookahead = none) : lexer.next = lexer.scan := by
  rw [next, h]

/-- Taking a token leaves none that was looked at. -/
theorem lookahead_next (lexer : Lexer) : lexer.next.2.lookahead = none := by
  cases hlook : lexer.lookahead with
  | some token => rw [next, hlook]
  | none => rw [next_of_lookahead hlook, lookahead_scan, hlook]

theorem pending_next_lt (h : lexer.next = (.ok token, lexer')) (hne : token.kind ≠ .eof) :
    lexer'.pending < lexer.pending := by
  cases hlook : lexer.lookahead with
  | some looked =>
    rw [next, hlook] at h
    cases h
    simp [pending, hlook]
  | none =>
    rw [next_of_lookahead hlook] at h
    obtain ⟨hlt, hsame⟩ := length_rest_scan_lt h hne
    unfold pending
    rw [hsame]
    omega

/-- The end of the file is given as often as it is asked for. -/
theorem scan_of_eof (h : lexer.scan = (.ok token, lexer')) (heof : token.kind = .eof) :
    lexer'.scan = (.ok token, lexer') := by
  cases hdrop : lexer.rest.dropWhile isBlank with
  | nil =>
    unfold scan at h
    rw [hdrop] at h
    dsimp only at h
    cases hintact : lexer.intact with
    | true =>
      rw [hintact, if_pos rfl] at h
      cases h
      rfl
    | false =>
      rw [hintact, if_neg Bool.false_ne_true] at h
      cases h
  | cons c rest =>
    -- a token that takes a character is not the end
    have hblank : isBlank c = false := by
      have hhead := List.head?_dropWhile_not isBlank lexer.rest
      rw [hdrop] at hhead
      simpa using hhead
    have htakes := Scan.takes_token lexer.intact rest hblank
    cases htoken : Scan.token lexer.intact c rest with
    | mk lexeme rest' result =>
      rw [htoken] at htakes
      cases htakes with
      | token _ hwritten =>
        rw [scan_of_ok hdrop htoken] at h
        cases h
        exact absurd heof hwritten.ne_eof
      | flaw =>
        have herror := scan_of_error hdrop htoken
        rw [h] at herror
        cases herror

/-- A lexer that has looked at the end of the file stands there. -/
def Steady (lexer : Lexer) : Prop :=
  ∀ token, lexer.lookahead = some token → token.kind = .eof →
    Lexer.scan { lexer with lookahead := none } = (.ok token, { lexer with lookahead := none })

theorem steady_of_lookahead (h : lexer.lookahead = none) : lexer.Steady := by
  intro token hlook
  rw [h] at hlook
  cases hlook

theorem Steady.next (h : lexer.next = (.ok token, lexer')) : lexer'.Steady := by
  have hlook := lookahead_next lexer
  rw [h] at hlook
  exact steady_of_lookahead hlook

/-- At the end of the file a call changes nothing. -/
theorem Steady.next_of_eof (hs : lexer.Steady) (h : lexer.next = (.ok token, lexer'))
    (heof : token.kind = .eof) : lexer'.next = (.ok token, lexer') := by
  have hlook' := lookahead_next lexer
  rw [h] at hlook'
  rw [next_of_lookahead hlook']
  cases hlook : lexer.lookahead with
  | some looked =>
    rw [Lexer.next, hlook] at h
    cases h
    exact hs token hlook heof
  | none =>
    rw [next_of_lookahead hlook] at h
    exact scan_of_eof h heof

/-- A look at a token gives it, and it stays to be taken. -/
theorem peek_eq (lexer : Lexer) : lexer.peek =
    match lexer.next with
    | (.ok token, lexer) => (.ok token, { lexer with lookahead := some token })
    | (.error failure, lexer) => (.error failure, lexer) :=
  rfl

theorem peek_fst (lexer : Lexer) : lexer.peek.1 = lexer.next.1 := by
  rw [peek_eq]
  split <;> rename_i h <;> rw [h]

/-- The token that was looked at is the one that is taken next. -/
theorem next_of_peek (h : lexer.peek = (.ok token, lexer')) :
    lexer'.lookahead = some token ∧ lexer'.next = lexer.next := by
  have hlook := lookahead_next lexer
  rw [peek_eq] at h
  split at h
  · rename_i looked after hnext
    rw [hnext] at hlook
    cases h
    obtain ⟨file, rest, intact, coordinate, lookahead⟩ := after
    obtain rfl : lookahead = none := hlook
    exact ⟨rfl, hnext.symm⟩
  · cases h

theorem Steady.peek (hs : lexer.Steady) (h : lexer.peek = (.ok token, lexer')) :
    lexer'.Steady := by
  obtain ⟨hlook, hnext⟩ := next_of_peek h
  intro looked hlooked heof
  obtain rfl := Option.some.inj (hlook.symm.trans hlooked)
  rw [Lexer.next, hlook] at hnext
  have hagain := hs.next_of_eof hnext.symm heof
  rwa [next_of_lookahead rfl] at hagain

end Lexer

/-! ## Reading to the end -/

namespace Lexing

/-- The tokens that were read come first. -/
theorem read_done : ∀ (fuel : Nat) (lexer : Lexer) (done : List Token),
    read fuel lexer done =
      ⟨done.reverse ++ (read fuel lexer []).tokens, (read fuel lexer []).failure⟩
  | 0, _, done => by simp [read]
  | fuel + 1, lexer, done => by
    unfold read
    split
    · rename_i token lexer' _
      split
      · simp
      · rw [read_done fuel lexer' (token :: done), read_done fuel lexer' [token]]
        simp
    · simp

/-- Enough rounds are as good as any other number that is enough. -/
theorem read_fuel : ∀ (fuel fuel' : Nat) (lexer : Lexer) (done : List Token),
    lexer.pending < fuel → lexer.pending < fuel' → read fuel lexer done = read fuel' lexer done
  | 0, _, _, _, h, _ => absurd h (Nat.not_lt_zero _)
  | _ + 1, 0, _, _, _, h => absurd h (Nat.not_lt_zero _)
  | fuel + 1, fuel' + 1, lexer, done, h, h' => by
    unfold read
    split
    · rename_i token lexer' hnext
      split
      · rfl
      · rename_i hne
        have hlt := Lexer.pending_next_lt hnext hne
        exact read_fuel fuel fuel' lexer' _ (by omega) (by omega)
    · rfl

theorem pending_lt (lexer : Lexer) : lexer.pending < lexer.rest.length + 2 := by
  unfold Lexer.pending
  cases lexer.lookahead <;> simp

/-- Puts a token in front. -/
def onto (token : Token) (lexing : Lexing) : Lexing :=
  ⟨token :: lexing.tokens, lexing.failure⟩

theorem ofLexer_of_ok (h : lexer.next = (.ok token, lexer')) (hne : token.kind ≠ .eof) :
    ofLexer lexer = (ofLexer lexer').onto token := by
  have hlt := Lexer.pending_next_lt h hne
  have hle := pending_lt lexer
  have hstep : ofLexer lexer = read (lexer.rest.length + 1) lexer' [token] := by
    rw [ofLexer, read, h]
    exact if_neg hne
  rw [hstep, read_done, read_fuel _ (lexer'.rest.length + 2) lexer' [] (by omega) (pending_lt _)]
  rfl

theorem ofLexer_of_eof (h : lexer.next = (.ok token, lexer')) (heof : token.kind = .eof) :
    ofLexer lexer = ⟨[token], none⟩ := by
  rw [ofLexer, read, h]
  exact if_pos heof

theorem ofLexer_of_error (h : lexer.next = (.error failure, lexer')) :
    ofLexer lexer = ⟨[], some failure⟩ := by
  rw [ofLexer, read, h]
  rfl

/-- What is read depends on what the next call gives. -/
theorem ofLexer_congr (h : lexer'.next = lexer.next) : ofLexer lexer' = ofLexer lexer := by
  cases hnext : lexer.next with
  | mk result after =>
    cases result with
    | ok token =>
      by_cases heof : token.kind = .eof
      · rw [ofLexer_of_eof (h.trans hnext) heof, ofLexer_of_eof hnext heof]
      · rw [ofLexer_of_ok (h.trans hnext) heof, ofLexer_of_ok hnext heof]
    | error failure => rw [ofLexer_of_error (h.trans hnext), ofLexer_of_error hnext]

/-! ## The tokens of a file in turn -/

/-- What a file says to the call for the token with the number `n`: the token, and behind the tokens the
failure, or else the last token again. -/
def answer (lexing : Lexing) (n : Nat) : Except Diagnostic Token :=
  match lexing.tokens[n]?, lexing.failure with
  | some token, _ => .ok token
  | none, some failure => .error failure
  | none, none => .ok (lexing.tokens.getLastD ⟨.eof, .unknown⟩)

theorem answer_of_lt {lexing : Lexing} {n : Nat} (h : n < lexing.tokens.length) :
    lexing.answer n = .ok lexing.tokens[n] := by
  rw [answer, List.getElem?_eq_getElem h]

theorem answer_of_failure {lexing : Lexing} {n : Nat} (h : lexing.tokens.length ≤ n)
    (hf : lexing.failure = some failure) : lexing.answer n = .error failure := by
  rw [answer, List.getElem?_eq_none h, hf]

theorem answer_onto {lexing : Lexing} (h : lexing.failure = none → lexing.tokens ≠ []) (n : Nat) :
    (lexing.onto token).answer (n + 1) = lexing.answer n := by
  rw [answer, answer, onto, List.getElem?_cons_succ]
  cases lexing.tokens[n]? with
  | some other => rfl
  | none =>
    cases hf : lexing.failure with
    | some failure => rfl
    | none =>
      obtain ⟨first, others, htokens⟩ := List.exists_cons_of_ne_nil (h hf)
      rw [htokens]
      rfl

/-- A file without failure has a last token. -/
theorem tokens_ne_nil (lexer : Lexer) (h : (ofLexer lexer).failure = none) :
    (ofLexer lexer).tokens ≠ [] := by
  cases hnext : lexer.next with
  | mk result after =>
    cases result with
    | ok token =>
      by_cases heof : token.kind = .eof
      · rw [ofLexer_of_eof hnext heof]
        exact List.cons_ne_nil _ _
      · rw [ofLexer_of_ok hnext heof]
        exact List.cons_ne_nil _ _
    | error failure =>
      rw [ofLexer_of_error hnext] at h
      cases h

theorem answer_zero (lexer : Lexer) : (ofLexer lexer).answer 0 = lexer.next.1 := by
  cases hnext : lexer.next with
  | mk result after =>
    cases result with
    | ok token =>
      by_cases heof : token.kind = .eof
      · rw [ofLexer_of_eof hnext heof]
        rfl
      · rw [ofLexer_of_ok hnext heof]
        rfl
    | error failure =>
      rw [ofLexer_of_error hnext]
      rfl

theorem answer_succ (hs : lexer.Steady) (h : lexer.next = (.ok token, lexer')) (n : Nat) :
    (ofLexer lexer).answer (n + 1) = (ofLexer lexer').answer n := by
  by_cases heof : token.kind = .eof
  · rw [ofLexer_of_eof h heof, ofLexer_of_eof (hs.next_of_eof h heof) heof]
    cases n <;> rfl
  · rw [ofLexer_of_ok h heof, answer_onto (tokens_ne_nil lexer')]

end Lexing

/-! ## A sequence of calls -/

namespace Lexer

/-- Calls that succeed lead from the start of a file to a lexer. Some of them took tokens, these in
order; the others looked at one. -/
inductive Gives (file : String) (source : Source) : List Token → Lexer → Prop
  | start : Gives file source [] (.ofSource file source)
  | peek {taken : List Token} {lexer lexer' : Lexer} {token : Token}
      (h : Gives file source taken lexer) (call : lexer.peek = (.ok token, lexer')) :
    Gives file source taken lexer'
  | next {taken : List Token} {lexer lexer' : Lexer} {token : Token}
      (h : Gives file source taken lexer) (call : lexer.next = (.ok token, lexer')) :
    Gives file source (taken ++ [token]) lexer'

variable {file : String} {source : Source} {taken : List Token}

theorem Gives.steady (h : Gives file source taken lexer) : lexer.Steady := by
  induction h with
  | start => exact steady_of_lookahead rfl
  | peek _ call ih => exact ih.peek call
  | next _ call _ => exact .next call

/-- The tokens that are left are those behind the taken ones. -/
theorem Gives.drops (h : Gives file source taken lexer) : ∀ n : Nat,
    (Lexing.ofLexer lexer).answer n = (Lexing.ofSource file source).answer (taken.length + n) := by
  induction h with
  | start => exact fun n => by rw [List.length_nil, Nat.zero_add]; rfl
  | peek _ call ih => exact fun n => by rw [Lexing.ofLexer_congr (next_of_peek call).2, ih]
  | next h call ih =>
    intro n
    rw [← Lexing.answer_succ h.steady call, ih, List.length_append, List.length_singleton,
      Nat.add_assoc, Nat.add_comm 1]

/-- Either call gives the token behind the taken ones. -/
theorem Gives.answers (h : Gives file source taken lexer) :
    lexer.peek.1 = (Lexing.ofSource file source).answer taken.length ∧
      lexer.next.1 = (Lexing.ofSource file source).answer taken.length := by
  rw [peek_fst, ← Lexing.answer_zero, h.drops 0]
  exact ⟨rfl, rfl⟩

/-- The taken tokens are those of the file, from the first one on. -/
theorem Gives.taken_eq (h : Gives file source taken lexer) : ∀ (i : Nat) (hi : i < taken.length),
    (Lexing.ofSource file source).answer i = .ok taken[i] := by
  induction h with
  | start => exact fun i hi => absurd hi (Nat.not_lt_zero i)
  | peek _ _ ih => exact ih
  | @next taken lexer _ token h call ih =>
    intro i hi
    rw [List.length_append, List.length_singleton] at hi
    rcases Nat.lt_or_ge i taken.length with hlt | hge
    · rw [ih i hlt, List.getElem_append_left hlt]
    · obtain rfl : i = taken.length := by omega
      rw [← h.answers.2, call, List.getElem_concat_length rfl]

end Lexer

end SchemaLang
