import SchemaLang.Proofs.Grammar.Feeding
import SchemaLang.Proofs.Grammar.Tokens
import SchemaLang.Proofs.Grammar.Walking
import SchemaLang.Proofs.Outcome

/-!
# What reading fails with

Scanning fails in the phase of the lexer (`Lexing.phase_of_failure`). A part of a reading that imports
nothing fails where the file has a lexical failure, with this failure, or else for what is written, in
the phase of the grammar (`Parse.confined_declaration`). So any other failure of a script is that of an
import.
-/

namespace SchemaLang

/-! ## Lexical failures -/

namespace Scan

/-- Where the scan fails, it does so in the phase of the lexer. -/
def FailsLexically (scan : Scan) : Prop :=
  match scan.result with
  | .ok _ => True
  | .error flaw => flaw.cause.phase = .lexer

theorem failsLexically_accept (kind : TokenKind) (lexeme rest : List Char) :
    (accept kind lexeme rest).FailsLexically :=
  trivial

theorem failsLexically_fail {cause : Cause} (h : cause.phase = .lexer) (lexeme rest : List Char) :
    (fail cause lexeme rest).FailsLexically :=
  h

theorem failsLexically_undecodable (lexeme : List Char) : (undecodable lexeme).FailsLexically :=
  rfl

theorem FailsLexically.peeked {next : Scan} (h : next.FailsLexically) (intact : Bool)
    (lexeme rest : List Char) : (peeked intact lexeme rest next).FailsLexically := by
  unfold Scan.peeked
  split
  · exact failsLexically_undecodable _
  · exact h

theorem failsLexically_word (intact : Bool) (chars : List Char) :
    (word intact chars).FailsLexically := by
  refine FailsLexically.peeked ?_ ..
  split <;> exact failsLexically_accept ..

theorem failsLexically_number (intact : Bool) (chars : List Char) :
    (number intact chars).FailsLexically := by
  refine FailsLexically.peeked ?_ ..
  split
  · exact failsLexically_accept ..
  · exact failsLexically_fail rfl ..

theorem failsLexically_stringBody (intact : Bool) (quote : Char) (taken value rest : List Char) :
    (stringBody intact quote taken value rest).FailsLexically := by
  fun_induction stringBody intact quote taken value rest with
  | case1 => exact failsLexically_fail rfl ..
  | case2 => exact failsLexically_undecodable _
  | case3 => exact failsLexically_fail rfl ..
  | case4 => exact failsLexically_fail rfl ..
  | case5 => exact failsLexically_undecodable _
  | case6 _ _ _ _ _ _ _ _ ih => exact ih
  | case7 => exact failsLexically_fail rfl ..
  | case8 => rfl
  | case9 => exact failsLexically_accept ..
  | case10 _ _ _ _ _ _ _ ih => exact ih

theorem failsLexically_blockBody (intact : Bool) (text rest : List Char) :
    (blockBody intact text rest).FailsLexically := by
  fun_induction blockBody intact text rest with
  | case1 => exact failsLexically_fail rfl ..
  | case2 => exact failsLexically_undecodable _
  | case3 => exact failsLexically_accept ..
  | case4 _ _ _ _ ih => exact ih

theorem failsLexically_slash (intact : Bool) (rest : List Char) :
    (slash intact rest).FailsLexically := by
  unfold slash
  split
  · exact (failsLexically_accept ..).peeked ..
  · exact failsLexically_blockBody ..
  · exact (failsLexically_accept ..).peeked ..

theorem failsLexically_dash (intact : Bool) (rest : List Char) :
    (dash intact rest).FailsLexically := by
  unfold dash
  split
  · exact failsLexically_accept ..
  · exact (failsLexically_accept ..).peeked ..

theorem failsLexically_token (intact : Bool) (c : Char) (rest : List Char) :
    (token intact c rest).FailsLexically := by
  unfold token
  split
  · exact failsLexically_word ..
  split
  · exact failsLexically_number ..
  split
  · exact failsLexically_stringBody ..
  split
  · exact failsLexically_slash ..
  split
  · exact failsLexically_dash ..
  · exact failsLexically_accept ..

end Scan

theorem Lexer.phase_of_scan {lexer lexer' : Lexer} {failure : Diagnostic}
    (h : lexer.scan = (.error failure, lexer')) : failure.cause.phase = .lexer := by
  unfold scan at h
  split at h
  · dsimp only at h
    split at h
    · cases h
    · cases h
      rfl
  · rename_i c rest _
    dsimp only at h
    split at h
    · cases h
    · rename_i flaw hflaw
      cases h
      have htoken := Scan.failsLexically_token lexer.intact c rest
      unfold Scan.FailsLexically at htoken
      rwa [hflaw] at htoken

theorem Lexer.phase_of_next {lexer lexer' : Lexer} {failure : Diagnostic}
    (h : lexer.next = (.error failure, lexer')) : failure.cause.phase = .lexer := by
  unfold next at h
  split at h
  · cases h
  · exact phase_of_scan h

theorem Lexing.phase_of_read : ∀ (fuel : Nat) (lexer : Lexer) (done : List Token)
    {failure : Diagnostic}, (read fuel lexer done).failure = some failure →
    failure.cause.phase = .lexer
  | 0, _, _, _, h => by cases h
  | fuel + 1, lexer, done, failure, h => by
    unfold read at h
    split at h
    · split at h
      · cases h
      · exact phase_of_read fuel _ _ h
    · rename_i hnext
      cases h
      exact Lexer.phase_of_next hnext

/-- The failure of a file is one of the lexer. -/
theorem Lexing.phase_of_failure {file : String} {source : Text.Source} {failure : Diagnostic}
    (h : (ofSource file source).failure = some failure) : failure.cause.phase = .lexer :=
  phase_of_read _ _ _ h

namespace Parse

variable {σ α β : Type} {cx : ReadingContext σ}

/-- The part fails with the lexical failure of the file, or in the phase of the grammar. -/
def Confined (m : Parse σ α) : Prop :=
  ∀ r, Ends m r (fun _ r' => r'.feed.failure = r.feed.failure) fun failure _ =>
    r.feed.failure = some failure ∨ failure.cause.phase = .parse

theorem Confined.bind {m : Parse σ α} {f : α → Parse σ β} (h : Confined m)
    (hf : ∀ x, Confined (f x)) : Confined (m >>= f) := by
  intro r
  refine (h r).bind fun x r' hr' => ?_
  rw [← hr']
  exact hf x r'

theorem confined_peek : Confined (peek : Parse σ Token) := by
  rintro ⟨feed, comments, attrs, arena, host⟩
  cases feed with
  | more leading token rest => cases leading <;> rfl
  | done leading position => rfl
  | broken failure => exact Or.inl rfl

theorem confined_advance : Confined (advance : Parse σ Unit) := by
  rintro ⟨feed, comments, attrs, arena, host⟩
  cases feed <;> rfl

/-- What the grammar is put together from fails where the file does, or for what is written. -/
theorem walks_confined : Walks (fun _ => True) (Confined (σ := σ)) where
  pure _ _ := rfl
  bind := Confined.bind
  look h := confined_peek.bind fun token => h token trivial
  advance := confined_advance
  failAt _ _ phase _ _ := Or.inr phase
  build _ _ := rfl
  inspect _ _ := rfl
  attachComments _ := confined_peek.bind fun _ _ => rfl
  attachAllComments _ _ := rfl
  holdAttr _ _ := rfl
  attachAttrs _ _ := rfl

/-- A declaration fails where the file does, or for what is written. -/
theorem confined_declaration : Confined (declaration cx) :=
  walks_confined.declaration

end Parse

end SchemaLang
