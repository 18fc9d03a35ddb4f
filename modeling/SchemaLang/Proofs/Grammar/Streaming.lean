import SchemaLang.Proofs.Grammar.Failing
import SchemaLang.Proofs.Token.Streaming

/-!
# Reading from a lexer

The grammar reads a feed, which is made of all the tokens of a file. It might as well ask a lexer for
one token after the other and keep the comments that it passes (`Lexer.Skims`): a reading whose feed is
what a lexer will give sees the same tokens and comments and comes upon the same failure
(`Parse.peek_skims`), and taking a token goes on in both (`Parse.advance_next`).

A reading that goes well takes every token up to the end of the file (`Parse.failure_of_script`). So it
fails with the failure of the lexer or sees that there is none.

* `Parse.Proceeds`: the feed of a reading only gets shorter.
-/

namespace SchemaLang

open Text

/-- A comment as a token. -/
def Comment.token (comment : Comment) : Token :=
  ⟨.comment comment.text, comment.position⟩

variable {lexer lexer' : Lexer} {token : Token} {failure : Diagnostic}

/-! ## Skipping comments -/

/-- Looks past comments: each is looked at and taken. The look at what comes behind them gives the
result. -/
inductive Lexer.Skims : Lexer → List Comment → Except Diagnostic Token → Lexer → Prop
  | comment {lexer lexer₁ lexer₂ lexer' : Lexer} {text : String} {position : Position}
      {comments : List Comment} {result : Except Diagnostic Token}
      (look : lexer.peek = (.ok ⟨.comment text, position⟩, lexer₁))
      (take : lexer₁.next = (.ok ⟨.comment text, position⟩, lexer₂))
      (rest : Skims lexer₂ comments result lexer') :
    Skims lexer (⟨text, position⟩ :: comments) result lexer'
  | token {lexer lexer' : Lexer} {token : Token} (look : lexer.peek = (.ok token, lexer'))
      (other : ∀ text, token.kind ≠ .comment text) : Skims lexer [] (.ok token) lexer'
  | flaw {lexer lexer' : Lexer} {failure : Diagnostic}
      (look : lexer.peek = (.error failure, lexer')) : Skims lexer [] (.error failure) lexer'

/-- Looking past comments takes these. -/
theorem Lexer.Skims.gives {file : String} {source : Source} {taken : List Token}
    {comments : List Comment} {result : Except Diagnostic Token}
    (h : lexer.Skims comments result lexer') (hok : result = .ok token)
    (hg : Lexer.Gives file source taken lexer) :
    Lexer.Gives file source (taken ++ comments.map Comment.token) lexer' ∧
      lexer'.lookahead = some token ∧ ∀ text, token.kind ≠ .comment text := by
  induction h generalizing taken with
  | @comment _ _ _ _ text position comments _ look take _ ih =>
    have htaken := ih hok ((hg.peek look).next take)
    rwa [List.append_assoc] at htaken
  | token look other =>
    cases hok
    exact ⟨by simpa using hg.peek look, (Lexer.next_of_peek look).1, other⟩
  | flaw => cases hok

namespace Feed

/-! ## The feed of a lexer -/

theorem ofLexing_onto (token : Token) (lexing : Lexing) :
    ofLexing (lexing.onto token) = (ofLexing lexing).push token :=
  rfl

theorem ofLexing_eof (h : token.kind = .eof) : ofLexing ⟨[token], none⟩ = done [] token.position := by
  unfold ofLexing
  rw [List.foldr_cons, push, h]

theorem push_eq_more (heof : token.kind ≠ .eof) (hcomment : ∀ text, token.kind ≠ .comment text)
    (feed : Feed) : feed.push token = more [] token feed := by
  unfold push
  split
  · exact absurd ‹_› (hcomment _)
  · exact absurd ‹_› heof
  · rfl

end Feed

namespace Parse

variable {σ : Type} {r r' : Reading σ}

/-- A comment in front of a feed waits before those behind it. -/
theorem peek_precede (comment : Comment) (feed : Feed) (r : Reading σ) :
    (∀ token r', peek (retake r feed (r.comments ++ [comment])) = .ok token r' →
      peek (retake r (feed.precede comment) r.comments) = .ok token r') ∧
    ∀ failure r', peek (retake r feed (r.comments ++ [comment])) = .error failure r' →
      ∃ r'', peek (retake r (feed.precede comment) r.comments) = .error failure r'' := by
  obtain ⟨_, comments, attrs, arena, host⟩ := r
  cases feed with
  | more leading token rest =>
    have hpeek : peek ⟨.more leading token rest, comments ++ [comment], attrs, arena, host⟩ =
        .ok token ⟨.more [] token rest, comments ++ comment :: leading, attrs, arena, host⟩ := by
      cases leading with
      | nil => rfl
      | cons next others =>
        exact congrArg (fun waiting =>
          EStateM.Result.ok token (⟨.more [] token rest, waiting, attrs, arena, host⟩ : Reading σ))
          (List.append_assoc comments [comment] (next :: others))
    refine ⟨fun token' r' h => ?_, fun failure r' h => ?_⟩
    · exact h ▸ hpeek.symm
    · cases hpeek.symm.trans h
  | done leading position =>
    refine ⟨fun token' r' h => ?_, fun failure r' h => ?_⟩
    · rw [← h]
      simp only [retake, Feed.precede, peek, List.append_assoc, List.singleton_append]
    · cases h
  | broken failure =>
    refine ⟨fun token' r' h => ?_, fun failure' r' h => ?_⟩
    · cases h
    · cases h
      exact ⟨_, rfl⟩

/-- The reading looks at the token that the lexer comes to past comments, which wait from then on, or
fails as the lexer does. -/
def Sees (lexer : Lexer) (r : Reading σ) : Prop :=
  ∃ comments result lexer', lexer.Skims comments result lexer' ∧
    (∀ token, result = .ok token → peek r = .ok token
      (retake r (Feed.ofLexing (Lexing.ofLexer lexer')) (r.comments ++ comments))) ∧
    ∀ failure, result = .error failure → ∃ r', peek r = .error failure r'

theorem sees_of_error (hnext : lexer.next = (.error failure, lexer'))
    (hr : r.feed = Feed.ofLexing (Lexing.ofLexer lexer)) : Sees lexer r := by
  have hself : retake r r.feed r.comments = r := rfl
  have hlook : lexer.peek = (.error failure, lexer') := by rw [Lexer.peek_eq, hnext]
  refine ⟨[], _, _, .flaw hlook, nofun, ?_⟩
  rintro _ ⟨⟩
  rw [Lexing.ofLexer_of_error hnext] at hr
  rw [← hself, hr]
  exact ⟨_, rfl⟩

/-- The end of the file stays in both. -/
theorem sees_of_eof (hnext : lexer.next = (.ok token, lexer')) (heof : token.kind = .eof)
    (hr : r.feed = Feed.ofLexing (Lexing.ofLexer lexer)) : Sees lexer r := by
  have hself : retake r r.feed r.comments = r := rfl
  have hlook : lexer.peek = (.ok token, { lexer' with lookahead := some token }) := by
    rw [Lexer.peek_eq, hnext]
  have hsame := Lexing.ofLexer_congr (Lexer.next_of_peek hlook).2
  refine ⟨[], _, _, .token hlook fun text => heof ▸ TokenKind.noConfusion, ?_, nofun⟩
  rintro _ ⟨⟩
  obtain ⟨kind, position⟩ := token
  obtain rfl : kind = .eof := heof
  rw [hsame, ← hself, hr, Lexing.ofLexer_of_eof hnext rfl, Feed.ofLexing_eof rfl]
  rfl

theorem sees_of_token (hnext : lexer.next = (.ok token, lexer')) (heof : token.kind ≠ .eof)
    (hother : ∀ text, token.kind ≠ .comment text)
    (hr : r.feed = Feed.ofLexing (Lexing.ofLexer lexer)) : Sees lexer r := by
  have hself : retake r r.feed r.comments = r := rfl
  have hlook : lexer.peek = (.ok token, { lexer' with lookahead := some token }) := by
    rw [Lexer.peek_eq, hnext]
  have hsame := Lexing.ofLexer_congr (Lexer.next_of_peek hlook).2
  refine ⟨[], _, _, .token hlook hother, ?_, nofun⟩
  rintro _ ⟨⟩
  rw [Lexing.ofLexer_of_ok hnext heof, Feed.ofLexing_onto, Feed.push_eq_more heof hother] at hr
  rw [hsame, Lexing.ofLexer_of_ok hnext heof, Feed.ofLexing_onto, Feed.push_eq_more heof hother,
    ← hself, hr, List.append_nil]
  rfl

/-- A comment is passed, and the reading goes on as if it waited already. -/
theorem Sees.comment {text : String} {position : Position}
    (hnext : lexer.next = (.ok ⟨.comment text, position⟩, lexer'))
    (hr : r.feed = Feed.ofLexing (Lexing.ofLexer lexer))
    (h : Sees lexer' (retake r (Feed.ofLexing (Lexing.ofLexer lexer'))
      (r.comments ++ [⟨text, position⟩]))) : Sees lexer r := by
  have hself : retake r r.feed r.comments = r := rfl
  have hlook : lexer.peek = (.ok ⟨.comment text, position⟩,
      { lexer' with lookahead := some ⟨.comment text, position⟩ }) := by
    rw [Lexer.peek_eq, hnext]
  have htake := (Lexer.next_of_peek hlook).2.trans hnext
  obtain ⟨comments, result, last, hskims, hok, herror⟩ := h
  have hprecede := peek_precede ⟨text, position⟩ (Feed.ofLexing (Lexing.ofLexer lexer')) r
  rw [Lexing.ofLexer_of_ok hnext TokenKind.noConfusion, Feed.ofLexing_onto] at hr
  refine ⟨_, result, last, .comment hlook htake hskims, fun token h => ?_, fun failure h => ?_⟩
  · have hpeek := hprecede.1 _ _ (hok token h)
    rw [← hself, hr, List.append_cons]
    exact hpeek
  · obtain ⟨r', hpeek⟩ := herror failure h
    rw [← hself, hr]
    exact hprecede.2 _ _ hpeek

/-- A reading of what a lexer will give looks at the token that the lexer comes to, by induction on what is
pending. -/
theorem peek_skims (hs : lexer.Steady) (r : Reading σ)
    (hr : r.feed = Feed.ofLexing (Lexing.ofLexer lexer)) : Sees lexer r := by
  induction hn : lexer.pending using Nat.strongRecOn generalizing lexer r with
  | ind n ih =>
  subst hn
  cases hnext : lexer.next with
  | mk result after =>
    cases result with
    | error failure => exact sees_of_error hnext hr
    | ok token =>
      by_cases heof : token.kind = .eof
      · exact sees_of_eof hnext heof hr
      by_cases hcomment : ∃ text, token.kind = .comment text
      · obtain ⟨text, htext⟩ := hcomment
        obtain ⟨kind, position⟩ := token
        obtain rfl : kind = .comment text := htext
        exact .comment hnext hr
          (ih after.pending (Lexer.pending_next_lt hnext heof) (.next hnext) _ rfl rfl)
      · exact sees_of_token hnext heof (fun text h => hcomment ⟨text, h⟩) hr

/-- Taking the token that was looked at goes on in the reading as in the lexer. -/
theorem advance_next (hs : lexer.Steady) (hlook : lexer.lookahead = some token)
    (hother : ∀ text, token.kind ≠ .comment text)
    (hr : r.feed = Feed.ofLexing (Lexing.ofLexer lexer)) :
    advance r = .ok () (retake r (Feed.ofLexing (Lexing.ofLexer lexer.next.2)) r.comments) := by
  have hself : retake r r.feed r.comments = r := rfl
  have hnext : lexer.next = (.ok token, lexer.next.2) := by rw [Lexer.next, hlook]
  by_cases heof : token.kind = .eof
  · rw [Lexing.ofLexer_of_eof hnext heof, Feed.ofLexing_eof heof] at hr
    rw [Lexing.ofLexer_of_eof (hs.next_of_eof hnext heof) heof, Feed.ofLexing_eof heof, ← hself, hr]
    rfl
  · rw [Lexing.ofLexer_of_ok hnext heof, Feed.ofLexing_onto, Feed.push_eq_more heof hother] at hr
    rw [← hself, hr]
    rfl

/-! ## Reading to the end -/

/-- A part of a reading goes on in the feed. -/
def Proceeds (r r' : Reading σ) : Prop :=
  r.feed.Leaves r'.feed

instance : IsPreorder (Reading σ) Proceeds where
  refl _ := .refl _
  trans _ _ _ h h' := h.trans h'

variable {α : Type} {cx : ReadingContext σ}

theorem proceeds_of_same {m : Parse σ α} (h : ∀ r, ∃ x r', m r = .ok x r' ∧ r'.feed = r.feed)
    (r : Reading σ) : Leads Proceeds m r fun _ _ => True := by
  obtain ⟨x, r', hrun, hfeed⟩ := h r
  refine .of_ok hrun ?_ trivial
  rw [Proceeds, hfeed]
  exact .refl _

theorem proceeds_peek (r : Reading σ) : Leads Proceeds peek r fun _ _ => True := by
  obtain ⟨feed, comments, attrs, arena, host⟩ := r
  cases feed with
  | more leading token rest => cases leading <;> exact ⟨.look (.refl _), trivial⟩
  | done leading position => exact ⟨.lookEnd (.refl _), trivial⟩
  | broken failure => exact .refl _

theorem walks_proceeds :
    Walks (fun _ => True) fun (m : Parse σ _) => ∀ r, Leads Proceeds m r fun _ _ => True where
  pure _ _ := Leads.pure trivial
  bind h hf r := (h r).bind fun x r' _ _ => hf x r'
  look h r := (proceeds_peek r).bind fun token r' _ _ => h token trivial r'
  advance r := by
    obtain ⟨feed, comments, attrs, arena, host⟩ := r
    cases feed with
    | more leading token rest => exact ⟨.take (.look (.refl _)), trivial⟩
    | done leading position => exact ⟨.refl _, trivial⟩
    | broken failure => exact ⟨.refl _, trivial⟩
  failAt _ _ _ _ _ := Leads.throw
  build _ := proceeds_of_same fun _ => ⟨_, _, rfl, rfl⟩
  inspect _ := proceeds_of_same fun _ => ⟨_, _, rfl, rfl⟩
  attachComments _ r := (proceeds_peek r).bind fun _ r' _ _ => ⟨.refl _, trivial⟩
  attachAllComments _ := proceeds_of_same fun _ => ⟨_, _, rfl, rfl⟩
  holdAttr _ := proceeds_of_same fun _ => ⟨_, _, rfl, rfl⟩
  attachAttrs _ := proceeds_of_same fun _ => ⟨_, _, rfl, rfl⟩

theorem proceeds_importPackage (path : String) (position : Position) (r : Reading σ) :
    Leads Proceeds (importPackage cx path position) r fun _ _ => True := by
  obtain ⟨feed, comments, attrs, arena, host⟩ := r
  unfold Leads importPackage
  dsimp only
  split
  · rename_i hrun
    split at hrun <;> cases hrun
    exact ⟨.refl _, trivial⟩
  · rename_i hrun
    split at hrun <;> cases hrun
    exact .refl _

/-- A token that was taken is gone from the feed, unless it is the end of the file. -/
theorem proceeds_next {kinds : List TokenKind} (hs : r.feed.Spells kinds) :
    Leads Proceeds next r fun token r' => (token.kind = .eof ∧ r'.feed.failure = none) ∨
      token.kind ≠ .eof ∧ r'.feed.size < r.feed.size := by
  obtain ⟨feed, comments, attrs, arena, host⟩ := r
  cases hs with
  | @more leading token rest kind kinds hkind hne =>
    have hsize := Feed.size_more leading token rest
    have hleaves : (Feed.more leading token rest).Leaves rest := .take (.look (.refl _))
    have hlt : rest.size < (Feed.more leading token rest).size := by omega
    cases leading <;> exact ⟨hleaves, Or.inr ⟨hkind ▸ hne, hlt⟩⟩
  | done => exact ⟨.lookEnd (.refl _), Or.inl ⟨rfl, rfl⟩⟩
  | broken => exact .refl _

/-- A round of declarations takes a token, and the last one sees the end of the file. -/
theorem proceeds_declaration {kinds : List TokenKind} (hs : r.feed.Spells kinds) :
    Leads Proceeds (declaration cx) r fun more r' =>
      (more = false → r'.feed.failure = none) ∧ (more = true → r'.feed.size < r.feed.size) := by
  refine (walks_proceeds.attributes r).bind fun _ r₁ hr₁ _ => ?_
  obtain ⟨_, hs₁⟩ := hr₁.spells hs
  refine (proceeds_next hs₁).bind fun token r₂ hr₂ htaken => ?_
  have hdeclared : ∀ {m : Parse σ Unit}, token.kind ≠ .eof →
      (∀ r, Leads Proceeds m r fun _ _ => True) →
      Leads Proceeds (do m; Pure.pure true) r₂ fun more r' =>
        (more = false → r'.feed.failure = none) ∧ (more = true → r'.feed.size < r.feed.size) := by
    intro m hne hm
    refine (hm r₂).bind fun _ r₃ hr₃ _ => Leads.pure ⟨nofun, fun _ => ?_⟩
    have hlt := (htaken.resolve_left fun h => hne h.1).2
    have hle₁ := hr₁.size_le
    have hle₃ := hr₃.size_le
    omega
  split
  · rename_i heof
    exact Leads.pure ⟨fun _ => (htaken.resolve_right fun h => h.1 heof).2, nofun⟩
  · exact hdeclared (by simp [*]) walks_proceeds.enumDeclaration
  · exact hdeclared (by simp [*]) (walks_proceeds.tableDeclaration false)
  · exact hdeclared (by simp [*]) (walks_proceeds.tableDeclaration true)
  · exact hdeclared (by simp [*]) walks_proceeds.contractDeclaration
  · exact Leads.throw

/-- Declarations are read up to the end of the file. -/
theorem failure_of_declarations : ∀ (fuel : Nat) {r r' : Reading σ} {kinds : List TokenKind},
    r.feed.Spells kinds → r.feed.size < fuel →
    repeatWhile (declaration cx) fuel r = .ok () r' → r'.feed.failure = none
  | 0, _, _, _, _, hfuel, _ => absurd hfuel (Nat.not_lt_zero _)
  | fuel + 1, r, r', kinds, hs, hfuel, h => by
    obtain ⟨more, r₁, hround, hrest⟩ := of_bind_ok h
    obtain ⟨hround', hlast, hmore⟩ := (proceeds_declaration hs).ok hround
    cases more with
    | false =>
      cases hrest
      exact hlast rfl
    | true =>
      obtain ⟨_, hspells⟩ := hround'.spells hs
      exact failure_of_declarations fuel hspells (by have := hmore rfl; omega) hrest

/-- A script that is read to its end has no lexical failure. -/
theorem failure_of_script {kinds : List TokenKind} (hs : r.feed.Spells kinds)
    (hbudget : r.feed.size < cx.budget) (h : script cx r = .ok () r') : r.feed.failure = none := by
  obtain ⟨_, r₁, himports, h₁⟩ := of_bind_ok h
  obtain ⟨_, r₂, himplicit, h₂⟩ := of_bind_ok h₁
  obtain ⟨_, r₃, hdeclarations, -⟩ := of_bind_ok h₂
  have hleaves : Proceeds r r₂ := trans_of Proceeds
    ((walks_proceeds.repeatWhile (walks_proceeds.importStatement proceeds_importPackage) _ r).ok
      himports).1
    ((walks_proceeds.implicitImport proceeds_importPackage r₁).ok himplicit).1
  obtain ⟨_, hspells⟩ := hleaves.spells hs
  have hend := failure_of_declarations cx.budget hspells
    (Nat.lt_of_le_of_lt hleaves.size_le hbudget) hdeclarations
  rw [← hleaves.failure_eq,
    ← ((walks_proceeds.repeatWhile walks_proceeds.declaration _ r₂).ok hdeclarations).1.failure_eq]
  exact hend

end Parse

/-- Where imports succeed, a script fails with the failure of the lexer or in the phase of the
grammar, and a script that is read has no lexical failure. -/
theorem complete_of_readScript {σ : Type} {importer : Importer σ} {script : NodeId}
    {source : Source} {a : Arena} {host : σ} :
    (∀ y, readScript importer script source (a, host) = .ok () y →
      ∃ tokens, (Lexing.ofSource (a.scriptFile script) source).complete = .ok tokens) ∧
    ((∀ path position x, ∃ package y, importer path position x = .ok package y) →
      ∀ failure y, readScript importer script source (a, host) = .error failure y →
        failure.cause.phase = .lexer →
        (Lexing.ofSource (a.scriptFile script) source).complete = .error failure) := by
  have hspells := Lexing.spells_ofSource (a.scriptFile script) source
  have hfailure := Feed.failure_ofSource (a.scriptFile script) source
  unfold readScript
  dsimp only
  generalize Feed.ofLexing _ = feed at hspells hfailure ⊢
  generalize hcx : (⟨script, a.scriptFile script, (a.packageName? script).getD "",
    feed.size + 1, importer⟩ : ReadingContext σ) = cx
  constructor
  · intro y hrun
    split at hrun
    · rename_i reading hscript
      have hnone := Parse.failure_of_script (r := ⟨feed, [], [], a, host⟩) hspells
        (by subst hcx; exact Nat.lt_succ_self _) hscript
      refine ⟨(Lexing.ofSource (a.scriptFile script) source).tokens, ?_⟩
      rw [Lexing.complete, ← hfailure, show feed.failure = none from hnone]
    · cases hrun
  · intro himport failure y hrun hphase
    have hconfined : Parse.Confined (Parse.script cx) := by
      refine Parse.walks_confined.script fun path position r => ?_
      obtain ⟨feed, comments, attrs, arena, host⟩ := r
      obtain ⟨package, ⟨a', host'⟩, hanswer⟩ : ∃ package y,
          cx.importer path position (arena, host) = .ok package y := by
        subst hcx
        exact himport path position (arena, host)
      have hrun : Parse.importPackage cx path position ⟨feed, comments, attrs, arena, host⟩ =
          .ok package ⟨feed, comments, attrs, a', host'⟩ := by
        unfold Parse.importPackage
        dsimp only
        rw [hanswer]
      exact .of_ok hrun rfl
    split at hrun
    · cases hrun
    · rename_i failure' reading hscript
      cases hrun
      rcases (hconfined _).error hscript with hlexical | hparse
      · rw [Lexing.complete, ← hfailure, show feed.failure = some failure from hlexical]
      · rw [hphase] at hparse
        cases hparse

/-- A file whose first failure is behind one token. -/
def brokenSource : Source :=
  ⟨['@', '"'], true⟩

/-- Asked for tokens in any order of looks and takes, a lexer gives those of the whole file in turn,
then its end for ever or its failure, and a look gives the token that is taken next. What the grammar
looks at and takes is what it would get from the lexer, comments aside. So where imports succeed, a
script that fails in the phase of the lexer fails as the whole file does, and a script that is read
has no lexical failure. -/
theorem lexer_agrees (file : String) (source : Source) :
    (∀ (taken : List Token) (lexer : Lexer), Lexer.Gives file source taken lexer →
      (∀ (i : Nat) (hi : i < taken.length), (Lexing.ofSource file source).answer i = .ok taken[i]) ∧
      lexer.peek.1 = (Lexing.ofSource file source).answer taken.length ∧
      lexer.next.1 = (Lexing.ofSource file source).answer taken.length ∧
      (∀ token lexer', lexer.peek = (.ok token, lexer') → lexer'.next = lexer.next) ∧
      ∀ {σ : Type} (r : Reading σ), r.feed = Feed.ofLexing (Lexing.ofLexer lexer) →
        ∃ comments result lexer', lexer.Skims comments result lexer' ∧
          (∀ failure, result = .error failure → ∃ r', Parse.peek r = .error failure r') ∧
          ∀ token, result = .ok token →
            Lexer.Gives file source (taken ++ comments.map Comment.token) lexer' ∧
            ∃ r', Parse.peek r = .ok token r' ∧ r'.comments = r.comments ++ comments ∧
              r'.feed = Feed.ofLexing (Lexing.ofLexer lexer') ∧
              ∃ r'', Parse.advance r' = .ok () r'' ∧
                r''.feed = Feed.ofLexing (Lexing.ofLexer lexer'.next.2)) ∧
    (∀ (n : Nat) (hn : n < (Lexing.ofSource file source).tokens.length),
      (Lexing.ofSource file source).answer n = .ok (Lexing.ofSource file source).tokens[n]) ∧
    (∀ failure, (Lexing.ofSource file source).failure = some failure →
      ∀ n : Nat, (Lexing.ofSource file source).tokens.length ≤ n →
        (Lexing.ofSource file source).answer n = .error failure) ∧
    ((Lexing.ofSource file source).failure = none →
      ∃ before position, (Lexing.ofSource file source).tokens = before ++ [⟨.eof, position⟩] ∧
        ∀ n : Nat, before.length ≤ n →
          (Lexing.ofSource file source).answer n = .ok ⟨.eof, position⟩) ∧
    ∀ {σ : Type} (importer : Importer σ) (script : NodeId) (a : Arena) (host : σ),
      a.scriptFile script = file →
      (∀ y, readScript importer script source (a, host) = .ok () y →
        ∃ tokens, (Lexing.ofSource file source).complete = .ok tokens) ∧
      ((∀ path position x, ∃ package y, importer path position x = .ok package y) →
        ∀ failure y, readScript importer script source (a, host) = .error failure y →
          failure.cause.phase = .lexer →
          (Lexing.ofSource file source).complete = .error failure) := by
  refine ⟨fun taken lexer h => ⟨h.taken_eq, h.answers.1, h.answers.2,
    fun token lexer' hpeek => (Lexer.next_of_peek hpeek).2, fun r hr => ?_⟩,
    fun n hn => Lexing.answer_of_lt hn, fun failure hf n hn => Lexing.answer_of_failure hn hf,
    fun hnone => ?_, fun importer script a host hfile => hfile ▸ complete_of_readScript⟩
  · obtain ⟨comments, result, lexer', hskims, hok, herror⟩ := Parse.peek_skims h.steady r hr
    refine ⟨comments, result, lexer', hskims, herror, fun token hresult => ?_⟩
    obtain ⟨hgives, hlook, hother⟩ := hskims.gives hresult h
    exact ⟨hgives, _, hok token hresult, rfl, rfl, _,
      Parse.advance_next hgives.steady hlook hother rfl, rfl⟩
  · obtain ⟨before, ⟨kind, position⟩, htokens, rfl, -⟩ := Lexing.ends file source hnone
    refine ⟨before, position, htokens, fun n hn => ?_⟩
    rw [Lexing.answer, htokens, hnone, List.getLastD_concat]
    rcases Nat.eq_or_lt_of_le hn with rfl | hlt
    · rw [List.getElem?_concat_length]
    · rw [List.getElem?_eq_none (by rw [List.length_append]; exact hlt)]

/-- A quote that is not closed comes behind one token. The lexer fails when this token is taken, and so
does the script. -/
theorem lexer_agrees_broken :
    (∃ lexer, Lexer.Gives "a" brokenSource [⟨.char '@', ⟨"a", 1, 1⟩⟩] lexer ∧
      lexer.peek.1 = .error ⟨.unterminatedString, ⟨"a", 1, 2⟩⟩ ∧ lexer.next.1 = lexer.peek.1) ∧
    (Lexing.ofSource "" brokenSource).complete = .error ⟨.unterminatedString, ⟨"", 1, 2⟩⟩ := by
  have hstep : (Lexer.ofSource "a" brokenSource).next = (.ok ⟨.char '@', ⟨"a", 1, 1⟩⟩,
      ⟨"a", ['"'], true, ⟨1, 2⟩, none⟩) := rfl
  have hgives := Lexer.Gives.start.next hstep
  obtain ⟨-, hpeek, hnext, -⟩ := (lexer_agrees "a" brokenSource).1 _ _ hgives
  refine ⟨⟨_, hgives, hpeek.trans rfl, hnext.trans hpeek.symm⟩, ?_⟩
  exact ((lexer_agrees "" brokenSource).2.2.2.2 (fun _ _ s => .ok 0 s) 0 Arena.empty () rfl).2
    (fun _ _ x => ⟨0, x, rfl⟩) _ _ rfl rfl

end SchemaLang
