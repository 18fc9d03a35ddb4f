import SchemaLang.Proofs.Grammar.Answering
import SchemaLang.Proofs.Grammar.Failing

/-!
# Where imports stand

A script that fails at an import need not be read to its end, and the statement of the import need not
either. So what a script imports is said here of the tokens before the path, with the place where the
path stands; the built-in package, where it is imported unasked, stands at the start of the file.

A reading fails with the lexical failure of the file, in the phase of the grammar, or as the host does
for an import of the script, at its place (`fault_readScript`).

* `Phrase.ImportsAt`: the imports of a script with their places.
* `Fault`: what a script can fail with.
* `Parse.Passed`: the state of a reading, against the tokens that it has taken.
-/

namespace SchemaLang

open Arena NodeKind

/-! ## The tokens of a feed -/

/-- The tokens of a source that are no comments, with their places in a file. -/
def Text.Source.tokens (source : Source) (file : String) : List Token :=
  (Lexing.ofSource file source).tokens.filter fun token => token.kind.isSignificant

namespace Feed

/-- The tokens of a feed, of which the end of the file is the last. -/
def tokens : Feed → List Token
  | more _ token rest => token :: rest.tokens
  | done _ position => [⟨.eof, position⟩]
  | broken _ => []

theorem tokens_precede (comment : Comment) (feed : Feed) :
    (feed.precede comment).tokens = feed.tokens := by
  cases feed <;> rfl

theorem tokens_push {token : Token} (hne : token.kind ≠ .eof) (feed : Feed) :
    (feed.push token).tokens = [token].filter (fun token => token.kind.isSignificant) ++
      feed.tokens := by
  obtain ⟨kind, position⟩ := token
  cases kind with
  | comment text => exact tokens_precede ..
  | eof => exact absurd rfl hne
  | _ => rfl

theorem tokens_foldr {tokens : List Token} (hne : ∀ token ∈ tokens, token.kind ≠ .eof)
    (last : Feed) : (tokens.foldr push last).tokens =
      tokens.filter (fun token => token.kind.isSignificant) ++ last.tokens := by
  induction tokens with
  | nil => rfl
  | cons token tokens ih =>
    rw [List.forall_mem_cons] at hne
    rw [List.foldr_cons, tokens_push hne.1, ih hne.2, ← List.append_assoc, ← List.filter_append,
      List.singleton_append]

/-- The tokens of the feed of a file are those of the file that are no comments. -/
theorem tokens_ofSource (file : String) (source : Text.Source) :
    (ofLexing (Lexing.ofSource file source)).tokens = source.tokens file := by
  unfold Text.Source.tokens
  cases hfailure : (Lexing.ofSource file source).failure with
  | none =>
    obtain ⟨init, ⟨kind, position⟩, htokens, rfl, hinit⟩ := Lexing.ends file source hfailure
    unfold ofLexing
    rw [htokens, List.foldr_append, tokens_foldr hinit, List.filter_append]
    rfl
  | some failure =>
    have hne := Lexing.ends_or_broken _ (.ofSource file source) [] (List.forall_mem_nil _)
      (by rw [show (Lexing.read _ _ _).failure = _ from hfailure]; exact Option.some_ne_none _)
    unfold ofLexing
    rw [hfailure]
    exact (tokens_foldr hne _).trans (List.append_nil _)

theorem length_tokens_le : ∀ feed : Feed, feed.tokens.length ≤ feed.size + 1
  | more leading token rest => by
    have hle := length_tokens_le rest
    rw [size_more, tokens, List.length_cons]
    omega
  | done _ _ => Nat.le_refl _
  | broken _ => Nat.zero_le _

end Feed

/-! ## Imports with their places -/

namespace Phrase

/-- The tokens before a clause: import statements, then the keyword of one more, and where this one is a
group, the clauses of it that come first. -/
def beforeClause (statements : List ImportStatement) (group : Option (List Import)) :
    List TokenKind :=
  statements.flatMap ImportStatement.tokens ++ .keyword .imports ::
    (match group with
      | none => []
      | some clauses => .char '(' :: clauses.flatMap Import.tokens)

/-- A script of the package `name`, with these tokens in the file `file`, imports a package: its path is
a string at the position. -/
inductive ImportsAt (name file : String) (tokens : List Token) : String → Position → Prop where
  | written {before after : List Token} {token : Token} {path : String}
      {statements : List ImportStatement} {group : Option (List Import)} {bound : Option String}
      (split : tokens = before ++ token :: after) (kind : token.kind = .string path)
      (front : before.map Token.kind =
        beforeClause statements group ++ (bound.map TokenKind.ident).toList) :
    ImportsAt name file tokens path token.position
  /-- The built-in package, where its alias is not bound. -/
  | builtin {before after : List Token} {statements : List ImportStatement}
      (split : tokens = before ++ after)
      (front : before.map Token.kind = statements.flatMap ImportStatement.tokens)
      (stop : (after.map Token.kind).head? ≠ some (.keyword .imports))
      (other : name ≠ Prelude.packageName)
      (unbound : ∀ clause ∈ statements.flatMap ImportStatement.clauses,
        clause.boundAs ≠ Prelude.packageName) :
    ImportsAt name file tokens Prelude.packageName ⟨file, 1, 1⟩

end Phrase

variable {σ : Type} {importer : Importer σ} {p : Nat}

/-- What a script of the package `name` fails with: the lexical failure of the file, what is wrong in its
grammar, or what the host answers to one of its imports. -/
inductive Fault (hosting : Hosting importer p) (name file : String) (tokens : List Token)
    (lexical : Option Diagnostic) (failure : Diagnostic) : Prop where
  | lexed (eq : lexical = some failure)
  | parsed (phase : failure.cause.phase = .parse)
  | imported {path : String} {position : Position} {a : Arena} {host : σ} {y : Arena × σ}
      (imports : Phrase.ImportsAt name file tokens path position) (inv : hosting.Inv a host)
      (answer : importer path position (a, host) = .error failure y)

namespace Parse

variable {cx : ReadingContext σ} {hosting : Hosting cx.importer p} {tokens before : List Token}
  {lexical : Option Diagnostic} {aliases : List String} {r r' : Reading σ}

/-- What a reading fails with. -/
abbrev Faults (hosting : Hosting cx.importer p) (tokens : List Token) (lexical : Option Diagnostic)
    (failure : Diagnostic) (_ : Reading σ) : Prop :=
  Fault hosting cx.package cx.file tokens lexical failure

/-- A part that imports nothing. -/
theorem Confined.faults {α : Type} {m : Parse σ α} (h : Confined m)
    (hfailure : r.feed.failure = lexical) :
    Ends m r (fun _ r' => r'.feed.failure = lexical) (Faults hosting tokens lexical) := by
  subst hfailure
  exact (h r).mono (fun _ _ => id) fun _ _ he => he.elim (fun he => .lexed he) fun he => .parsed he

/-- The tokens of the file up to `before` are taken, and the script lists these aliases. -/
structure Passed (hosting : Hosting cx.importer p) (tokens : List Token)
    (lexical : Option Diagnostic) (before : List Token) (aliases : List String) (r : Reading σ) :
    Prop where
  stands : Stands hosting r []
  script : r.arena.HasKind cx.script (ImportsAre p aliases)
  split : tokens = before ++ r.feed.tokens
  spells : ∃ kinds, r.feed.Spells kinds
  failure : r.feed.failure = lexical

namespace Passed

/-- The state between imports, for a host of which nothing else is known. -/
theorem imported (h : Passed hosting tokens lexical before aliases r) :
    ∃ kinds, Imported hosting (fun _ _ => True) aliases [] kinds r := by
  obtain ⟨kinds, hs⟩ := h.spells
  exact ⟨kinds, h.stands, hs, h.script, nofun⟩

theorem recalls (hosting : Hosting cx.importer p) : hosting.Recalls fun _ _ => True :=
  ⟨fun _ _ => ⟨trivial, fun _ => id⟩, fun _ _ _ => id⟩

/-! ## Tokens -/

theorem peek (h : Passed hosting tokens lexical before aliases r) :
    Ends Parse.peek r (fun token r' => Passed hosting tokens lexical before aliases r' ∧
      ∃ rest, r'.feed.tokens = token :: rest) (Faults hosting tokens lexical) := by
  obtain ⟨hstands, hscript, hsplit, ⟨kinds, hs⟩, hfailure⟩ := h
  obtain ⟨feed, comments, attrs, arena, host⟩ := r
  cases hs with
  | @more leading token rest kind kinds hkind hne hrest =>
    have hmore : Feed.Spells (.more [] token rest) (kind :: kinds) := .more hkind hne hrest
    cases leading with
    | nil => exact ⟨⟨hstands, hscript, hsplit, ⟨_, hmore⟩, hfailure⟩, _, rfl⟩
    | cons comment others =>
      exact ⟨⟨hstands.retake .., hscript, hsplit, ⟨_, hmore⟩, hfailure⟩, _, rfl⟩
  | done => exact ⟨⟨hstands.retake .., hscript, hsplit, ⟨_, .done⟩, hfailure⟩, _, rfl⟩
  | broken => exact .lexed hfailure.symm

theorem advance (h : Passed hosting tokens lexical before aliases r) {token : Token}
    {rest : List Token} (ht : r.feed.tokens = token :: rest) (hne : token.kind ≠ .eof) :
    Ends Parse.advance r (fun _ r' => Passed hosting tokens lexical (before ++ [token]) aliases r')
      (Faults hosting tokens lexical) := by
  obtain ⟨hstands, hscript, hsplit, ⟨kinds, hs⟩, hfailure⟩ := h
  obtain ⟨feed, comments, attrs, arena, host⟩ := r
  cases hs with
  | @more leading token' after kind kinds hkind _ hrest =>
    cases ht
    refine ⟨hstands.retake .., hscript, ?_, ⟨_, hrest⟩, hfailure⟩
    rw [hsplit, List.append_assoc]
    rfl
  | done =>
    cases ht
    exact absurd rfl hne
  | broken => cases ht

theorem next (h : Passed hosting tokens lexical before aliases r) :
    Ends Parse.next r (fun token r' => token.kind ≠ .eof →
      Passed hosting tokens lexical (before ++ [token]) aliases r')
      (Faults hosting tokens lexical) := by
  refine h.peek.bind fun token r₁ ⟨h₁, rest, ht⟩ => ?_
  by_cases hne : token.kind = .eof
  · exact (confined_advance.faults h₁.failure).bind fun _ r₂ _ hne' => absurd hne hne'
  · exact (h₁.advance ht hne).bind fun _ r₂ h₂ _ => h₂

theorem nextIs (h : Passed hosting tokens lexical before aliases r) (c : Char) :
    Ends (Parse.nextIs c) r (fun found r' => Passed hosting tokens lexical before aliases r' ∧
      ∃ token rest, r'.feed.tokens = token :: rest ∧ found = (token.kind == .char c))
      (Faults hosting tokens lexical) :=
  h.peek.bind fun token _ ⟨h₁, rest, ht⟩ => ⟨h₁, token, rest, ht, rfl⟩

theorem matchChar (h : Passed hosting tokens lexical before aliases r) (c : Char) :
    Ends (Parse.matchChar c) r (fun found r' =>
      (found = true → ∃ token : Token, token.kind = .char c ∧
        Passed hosting tokens lexical (before ++ [token]) aliases r') ∧
      (found = false → Passed hosting tokens lexical before aliases r'))
      (Faults hosting tokens lexical) := by
  refine (h.nextIs c).bind fun found r₁ ⟨h₁, token, rest, ht, hfound⟩ => ?_
  cases found with
  | true =>
    have hkind : token.kind = .char c := eq_of_beq hfound.symm
    refine (h₁.advance ht (by rw [hkind]; exact TokenKind.noConfusion)).bind fun _ r₂ h₂ => ?_
    exact ⟨fun _ => ⟨token, hkind, h₂⟩, nofun⟩
  | false => exact ⟨nofun, fun _ => h₁⟩

theorem expectChar (h : Passed hosting tokens lexical before aliases r) (c : Char) :
    Ends (Parse.expectChar c) r (fun _ r' => ∃ token : Token, token.kind = .char c ∧
      Passed hosting tokens lexical (before ++ [token]) aliases r')
      (Faults hosting tokens lexical) := by
  refine h.next.bind fun token r₁ h₁ => ?_
  by_cases hkind : token.kind = .char c
  · rw [if_pos (by rw [hkind]; exact beq_self_eq_true _)]
    exact ⟨token, hkind, h₁ (by rw [hkind]; exact TokenKind.noConfusion)⟩
  · rw [if_neg (by simpa using hkind)]
    exact .parsed rfl

theorem expectString (h : Passed hosting tokens lexical before aliases r) (what : String) :
    Ends (Parse.expectString what) r (fun value r' => ∃ token : Token,
      token.kind = .string value.1 ∧ token.position = value.2 ∧
        Passed hosting tokens lexical (before ++ [token]) aliases r')
      (Faults hosting tokens lexical) := by
  refine h.next.bind fun token r₁ h₁ => ?_
  obtain ⟨kind, position⟩ := token
  cases kind with
  | string value => exact ⟨_, rfl, rfl, h₁ TokenKind.noConfusion⟩
  | _ => exact .parsed rfl

/-! ## One import -/

/-- The host answers an import of the script, and its alias is bound. -/
theorem importsAt (h : Passed hosting tokens lexical before aliases r) (name : String)
    {path : String} {position : Position}
    (hi : Phrase.ImportsAt cx.package cx.file tokens path position) :
    Ends (do
      let package ← importPackage cx path position
      bindImport cx name package position) r
      (fun node r' => Passed hosting tokens lexical before (aliases ++ [name]) r' ∧
        r'.arena.Own cx.script node) (Faults hosting tokens lexical) := by
  obtain ⟨kinds, himported⟩ := h.imported
  cases hanswer : importPackage cx path position r with
  | error failure r₁ =>
    refine .of_error (bind_error hanswer) ?_
    obtain ⟨feed, comments, attrs, a, host⟩ := r
    unfold importPackage at hanswer
    dsimp only at hanswer
    split at hanswer
    · cases hanswer
    · rename_i hrefused
      cases hanswer
      exact .imported hi h.stands.inv hrefused
  | ok q r₁ =>
    obtain ⟨h₁, hl, hserved⟩ := himported.answered (recalls hosting) hanswer
    have hfeed : r₁.feed = r.feed := by
      obtain ⟨feed, comments, attrs, a, host⟩ := r
      unfold importPackage at hanswer
      dsimp only at hanswer
      split at hanswer
      · cases hanswer
        rfl
      · cases hanswer
    cases hbind : bindImport cx name q position r₁ with
    | error failure r₂ =>
      refine .of_error ((bind_ok hanswer).trans hbind) ?_
      have hconfined : Confined (bindImport cx name q position) :=
        walks_confined.buildUnique _ _ _ fun a => a.reckons_newPackageRef ..
      exact (hconfined.faults (by rw [hfeed]; exact h.failure)).error hbind
    | ok node r₂ =>
      refine .of_ok ((bind_ok hanswer).trans hbind) ?_
      obtain ⟨h₂, hown⟩ := h₁.bound hl hserved hbind
      have hfeed₂ : r₂.feed = r.feed := (feed_of_buildUnique hbind).trans hfeed
      exact ⟨⟨h₂.stands, h₂.script, by rw [hfeed₂]; exact h.split, by rw [hfeed₂]; exact h.spells,
        by rw [hfeed₂]; exact h.failure⟩, hown⟩

theorem attachComments {node : NodeId} (h : Passed hosting tokens lexical before aliases r)
    (hn : r.arena.Own cx.script node) :
    Ends (Parse.attachComments node) r (fun _ r' => Passed hosting tokens lexical before aliases r')
      (Faults hosting tokens lexical) := by
  cases hrun : Parse.attachComments node r with
  | error failure r₁ =>
    exact .of_error hrun (((walks_confined.attachComments node).faults h.failure).error hrun)
  | ok _ r₁ =>
    obtain ⟨kinds, himported⟩ := h.imported
    have h₁ := himported.commented hn hrun
    obtain ⟨token, r₂, hpeek, hrest⟩ := of_bind_ok hrun
    have h₂ := (h.peek.ok hpeek).1
    cases hrest
    exact .of_ok hrun ⟨h₁.stands, h₁.script, h₂.split, h₂.spells, h₂.failure⟩

/-- A path that was taken is an import. -/
theorem written {taken : List Token} {token : Token} {path : String}
    {statements : List Phrase.ImportStatement} {group : Option (List Phrase.Import)}
    (h : Passed hosting tokens lexical (before ++ taken ++ [token]) aliases r)
    (hfront : before.map Token.kind = Phrase.beforeClause statements group)
    (bound : Option String) (htaken : taken.map Token.kind = (bound.map TokenKind.ident).toList)
    (hkind : token.kind = .string path) :
    Phrase.ImportsAt cx.package cx.file tokens path token.position := by
  have hsplit : tokens = before ++ taken ++ token :: r.feed.tokens := by
    rw [h.split, List.append_assoc]
    rfl
  have hkinds : (before ++ taken).map Token.kind =
      Phrase.beforeClause statements group ++ (bound.map TokenKind.ident).toList := by
    rw [List.map_append, hfront, htaken]
  exact .written hsplit hkind hkinds

theorem importClause (h : Passed hosting tokens lexical before aliases r)
    {statements : List Phrase.ImportStatement} {group : Option (List Phrase.Import)}
    (hfront : before.map Token.kind = Phrase.beforeClause statements group) :
    Ends (Parse.importClause cx) r (fun _ r' => ∃ (clause : Phrase.Import) (taken : List Token),
      taken.map Token.kind = clause.tokens ∧
        Passed hosting tokens lexical (before ++ taken) (aliases ++ [clause.boundAs]) r')
      (Faults hosting tokens lexical) := by
  have hrest : ∀ (name path : String) (position : Position) (taken : List Token) (r₁ : Reading σ),
      Passed hosting tokens lexical (before ++ taken) aliases r₁ →
      Phrase.ImportsAt cx.package cx.file tokens path position → Ends (do
        let package ← importPackage cx path position
        let node ← bindImport cx name package position
        Parse.attachComments node) r₁
        (fun _ r' => Passed hosting tokens lexical (before ++ taken) (aliases ++ [name]) r')
        (Faults hosting tokens lexical) := by
    intro name path position taken r₁ h₁ hi
    have himports := h₁.importsAt name hi
    rw [← bind_assoc]
    exact himports.bind fun node r₂ ⟨h₂, hown⟩ => h₂.attachComments hown
  refine h.next.bind fun token r₁ h₁ => ?_
  obtain ⟨kind, position⟩ := token
  cases kind with
  | string path =>
    have h₁ := h₁ TokenKind.noConfusion
    have hpath : Passed hosting tokens lexical (before ++ [] ++ [⟨.string path, position⟩]) aliases r₁ := by
      rw [List.append_nil]
      exact h₁
    have hi := hpath.written hfront none rfl rfl
    exact (hrest _ _ _ _ _ h₁ hi).mono (fun _ r' h' => ⟨⟨none, path⟩, _, rfl, h'⟩) fun _ _ => id
  | ident name =>
    have h₁ := h₁ TokenKind.noConfusion
    simp only [pure_bind]
    refine (h₁.expectString "import path").bind fun value r₂ ⟨token, hkind, hposition, h₂⟩ => ?_
    have hi := h₂.written hfront (some name) rfl hkind
    rw [hposition] at hi
    rw [List.append_assoc] at h₂
    refine (hrest name _ _ _ r₂ h₂ hi).mono (fun _ r' h' => ⟨⟨some name, value.1⟩, _, ?_, h'⟩)
      fun _ _ => id
    simp [Phrase.Import.tokens, hkind]
  | _ => exact .parsed rfl

/-! ## Import statements -/

/-- The clauses of a group, as far as they are read. -/
theorem groupedImports (statements : List Phrase.ImportStatement) :
    ∀ (fuel : Nat) (clauses : List Phrase.Import) (before : List Token) (aliases : List String)
      (r : Reading σ), Passed hosting tokens lexical before aliases r →
      before.map Token.kind = Phrase.beforeClause statements (some clauses) →
      Ends (repeatWhile (groupedImport cx) fuel) r (fun _ r' =>
        ∃ (more : List Phrase.Import) (taken : List Token),
          taken.map Token.kind = more.flatMap Phrase.Import.tokens ∧
            Passed hosting tokens lexical (before ++ taken)
              (aliases ++ more.map Phrase.Import.boundAs) r')
        (Faults hosting tokens lexical)
  | 0, clauses, before, aliases, r, h, _ => ⟨[], [], rfl, by simpa using h⟩
  | fuel + 1, clauses, before, aliases, r, h, hfront => by
    refine (show Ends (groupedImport cx) r (fun more r' => ∃ (one : List Phrase.Import)
        (taken : List Token), taken.map Token.kind = one.flatMap Phrase.Import.tokens ∧
          Passed hosting tokens lexical (before ++ taken) (aliases ++ one.map Phrase.Import.boundAs) r')
        (Faults hosting tokens lexical) from ?_).bind fun more r₁ ⟨one, taken, htaken, h₁⟩ => ?_
    · refine (h.nextIs ')').bind fun closed r₁ ⟨h₁, _⟩ => ?_
      cases closed with
      | true => exact ⟨[], [], rfl, by simpa using h₁⟩
      | false =>
        refine (h₁.importClause hfront).bind fun _ r₂ ⟨clause, taken, htaken, h₂⟩ => ?_
        exact ⟨[clause], taken, by simpa using htaken, h₂⟩
    · cases more with
      | false => exact ⟨one, taken, htaken, h₁⟩
      | true =>
        refine (groupedImports statements fuel (clauses ++ one) _ _ r₁ h₁ ?_).mono
          (fun _ r' ⟨rest, after, hafter, h'⟩ => ⟨one ++ rest, taken ++ after, ?_, ?_⟩) fun _ _ => id
        · rw [List.map_append, hfront, htaken]
          simp [Phrase.beforeClause]
        · rw [List.map_append, htaken, hafter, List.flatMap_append]
        · rwa [List.map_append, ← List.append_assoc, ← List.append_assoc]

theorem importStatement (h : Passed hosting tokens lexical before aliases r)
    {statements : List Phrase.ImportStatement}
    (hfront : before.map Token.kind = statements.flatMap Phrase.ImportStatement.tokens) :
    Ends (Parse.importStatement cx) r (fun more r' =>
      (more = true → ∃ (statement : Phrase.ImportStatement) (taken : List Token),
        taken.map Token.kind = statement.tokens ∧ Passed hosting tokens lexical (before ++ taken)
          (aliases ++ statement.clauses.map Phrase.Import.boundAs) r') ∧
      (more = false → Passed hosting tokens lexical before aliases r' ∧
        (r'.feed.tokens.map Token.kind).head? ≠ some (.keyword .imports)))
      (Faults hosting tokens lexical) := by
  refine h.peek.bind fun token r₁ ⟨h₁, rest, ht⟩ => ?_
  by_cases hkind : token.kind = .keyword .imports
  · rw [if_pos (by rw [hkind]; exact beq_self_eq_true _)]
    refine (h₁.advance ht (by rw [hkind]; exact TokenKind.noConfusion)).bind fun _ r₂ h₂ => ?_
    refine (h₂.matchChar '(').bind fun grouped r₃ h₃ => ?_
    cases grouped with
    | true =>
      obtain ⟨paren, hparen, h₃⟩ := h₃.1 rfl
      have hfront₃ : (before ++ [token] ++ [paren]).map Token.kind =
          Phrase.beforeClause statements (some []) := by
        simp [Phrase.beforeClause, hfront, hkind, hparen]
      refine (groupedImports statements cx.budget [] _ _ r₃ h₃ hfront₃).bind
        fun _ r₄ ⟨clauses, taken, htaken, h₄⟩ => ?_
      refine (h₄.expectChar ')').bind fun _ r₅ ⟨close, hclose, h₅⟩ => ⟨fun _ => ?_, (Bool.noConfusion ·)⟩
      refine ⟨.group clauses, token :: paren :: (taken ++ [close]), ?_, ?_⟩
      · simp [Phrase.ImportStatement.tokens, hkind, hparen, htaken, hclose]
      · simpa [Phrase.ImportStatement.clauses] using h₅
    | false =>
      have h₃ := h₃.2 rfl
      have hfront₃ : (before ++ [token]).map Token.kind = Phrase.beforeClause statements none := by
        simp [Phrase.beforeClause, hfront, hkind]
      refine (h₃.importClause hfront₃).bind fun _ r₄ hr₄ => ⟨fun _ => ?_, (Bool.noConfusion ·)⟩
      obtain ⟨clause, taken, htaken, h₄⟩ := hr₄
      refine ⟨.single clause, token :: taken, ?_, ?_⟩
      · simp [Phrase.ImportStatement.tokens, hkind, htaken]
      · simpa [Phrase.ImportStatement.clauses] using h₄
  · rw [if_neg (by simpa using hkind)]
    refine ⟨(Bool.noConfusion ·), fun _ => ⟨h₁, ?_⟩⟩
    rw [ht]
    simpa using hkind

/-- All import statements. The budget covers them, so where the loop ends none comes next. -/
theorem importStatements : ∀ (fuel : Nat) (statements : List Phrase.ImportStatement)
    (before : List Token) (r : Reading σ), Passed hosting tokens lexical before
      ((statements.flatMap Phrase.ImportStatement.clauses).map Phrase.Import.boundAs) r →
    before.map Token.kind = statements.flatMap Phrase.ImportStatement.tokens →
    tokens.length ≤ before.length + fuel →
    Ends (repeatWhile (Parse.importStatement cx) fuel) r (fun _ r' =>
      ∃ (all : List Phrase.ImportStatement) (front : List Token),
        front.map Token.kind = all.flatMap Phrase.ImportStatement.tokens ∧
          Passed hosting tokens lexical front
            ((all.flatMap Phrase.ImportStatement.clauses).map Phrase.Import.boundAs) r' ∧
          (r'.feed.tokens.map Token.kind).head? ≠ some (.keyword .imports))
      (Faults hosting tokens lexical)
  | 0, statements, before, r, h, hfront, hfuel => by
    refine ⟨statements, before, hfront, h, ?_⟩
    have hlength := congrArg List.length h.split
    rw [List.length_append] at hlength
    have hnil : r.feed.tokens = [] := List.eq_nil_of_length_eq_zero (by omega)
    rw [hnil]
    exact nofun
  | fuel + 1, statements, before, r, h, hfront, hfuel => by
    refine (h.importStatement hfront).bind fun more r₁ ⟨hmore, hstop⟩ => ?_
    cases more with
    | false =>
      obtain ⟨h₁, hhead⟩ := hstop rfl
      exact ⟨statements, before, hfront, h₁, hhead⟩
    | true =>
      obtain ⟨statement, taken, htaken, h₁⟩ := hmore rfl
      refine importStatements fuel (statements ++ [statement]) (before ++ taken) r₁ ?_ ?_ ?_
      · simpa using h₁
      · simp [hfront, htaken]
      · have hpositive : 0 < taken.length := by
          rw [← List.length_map Token.kind, htaken]
          cases statement <;> exact Nat.succ_pos _
        rw [List.length_append]
        omega

theorem implicitImport {statements : List Phrase.ImportStatement}
    (h : Passed hosting tokens lexical before
      ((statements.flatMap Phrase.ImportStatement.clauses).map Phrase.Import.boundAs) r)
    (hfront : before.map Token.kind = statements.flatMap Phrase.ImportStatement.tokens)
    (hstop : (r.feed.tokens.map Token.kind).head? ≠ some (.keyword .imports)) :
    Ends (Parse.implicitImport cx) r (fun _ r' => r'.feed.failure = lexical)
      (Faults hosting tokens lexical) := by
  obtain ⟨-, decl, hkind, -, hnames⟩ := h.script
  have hrun := implicitImport_eq (script?_eq_some.2 hkind)
  split at hrun
  · rename_i hcond
    rw [Bool.and_eq_true, bne_iff_ne, Bool.not_eq_true', Bool.eq_false_iff, Ne, Ne,
      Registry.contains_iff, hnames] at hcond
    have hi : Phrase.ImportsAt cx.package cx.file tokens Prelude.packageName ⟨cx.file, 1, 1⟩ :=
      .builtin h.split hfront hstop hcond.1 fun clause hmem hbound =>
        hcond.2 (List.mem_map.2 ⟨clause, hmem, hbound⟩)
    have himport := (h.importsAt Prelude.packageName hi).mono (fun _ _ h' => h'.1.failure) fun _ _ => id
    have hdone : Ends (do
        let package ← importPackage cx Prelude.packageName ⟨cx.file, 1, 1⟩
        let _ ← bindImport cx Prelude.packageName package ⟨cx.file, 1, 1⟩) r
        (fun _ r' => r'.feed.failure = lexical) (Faults hosting tokens lexical) := by
      rw [← bind_assoc]
      exact himport.bind fun _ _ h' => h'
    unfold Ends at hdone ⊢
    rwa [hrun]
  · exact .of_ok hrun h.failure

end Passed

theorem ends_script (h : Passed hosting tokens lexical [] [] r)
    (hbudget : tokens.length ≤ cx.budget) :
    Ends (script cx) r (fun _ _ => True) (Faults hosting tokens lexical) := by
  have hstatements := Passed.importStatements cx.budget [] [] r h rfl (by simpa using hbudget)
  refine hstatements.bind fun _ r₁ ⟨statements, before, hfront, h₁, hstop⟩ => ?_
  refine (h₁.implicitImport hfront hstop).bind fun _ r₂ hr₂ => ?_
  refine (((walks_confined.repeatWhile confined_declaration cx.budget).bind fun _ =>
    (walks_confined.attachAttrs cx.script).bind fun _ =>
      walks_confined.attachAllComments cx.script).faults
      hr₂).mono (fun _ _ _ => trivial) fun _ _ => id

end Parse

/-- What reading a source into an empty script fails with. -/
theorem fault_readScript {hosting : Hosting importer p} {a : Arena} {host : σ} {script : Nat}
    {source : Text.Source} {y : Arena × σ} {failure : Diagnostic} (hi : hosting.Inv a host)
    (hf : Forest p script (hosting.served host) a [])
    (hs : a.HasKind script (ImportsAre p []))
    (hrun : readScript importer script source (a, host) = .error failure y) :
    Fault hosting (a.name p) (a.scriptFile script) (source.tokens (a.scriptFile script))
      (Lexing.ofSource (a.scriptFile script) source).failure failure := by
  let feed := Feed.ofLexing (Lexing.ofSource (a.scriptFile script) source)
  let cx : ReadingContext σ :=
    ⟨script, a.scriptFile script, (a.packageName? script).getD "", feed.size + 1, importer⟩
  let hosting' : Hosting cx.importer p := hosting
  have hpassed : Parse.Passed hosting' (source.tokens (a.scriptFile script))
      (Lexing.ofSource (a.scriptFile script) source).failure [] [] ⟨feed, [], [], a, host⟩ :=
    ⟨⟨hi, hf, nofun⟩, hs, (Feed.tokens_ofSource ..).symm, ⟨_, Lexing.spells_ofSource ..⟩,
      Feed.failure_ofSource ..⟩
  have hbudget : (source.tokens (a.scriptFile script)).length ≤ cx.budget := by
    rw [← Feed.tokens_ofSource]
    exact Feed.length_tokens_le feed
  have hpackage : cx.package = a.name p := by
    show ((a.packageOf script).map a.name).getD "" = a.name p
    rw [packageOf_of_home hf.script_home]
    rfl
  have hscript := Parse.ends_script hpassed hbudget
  unfold readScript at hrun
  dsimp only at hrun
  split at hrun
  · cases hrun
  · rename_i r hfails
    cases hrun
    have hfault : Fault hosting cx.package (a.scriptFile script) _ _ _ := hscript.error hfails
    rwa [hpackage] at hfault

/-- The file that places in a script of a package name. -/
def Path.shown (file : Option Path) (name : String) : String :=
  match file with
  | some path => path.display
  | none => name

theorem scriptFile_newScript {a b : Arena} {script : Nat} {name : String} {file : Option Path}
    (hp : p < a.size) (h : a.newScript p name file = (.ok script, b)) :
    b.scriptFile script = Path.shown file name := by
  unfold newScript at h
  split at h
  · cases h
  · obtain ⟨hscript, hb⟩ := Prod.mk.inj h
    obtain rfl : a.size = script := Except.ok.inj hscript
    obtain ⟨f, rfl⟩ : ∃ f, b = ((a.alloc name none ⟨name, 1, 1⟩
        (.script ⟨p, file, .empty, #[]⟩)).2.adopt p a.size).updateKind p f := ⟨_, hb.symm⟩
    have hne : a.size ≠ p := Nat.ne_of_gt hp
    unfold scriptFile script? kind Arena.name
    rw [node_updateKind, if_neg fun e => hne e.1, node_adopt, size_alloc,
      if_pos ⟨rfl, Nat.lt_succ_self _⟩, node_alloc, if_pos rfl]
    cases file <;> rfl

/-- What reading one more script of a package fails with, unless its name is taken. -/
theorem fault_readFile {hosting : Hosting importer p} {x y : Arena × σ} (h : hosting.Rests x)
    {name : String} {file : Option Path} {source : Text.Source} {failure : Diagnostic}
    (hrun : Compile.readFile importer p name file source x = .error failure y) :
    name ∈ x.1.scriptNames p ∧ failure = ⟨.duplicateScript name, .unknown⟩ ∨
      Fault hosting (x.1.name p) (Path.shown file name) (source.tokens (Path.shown file name))
        (Lexing.ofSource (Path.shown file name) source).failure failure := by
  obtain ⟨a, host⟩ := x
  obtain ⟨hi, hg⟩ := h
  have ha := hosting.anchored hi
  obtain ⟨decl, hd⟩ := hg.isPackage
  have htries := opened_newScript hd name file
  unfold Tries at htries
  unfold Compile.readFile at hrun
  dsimp only at hrun
  split at hrun
  · rename_i hnew
    cases hrun
    exact Or.inl ⟨mem_scriptNames_of_taken hnew, rfl⟩
  · rename_i script b hnew
    rw [hnew] at htries
    have hopened : Opened p script a b := htries
    have hb : hosting.Inv b host := hosting.built hi (hopened.within hd ha)
    obtain ⟨hgb, hs⟩ := hopened.gathered hd hg ha
    obtain ⟨file', hkind⟩ := hopened.kind_script
    have hname : b.name p = a.name p := hopened.name_eq hd (lt_size_of_home (home_of_package hd))
    have hfault := fault_readScript hb (hgb.forest script hs)
      ⟨lt_size_of_home (home_of_script hkind), _, hkind, rfl, rfl⟩ hrun
    rw [hname, scriptFile_newScript (lt_size_of_home (home_of_package hd)) hnew] at hfault
    exact Or.inr hfault

end SchemaLang
