import SchemaLang.Proofs.Grammar.Entering
import SchemaLang.Proofs.Grammar.Lexing
import SchemaLang.Proofs.Grammar.Packages

/-!
# What a script imports

The imports of a script stand at its start, and reading goes past one only once the host has
answered it. So when a script is read to its end, the host has answered every import that its tokens
write, and that of the built-in package where the script does not bind its alias
(`known_readScript`). Whether it is bound is seen from the aliases that the script lists.

* `Phrase.Imports`: the packages that some tokens import.
* `Hosting.Recalls`: a host that knows what it has answered.
* `Parse.Imported`: the state between two imports.
-/

namespace SchemaLang

open Arena NodeKind

/-- The packages that a script of the package `name` with these tokens imports. -/
inductive Phrase.Imports (name : String) (kinds : List TokenKind) : String → Prop where
  | written {statements : List ImportStatement} {rest : List TokenKind} {clause : Import}
      (start : kinds = statements.flatMap ImportStatement.tokens ++ rest)
      (mem : clause ∈ statements.flatMap ImportStatement.clauses) : Imports name kinds clause.path
  /-- The built-in package, where its alias is not bound. -/
  | builtin {statements : List ImportStatement} {rest : List TokenKind}
      (start : kinds = statements.flatMap ImportStatement.tokens ++ rest)
      (stop : rest.head? ≠ some (.keyword .imports)) (other : name ≠ Prelude.packageName)
      (unbound : ∀ clause ∈ statements.flatMap ImportStatement.clauses,
        clause.boundAs ≠ Prelude.packageName) : Imports name kinds Prelude.packageName

variable {σ : Type} {importer : Importer σ} {p : Nat}

/-! ## Hosts that know what they have answered -/

/-- What the host answers is known from then on, and nothing that is known is forgotten. -/
structure Hosting.Recalls (hosting : Hosting importer p) (Known : String → σ → Prop) : Prop where
  answered : ∀ {path : String} {position : Position} {a b : Arena} {host host' : σ} {q : NodeId},
    hosting.Inv a host → importer path position (a, host) = .ok q (b, host') →
    Known path host' ∧ ∀ other, Known other host → Known other host'
  refused : ∀ {path : String} {position : Position} {a b : Arena} {host host' : σ}
    {failure : Diagnostic}, hosting.Inv a host →
    importer path position (a, host) = .error failure (b, host') →
    ∀ other, Known other host → Known other host'

/-- A host with one more thing in its invariant. -/
def Hosting.alongside (hosting : Hosting importer p) (J : Arena → σ → Prop)
    (built : ∀ {a b : Arena} {host : σ}, hosting.Inv a host → J a host →
      Within p (hosting.served host) a b → J b host)
    (answered : ∀ {path : String} {position : Position} {a b : Arena} {host host' : σ} {q : NodeId},
      hosting.Inv a host → J a host → importer path position (a, host) = .ok q (b, host') →
      J b host')
    (refused : ∀ {path : String} {position : Position} {a b : Arena} {host host' : σ}
      {failure : Diagnostic}, hosting.Inv a host → J a host →
      importer path position (a, host) = .error failure (b, host') → J b host') :
    Hosting importer p where
  Inv a host := hosting.Inv a host ∧ J a host
  served := hosting.served
  anchored hi := hosting.anchored hi.1
  built hi hw := ⟨hosting.built hi.1 hw, built hi.1 hi.2 hw⟩
  answered hi hq := by
    obtain ⟨h₁, h₂, h₃⟩ := hosting.answered hi.1 hq
    exact ⟨h₁, ⟨h₂, answered hi.1 hi.2 hq⟩, h₃⟩
  refused hi he := by
    obtain ⟨h₁, h₂, h₃⟩ := hosting.refused hi.1 he
    exact ⟨h₁, ⟨h₂, refused hi.1 hi.2 he⟩, h₃⟩

/-- A host with something in its invariant that does not depend on the arena. -/
def Hosting.also (hosting : Hosting importer p) (J : σ → Prop)
    (answered : ∀ {path : String} {position : Position} {a b : Arena} {host host' : σ} {q : NodeId},
      hosting.Inv a host → J host → importer path position (a, host) = .ok q (b, host') → J host')
    (refused : ∀ {path : String} {position : Position} {a b : Arena} {host host' : σ}
      {failure : Diagnostic}, hosting.Inv a host → J host →
      importer path position (a, host) = .error failure (b, host') → J host') :
    Hosting importer p :=
  hosting.alongside (fun _ => J) (fun _ hj _ => hj) answered refused

/-- A host that goes on knowing what the host `before` knew. -/
def Hosting.Recalls.since {hosting : Hosting importer p} {Known : String → σ → Prop}
    (h : hosting.Recalls Known) (before : σ) : Hosting importer p :=
  hosting.also (fun host => ∀ other, Known other before → Known other host)
    (fun hi hj hq other ho => (h.answered hi hq).2 other (hj other ho))
    fun hi hj he other ho => h.refused hi he other (hj other ho)

namespace Parse

variable {cx : ReadingContext σ} {hosting : Hosting cx.importer p} {Known : String → σ → Prop}
  {r r' : Reading σ} {ks : List TokenKind} {aliases paths : List String}

/-! ## The state between two imports -/

/-- The tokens `ks` come next; the script lists these aliases, and the host knows these paths. -/
structure Imported (hosting : Hosting cx.importer p) (Known : String → σ → Prop)
    (aliases paths : List String) (ks : List TokenKind) (r : Reading σ) : Prop where
  stands : Stands hosting r []
  spells : r.feed.Spells ks
  script : r.arena.HasKind cx.script (ImportsAre p aliases)
  known : ∀ path ∈ paths, Known path r.host

theorem Imported.retake {ks' : List TokenKind} {feed : Feed}
    (h : Imported hosting Known aliases paths ks r) (comments : List Comment)
    (hs : feed.Spells ks') : Imported hosting Known aliases paths ks' (retake r feed comments) :=
  ⟨h.stands.retake .., hs, h.script, h.known⟩

theorem Imported.fewer {paths' : List String} (h : Imported hosting Known aliases paths ks r)
    (hp : ∀ path ∈ paths', path ∈ paths) : Imported hosting Known aliases paths' ks r :=
  ⟨h.stands, h.spells, h.script, fun path hpath => h.known path (hp path hpath)⟩

/-- The host answers an import. -/
theorem Imported.answered {path : String} {position : Position} {q : NodeId}
    (h : Imported hosting Known aliases paths ks r) (hk : hosting.Recalls Known)
    (hrun : importPackage cx path position r = .ok q r') :
    Imported hosting Known aliases (path :: paths) ks r' ∧ (r'.arena.kind q).level = 8 ∧
      hosting.served r'.host q := by
  obtain ⟨-, hstands, hlevel, hserved⟩ := (leads_importPackage h.stands).ok hrun
  obtain ⟨feed, comments, attrs, a, host⟩ := r
  unfold importPackage at hrun
  dsimp only at hrun
  split at hrun
  · rename_i q' b host' hq
    cases hrun
    obtain ⟨hanswers, -⟩ := hosting.answered h.stands.inv hq
    obtain ⟨hpath, hothers⟩ := hk.answered h.stands.inv hq
    refine ⟨⟨hstands, h.spells, ⟨Nat.lt_of_lt_of_le h.script.1 hanswers.keeps.size_le, ?_⟩, ?_⟩,
      hlevel, hserved⟩
    · have hscript := h.script.2
      unfold kind at hscript ⊢
      rwa [hanswers.keeps.node_eq _ h.script.1]
    · intro other ho
      rcases List.mem_cons.1 ho with rfl | ho
      · exact hpath
      · exact hothers other (h.known other ho)
  · cases hrun

/-- An alias is bound. -/
theorem Imported.bound {name : String} {position : Position} {q n : NodeId}
    (h : Imported hosting Known aliases paths ks r) (hl : (r.arena.kind q).level = 8)
    (hserved : hosting.served r.host q) (hrun : bindImport cx name q position r = .ok n r') :
    Imported hosting Known (aliases ++ [name]) paths ks r' ∧ r'.arena.Own cx.script n := by
  obtain ⟨-, hstands, hown⟩ := (leads_bindImport h.stands hl hserved).ok hrun
  have henters : Enters aliases name (r.arena.newPackageRef cx.script name q position) fun _ b =>
      r.arena.Keeps [cx.script] b ∧ b.HasKind cx.script (ImportsAre p (aliases ++ [name])) :=
    enters_newPackageRef h.script
  by_cases hmem : name ∈ aliases
  · obtain ⟨e, r₁, he⟩ : ∃ e r₁, bindImport cx name q position r = .error e r₁ :=
      buildUnique_taken .importAlias position henters hmem
    rw [he] at hrun
    cases hrun
  · obtain ⟨x, b, hok, -, hscript⟩ : ∃ x b, bindImport cx name q position r =
        .ok x (rebuild r b) ∧ r.arena.Keeps [cx.script] b ∧
        b.HasKind cx.script (ImportsAre p (aliases ++ [name])) :=
      buildUnique_new .importAlias position henters hmem
    rw [hok] at hrun
    cases hrun
    exact ⟨⟨hstands, h.spells, hscript, h.known⟩, hown⟩

theorem Imported.commented {node : NodeId} (h : Imported hosting Known aliases paths ks r)
    (hn : r.arena.Own cx.script node) (hrun : attachComments node r = .ok () r') :
    Imported hosting Known aliases paths ks r' := by
  obtain ⟨-, hstands⟩ := (leads_attachComments h.stands (Or.inr hn) (Nat.zero_le _)).ok hrun
  cases ks with
  | nil =>
    obtain ⟨e, r₁, he⟩ := peek_of_spells_nil h.spells
    cases (show attachComments node r = _ from bind_error he).symm.trans hrun
  | cons k ks =>
    obtain ⟨token, feed, comments, hpeek, -, hs⟩ := peek_of_spells h.spells
    cases (show attachComments node r = _ from bind_ok hpeek).symm.trans hrun
    exact ⟨hstands, hs, h.script.keep (Keeps.bindComments ..) List.not_mem_nil, h.known⟩

/-! ## Import statements -/

theorem Imported.clause {clause : Phrase.Import} (hk : hosting.Recalls Known)
    (h : Imported hosting Known aliases paths (clause.tokens ++ ks) r)
    (hrun : importClause cx r = .ok () r') :
    Imported hosting Known (aliases ++ [clause.boundAs]) (clause.path :: paths) ks r' := by
  have hrest : ∀ (name path : String) (position : Position) (r₁ : Reading σ),
      Imported hosting Known aliases paths ks r₁ → (do
        let package ← importPackage cx path position
        let node ← bindImport cx name package position
        attachComments node) r₁ = .ok () r' →
      Imported hosting Known (aliases ++ [name]) (path :: paths) ks r' := by
    intro name path position r₁ h₁ hrun
    obtain ⟨q, r₂, hq, hrun⟩ := of_bind_ok hrun
    obtain ⟨n, r₃, hn, hrun⟩ := of_bind_ok hrun
    obtain ⟨h₂, hl, hserved⟩ := h₁.answered hk hq
    obtain ⟨h₃, hown⟩ := h₂.bound hl hserved hn
    exact h₃.commented hown hrun
  obtain ⟨name, path⟩ := clause
  cases name with
  | none =>
    obtain ⟨⟨kind, position⟩, feed, comments, hnext, rfl, hs⟩ :=
      next_of_spells h.spells TokenKind.noConfusion
    rw [importClause, bind_ok hnext] at hrun
    exact hrest _ _ _ _ (h.retake comments hs) hrun
  | some name =>
    obtain ⟨⟨kind, position⟩, feed, comments, hnext, rfl, hs⟩ :=
      next_of_spells h.spells TokenKind.noConfusion
    have h₁ := h.retake comments hs
    obtain ⟨position', feed', comments', hpath, hs'⟩ :=
      expectString_of_spells "import path" h₁.spells
    rw [importClause, bind_ok hnext] at hrun
    simp only [pure_bind] at hrun
    rw [bind_ok hpath] at hrun
    exact hrest _ _ _ _ (h₁.retake comments' hs') hrun

/-- The clauses of a group, up to the parenthesis that closes it. -/
theorem Imported.clauses (hk : hosting.Recalls Known) : ∀ (clauses : List Phrase.Import)
    (fuel : Nat) (aliases paths : List String) (r : Reading σ), clauses.length < fuel →
    Imported hosting Known aliases paths (clauses.flatMap Phrase.Import.tokens ++ .char ')' :: ks) r →
    repeatWhile (groupedImport cx) fuel r = .ok () r' →
    Imported hosting Known (aliases ++ clauses.map Phrase.Import.boundAs)
      (clauses.map Phrase.Import.path ++ paths) (.char ')' :: ks) r'
  | _, 0, _, _, _, hlt, _, _ => absurd hlt (Nat.not_lt_zero _)
  | [], fuel + 1, aliases, paths, r, _, h, hrun => by
    obtain ⟨feed, comments, hnext, hs⟩ := nextIs_of_spells ')' h.spells
    rw [beq_self_eq_true] at hnext
    have hstop : groupedImport cx r = .ok false (Parse.retake r feed comments) := bind_ok hnext
    rw [repeatWhile, bind_ok hstop] at hrun
    cases hrun
    simpa using h.retake comments hs
  | clause :: clauses, fuel + 1, aliases, paths, r, hlt, h, hrun => by
    obtain ⟨more, r₁, hclause, hrun⟩ := of_bind_ok hrun
    obtain ⟨k, rest, hks, hne⟩ : ∃ k rest, (clause :: clauses).flatMap Phrase.Import.tokens ++
        .char ')' :: ks = k :: rest ∧ k ≠ .char ')' := by
      obtain ⟨_ | name, path⟩ := clause
      · exact ⟨_, _, rfl, TokenKind.noConfusion⟩
      · exact ⟨_, _, rfl, TokenKind.noConfusion⟩
    rw [hks] at h
    obtain ⟨feed, comments, hnext, hs⟩ := nextIs_of_spells ')' h.spells
    rw [beq_false_of_ne hne] at hnext
    have h₁ := h.retake comments hs
    rw [← hks, List.flatMap_cons, List.append_assoc] at h₁
    rw [groupedImport, bind_ok hnext] at hclause
    obtain ⟨_, r₂, hclause, hmore⟩ := of_bind_ok hclause
    cases hmore
    have h₂ := Imported.clauses hk clauses fuel _ _ r₁ (Nat.lt_of_succ_lt_succ hlt)
      (h₁.clause hk hclause) hrun
    rw [List.append_assoc, List.singleton_append] at h₂
    exact h₂.fewer fun path hp => by
      simpa [or_left_comm, or_assoc] using hp

theorem Imported.statement {statement : Phrase.ImportStatement} {more : Bool}
    (hk : hosting.Recalls Known) (hbudget : statement.clauses.length < cx.budget)
    (h : Imported hosting Known aliases paths (statement.tokens ++ ks) r)
    (hrun : importStatement cx r = .ok more r') : more = true ∧
      Imported hosting Known (aliases ++ statement.clauses.map Phrase.Import.boundAs)
        (statement.clauses.map Phrase.Import.path ++ paths) ks r' := by
  -- the keyword
  obtain ⟨tail, htail⟩ : ∃ tail, statement.tokens = .keyword .imports :: tail := by
    cases statement <;> exact ⟨_, rfl⟩
  rw [htail, List.cons_append] at h
  obtain ⟨⟨kind, position⟩, feed, comments, hpeek, rfl, hs⟩ := peek_of_spells h.spells
  have h₁ := h.retake comments hs
  obtain ⟨feed₂, hadvance, hs₂⟩ := advance_of_spells h₁.spells TokenKind.noConfusion
  have h₂ := h₁.retake (Parse.retake r feed comments).comments hs₂
  rw [importStatement, bind_ok hpeek, if_pos (beq_self_eq_true _), bind_ok hadvance] at hrun
  cases statement with
  | single clause =>
    obtain rfl : clause.tokens = tail := (List.cons.inj htail).2
    obtain ⟨k, rest, hks, hne⟩ : ∃ k rest, clause.tokens ++ ks = k :: rest ∧ k ≠ .char '(' := by
      obtain ⟨_ | name, path⟩ := clause
      · exact ⟨_, _, rfl, TokenKind.noConfusion⟩
      · exact ⟨_, _, rfl, TokenKind.noConfusion⟩
    rw [hks] at h₂
    obtain ⟨feed₃, comments₃, hmatch, hs₃⟩ := matchChar_of_ne h₂.spells hne
    have h₃ := h₂.retake comments₃ hs₃
    rw [← hks] at h₃
    rw [bind_ok hmatch, if_neg Bool.false_ne_true] at hrun
    obtain ⟨_, r₄, hclause, hmore⟩ := of_bind_ok hrun
    cases hmore
    exact ⟨rfl, h₃.clause hk hclause⟩
  | group clauses =>
    obtain rfl := (List.cons.inj htail).2
    rw [List.cons_append] at h₂
    obtain ⟨feed₃, comments₃, hmatch, hs₃⟩ := matchChar_of_spells h₂.spells
    have h₃ := h₂.retake comments₃ hs₃
    rw [List.append_assoc] at h₃
    rw [bind_ok hmatch, if_pos rfl] at hrun
    obtain ⟨_, r₄, hclauses, hrun⟩ := of_bind_ok hrun
    have h₄ := h₃.clauses hk clauses _ _ _ _ hbudget hclauses
    obtain ⟨feed₅, comments₅, hclose, hs₅⟩ := expectChar_of_spells h₄.spells
    rw [bind_ok hclose] at hrun
    cases hrun
    exact ⟨rfl, h₄.retake comments₅ hs₅⟩

/-- Some import statements are read; the loop goes on. -/
theorem Imported.statements (hk : hosting.Recalls Known) :
    ∀ (statements : List Phrase.ImportStatement) (fuel : Nat) (aliases paths : List String)
      (r : Reading σ), (∀ statement ∈ statements, statement.clauses.length < cx.budget) →
      Imported hosting Known aliases paths
        (statements.flatMap Phrase.ImportStatement.tokens ++ ks) r →
      repeatWhile (importStatement cx) (fuel + statements.length) r = .ok () r' →
      ∃ r₁, repeatWhile (importStatement cx) fuel r₁ = .ok () r' ∧
        Imported hosting Known
          (aliases ++ (statements.flatMap Phrase.ImportStatement.clauses).map Phrase.Import.boundAs)
          ((statements.flatMap Phrase.ImportStatement.clauses).map Phrase.Import.path ++ paths) ks r₁
  | [], fuel, aliases, paths, r, _, h, hrun => ⟨r, hrun, by simpa using h⟩
  | statement :: statements, fuel, aliases, paths, r, hbudget, h, hrun => by
    rw [List.forall_mem_cons] at hbudget
    rw [List.flatMap_cons, List.append_assoc] at h
    obtain ⟨more, r₁, hstatement, hrun⟩ := of_bind_ok hrun
    obtain ⟨rfl, h₁⟩ := h.statement hk hbudget.1 hstatement
    rw [if_pos rfl] at hrun
    obtain ⟨r₂, hrun₂, h₂⟩ := Imported.statements hk statements fuel _ _ r₁ hbudget.2 h₁ hrun
    refine ⟨r₂, hrun₂, ?_⟩
    simp only [List.flatMap_cons, List.map_append, List.append_assoc] at h₂ ⊢
    exact h₂.fewer fun path hp => by
      simpa [or_left_comm, or_assoc] using hp

/-- Where no import comes next, the loop ends. -/
theorem Imported.stops {fuel : Nat} (h : Imported hosting Known aliases paths ks r)
    (hstop : ks.head? ≠ some (.keyword .imports))
    (hrun : repeatWhile (importStatement cx) (fuel + 1) r = .ok () r') :
    Imported hosting Known aliases paths ks r' := by
  cases ks with
  | nil =>
    obtain ⟨e, r₁, he⟩ := peek_of_spells_nil h.spells
    obtain ⟨more, r₂, hstatement, -⟩ := of_bind_ok hrun
    rw [importStatement, bind_error he] at hstatement
    cases hstatement
  | cons k ks =>
    obtain ⟨token, feed, comments, hpeek, rfl, hs⟩ := peek_of_spells h.spells
    have hne : (token.kind == .keyword .imports) = false :=
      beq_false_of_ne fun e => hstop (congrArg some e)
    have hno : importStatement cx r = .ok false (Parse.retake r feed comments) := by
      rw [importStatement, bind_ok hpeek, hne, if_neg Bool.false_ne_true]
      rfl
    rw [repeatWhile, bind_ok hno] at hrun
    cases hrun
    exact h.retake comments hs

/-- The built-in package is imported where its alias is not bound. -/
theorem Imported.builtin (hk : hosting.Recalls Known)
    (h : Imported hosting Known aliases paths ks r) (hother : cx.package ≠ Prelude.packageName)
    (hunbound : Prelude.packageName ∉ aliases) (hrun : implicitImport cx r = .ok () r') :
    Known Prelude.packageName r'.host := by
  obtain ⟨-, decl, hkind, -, hnames⟩ := h.script
  have hcontains : decl.imports.contains Prelude.packageName = false := by
    rw [Bool.eq_false_iff, Ne, Registry.contains_iff, hnames]
    exact hunbound
  rw [implicitImport_eq (script?_eq_some.2 hkind),
    if_pos (by rw [hcontains, bne_iff_ne.2 hother]; rfl)] at hrun
  obtain ⟨q, r₁, hq, hrun⟩ := of_bind_ok hrun
  obtain ⟨n, r₂, hn, hrun⟩ := of_bind_ok hrun
  cases hrun
  obtain ⟨h₁, hl, hserved⟩ := h.answered hk hq
  exact (h₁.bound hl hserved hn).1.known _ (List.mem_cons_self ..)

/-! ## The whole script -/

theorem length_le_count {α : Type} {T : α → List TokenKind}
    (h : ∀ x, 0 < TokenKind.count (T x)) (xs : List α) :
    xs.length ≤ TokenKind.count (xs.flatMap T) := by
  induction xs with
  | nil => exact Nat.zero_le _
  | cons x xs ih =>
    have hx := h x
    rw [List.flatMap_cons, TokenKind.count_append, List.length_cons]
    omega

/-- The budget of a reading covers the rounds of its import statements. -/
theorem length_lt_of_count {budget : Nat} {statements : List Phrase.ImportStatement}
    {rest : List TokenKind}
    (h : TokenKind.count (statements.flatMap Phrase.ImportStatement.tokens ++ rest) < budget) :
    statements.length < budget ∧ ∀ statement ∈ statements, statement.clauses.length < budget := by
  rw [TokenKind.count_append] at h
  have himport : ∀ clause : Phrase.Import, 0 < TokenKind.count clause.tokens := by
    intro clause
    have hmem : TokenKind.string clause.path ∈ clause.tokens := by simp [Phrase.Import.tokens]
    exact TokenKind.count_pos hmem TokenKind.noConfusion
  have hstatement : ∀ statement : Phrase.ImportStatement, 0 < TokenKind.count statement.tokens ∧
      statement.clauses.length ≤ TokenKind.count statement.tokens := by
    intro statement
    cases statement with
    | single clause =>
      have := himport clause
      rw [Phrase.ImportStatement.tokens, TokenKind.count_cons TokenKind.noConfusion]
      exact ⟨Nat.succ_pos _, Nat.succ_le_succ (Nat.zero_le _)⟩
    | group clauses =>
      have := length_le_count himport clauses
      rw [Phrase.ImportStatement.tokens, TokenKind.count_cons TokenKind.noConfusion,
        TokenKind.count_cons TokenKind.noConfusion, TokenKind.count_append]
      exact ⟨Nat.succ_pos _, by rw [Phrase.ImportStatement.clauses]; omega⟩
  refine ⟨?_, fun statement hmem => ?_⟩
  · have := length_le_count (fun statement => (hstatement statement).1) statements
    omega
  · obtain ⟨before, after, rfl⟩ := List.append_of_mem hmem
    have := (hstatement statement).2
    rw [List.flatMap_append, List.flatMap_cons, TokenKind.count_append, TokenKind.count_append] at h
    omega

/-- A part of a reading, whatever it relies on, forgets nothing. -/
theorem Stands.keeps_known {α : Type} {m : Parse σ α} {x : α} {loose loose' : List NodeId}
    (h : Stands hosting r loose) (hk : hosting.Recalls Known)
    (hlead : ∀ hosting' : Hosting cx.importer p, Stands hosting' r loose →
      Leads (Runs hosting') m r fun _ r' => Stands hosting' r' loose')
    (hrun : m r = .ok x r') {path : String} (hp : Known path r.host) : Known path r'.host := by
  have hstands : Stands (hk.since r.host) r loose := ⟨⟨h.inv, fun _ => id⟩, h.forest, h.attrs⟩
  exact ((hlead _ hstands).ok hrun).2.inv.2 path hp

/-- A script that is read to its end: the host knows what its tokens import. -/
theorem known_script (hk : hosting.Recalls Known) (h : Imported hosting Known [] [] ks r)
    (hbudget : TokenKind.count ks < cx.budget) (hrun : script cx r = .ok () r') {path : String}
    (hp : Phrase.Imports cx.package ks path) : Known path r'.host := by
  obtain ⟨_, r₁, himports, hrun⟩ := of_bind_ok hrun
  obtain ⟨_, r₂, himplicit, hrun⟩ := of_bind_ok hrun
  obtain ⟨_, r₃, hdecls, hrun⟩ := of_bind_ok hrun
  obtain ⟨_, r₄, hattrs, hrun⟩ := of_bind_ok hrun
  have hs₁ := ((leads_repeatWhile (fun _ hi => leads_importStatement hi) _ r h.stands).ok himports).2
  have hs₂ := ((leads_implicitImport hs₁).ok himplicit).2
  -- what is known once the imports are read is known at the end
  have hrest : Known path r₂.host → Known path r'.host := by
    intro hknown
    have h₃ := hs₂.keeps_known hk (fun _ hi => (leads_declarations (Nat.zero_lt_of_lt hbudget)
      hi).mono fun _ _ _ hs => hs.stands) hdecls hknown
    cases hattrs
    cases hrun
    exact h₃
  have hsection : ∀ {statements : List Phrase.ImportStatement} {rest : List TokenKind},
      ks = statements.flatMap Phrase.ImportStatement.tokens ++ rest →
      ∃ fuel r₀, repeatWhile (importStatement cx) (fuel + 1) r₀ = .ok () r₁ ∧
        Imported hosting Known
          ((statements.flatMap Phrase.ImportStatement.clauses).map Phrase.Import.boundAs)
          ((statements.flatMap Phrase.ImportStatement.clauses).map Phrase.Import.path) rest r₀ := by
    rintro statements rest rfl
    obtain ⟨hlength, hclauses⟩ := length_lt_of_count hbudget
    obtain ⟨fuel, hfuel⟩ : ∃ fuel, cx.budget = fuel + 1 + statements.length :=
      ⟨cx.budget - statements.length - 1, by omega⟩
    rw [hfuel] at himports
    obtain ⟨r₀, hrun₀, h₀⟩ := h.statements hk statements _ _ _ _ hclauses himports
    exact ⟨fuel, r₀, hrun₀, by simpa using h₀⟩
  cases hp with
  | written start mem =>
    obtain ⟨fuel, r₀, hrun₀, h₀⟩ := hsection start
    have h₁ := h₀.stands.keeps_known hk (fun _ hi => leads_runs (leads_repeatWhile
      (fun _ hi => leads_importStatement hi) _ r₀ hi)) hrun₀ (h₀.known _ (List.mem_map_of_mem mem))
    exact hrest (hs₁.keeps_known hk (fun _ hi => leads_runs (leads_implicitImport hi)) himplicit h₁)
  | builtin start stop other unbound =>
    obtain ⟨fuel, r₀, hrun₀, h₀⟩ := hsection start
    refine hrest ((h₀.stops stop hrun₀).builtin hk other ?_ himplicit)
    intro hmem
    obtain ⟨clause, hclause, hname⟩ := List.mem_map.1 hmem
    exact unbound clause hclause hname

end Parse

/-- Reading a source to its end into a script that is empty: the host knows what it imports. -/
theorem known_readScript {hosting : Hosting importer p} {Known : String → σ → Prop}
    (hk : hosting.Recalls Known) {a : Arena} {host : σ} {script : Nat} {source : Text.Source}
    {y : Arena × σ} (hi : hosting.Inv a host)
    (hf : Forest p script (hosting.served host) a [])
    (hs : a.HasKind script (ImportsAre p [])) (hrun : readScript importer script source (a, host) = .ok () y)
    {path : String} (hp : Phrase.Imports (a.name p) source.kinds path) : Known path y.2 := by
  let feed := Feed.ofLexing (Lexing.ofSource (a.scriptFile script) source)
  let cx : ReadingContext σ :=
    ⟨script, a.scriptFile script, (a.packageName? script).getD "", feed.size + 1, importer⟩
  let hosting' : Hosting cx.importer p := hosting
  have hspells : feed.Spells source.kinds := by
    have h := Lexing.spells_ofSource (a.scriptFile script) source
    rwa [Lexing.significant_ofSource] at h
  have himported : Parse.Imported hosting' Known [] [] source.kinds ⟨feed, [], [], a, host⟩ :=
    ⟨⟨hi, hf, nofun⟩, hspells, hs, nofun⟩
  have hpackage : cx.package = a.name p := by
    show ((a.packageOf script).map a.name).getD "" = a.name p
    rw [packageOf_of_home hf.script_home]
    rfl
  have hbudget : TokenKind.count source.kinds < cx.budget := by
    rw [← hspells.size_eq]
    exact Nat.lt_succ_self _
  obtain ⟨r, hscript, rfl⟩ := of_readScript_ok hrun
  exact Parse.known_script hk himported hbudget hscript (hpackage ▸ hp)

/-- Reading one more script of a package to its end. -/
theorem known_readFile {hosting : Hosting importer p} {Known : String → σ → Prop}
    (hk : hosting.Recalls Known) {x y : Arena × σ} (h : hosting.Rests x) {name : String}
    {file : Option Path} {source : Text.Source}
    (hrun : Compile.readFile importer p name file source x = .ok () y) {path : String}
    (hp : Phrase.Imports (x.1.name p) source.kinds path) : Known path y.2 := by
  obtain ⟨a, host⟩ := x
  obtain ⟨hi, hg⟩ := h
  have ha := hosting.anchored hi
  obtain ⟨decl, hd⟩ := hg.isPackage
  have htries := opened_newScript hd name file
  unfold Tries at htries
  unfold Compile.readFile at hrun
  dsimp only at hrun
  split at hrun
  · cases hrun
  · rename_i script b hnew
    rw [hnew] at htries
    have hopened : Opened p script a b := htries
    have hb : hosting.Inv b host := hosting.built hi (hopened.within hd ha)
    obtain ⟨hgb, hs⟩ := hopened.gathered hd hg ha
    obtain ⟨file', hkind⟩ := hopened.kind_script
    have hname : b.name p = a.name p := hopened.name_eq hd (lt_size_of_home (home_of_package hd))
    refine known_readScript hk hb (hgb.forest script hs) ⟨?_, _, hkind, rfl, rfl⟩ hrun
      (hname ▸ hp)
    exact lt_size_of_home (home_of_script hkind)

end SchemaLang
