import SchemaLang.Grammar.Script
import SchemaLang.Proofs.Grammar.Declarations

/-!
# Reading a script

A script that is read to its end has nothing left that waits: all its nodes lie below it, and its
enums have values (`leads_readScript`). Where reading fails, what it has built so far is still confined to the script
and its package.
-/

namespace SchemaLang

open Arena

namespace Parse

variable {σ α : Type} {cx : ReadingContext σ} {p : Nat} {hosting : Hosting cx.importer p}
  {r r' : Reading σ}

/-! ## Imports -/

/-- A part that takes tokens only leaves the script as it stands. -/
theorem Stands.quiet {R : Reading σ → Reading σ → Prop} {m : Parse σ α} {Q : α → Reading σ → Prop}
    (h : Stands hosting r []) (hq : Quiet m) (hm : Leads R m r Q) :
    Leads R m r fun x r' => Stands hosting r' [] ∧ Q x r' := by
  have hstands : Leads (Steps hosting 0) m r fun _ r' => Stands hosting r' [] :=
    leads_quiet hq fun _ feed comments => h.retake feed comments
  exact hstands.both hm

theorem leads_bindImport {name : String} {package : Nat} {position : Position}
    (h : Stands hosting r []) (hp : (r.arena.kind package).level = 8)
    (hserved : hosting.served r.host package) :
    Leads (Steps hosting 0) (bindImport cx name package position) r fun n r' =>
      Stands hosting r' [] ∧ r'.arena.Own cx.script n := by
  refine leads_unique h ((h.forest.newPackageRef name position hp hserved).mono fun n b hb => ?_)
  exact ⟨hb.1, fun n hn => by omega, h.rebuild hb.1 hb.2.1, hb.2.2⟩

theorem leads_importClause (h : Stands hosting r []) :
    Leads (Steps hosting 0) (importClause cx) r fun _ r' => Stands hosting r' [] := by
  have hrest : ∀ (name path : String) (position : Position) (r₁ : Reading σ),
      Stands hosting r₁ [] → Leads (Steps hosting 0) (do
        let package ← importPackage cx path position
        let node ← bindImport cx name package position
        attachComments node) r₁ fun _ r' => Stands hosting r' [] := by
    intro name path position r₁ h₁
    refine (leads_importPackage h₁).bind fun package r₂ _ h₂ => ?_
    refine (leads_bindImport h₂.1 h₂.2.1 h₂.2.2).bind fun node r₃ _ h₃ => ?_
    exact leads_attachComments h₃.1 (Or.inr h₃.2) (Nat.zero_le _)
  refine leads_quiet_bind quiet_next fun token feed comments => ?_
  have h₁ := h.retake feed comments
  dsimp only
  split
  · exact hrest _ _ _ _ h₁
  · refine leads_quiet_bind (quiet_expectString _) fun path feed₂ comments₂ => ?_
    exact hrest _ _ _ _ (h₁.retake feed₂ comments₂)
  · exact Leads.bind (P := fun _ _ => False) leads_unexpected fun _ _ _ h => h.elim

theorem leads_groupedImport (h : Stands hosting r []) :
    Leads (Steps hosting 0) (groupedImport cx) r fun _ r' => Stands hosting r' [] := by
  refine leads_quiet_bind (quiet_nextIs _) fun closed feed comments => ?_
  have h₁ := h.retake feed comments
  split
  · exact Leads.pure h₁
  · exact (leads_importClause h₁).bind fun _ r₂ _ h₂ => Leads.pure h₂

theorem leads_importStatement (h : Stands hosting r []) :
    Leads (Steps hosting 0) (importStatement cx) r fun _ r' => Stands hosting r' [] := by
  refine leads_quiet_bind quiet_peek fun token feed comments => ?_
  have h₁ := h.retake feed comments
  dsimp only
  split
  · refine leads_quiet_bind quiet_advance fun _ feed₂ comments₂ => ?_
    refine leads_quiet_bind (quiet_matchChar _) fun grouped feed₃ comments₃ => ?_
    have h₃ := (h₁.retake feed₂ comments₂).retake feed₃ comments₃
    split
    · refine (leads_repeatWhile (fun _ hi => leads_groupedImport hi) cx.budget _ h₃).bind
        fun _ r₄ _ h₄ => ?_
      refine leads_quiet_bind (quiet_expectChar _) fun _ feed₅ comments₅ => ?_
      exact Leads.pure (h₄.retake feed₅ comments₅)
    · exact (leads_importClause h₃).bind fun _ r₄ _ h₄ => Leads.pure h₄
  · exact Leads.pure h₁

/-- The built-in package is imported where the script lists no alias for it. -/
theorem implicitImport_eq {decl : Script} (h : r.arena.script? cx.script = some decl) :
    implicitImport cx r = (if cx.package != Prelude.packageName &&
        !decl.imports.contains Prelude.packageName then do
      let package ← importPackage cx Prelude.packageName ⟨cx.file, 1, 1⟩
      let _ ← bindImport cx Prelude.packageName package ⟨cx.file, 1, 1⟩
    else pure () : Parse σ Unit) r := by
  unfold implicitImport
  refine (bind_ok rfl).trans ?_
  simp only [h]

theorem leads_implicitImport (h : Stands hosting r []) :
    Leads (Steps hosting 0) (implicitImport cx) r fun _ r' => Stands hosting r' [] := by
  refine leads_quiet_bind (quiet_inspect _) fun bound feed comments => ?_
  have h₁ := h.retake feed comments
  dsimp only
  split
  · refine (leads_importPackage h₁).bind fun package r₂ _ h₂ => ?_
    refine (leads_bindImport h₂.1 h₂.2.1 h₂.2.2).bind fun node r₃ _ h₃ => ?_
    exact Leads.pure h₃.1
  · exact Leads.pure h₁

/-! ## The whole script -/

theorem leads_declaration (hbudget : 0 < cx.budget) (h : Stands hosting r []) :
    Leads (Runs hosting) (declaration cx) r fun _ r' => Settles hosting [] r r' := by
  refine (leads_settles (leads_attributes h)).bind fun _ r₁ _ h₁ => ?_
  refine runs_quiet_bind quiet_next fun token feed comments => ?_
  have h₂ := h₁.stands.retake feed comments
  have hnext : ∀ {r₃}, Settles hosting [] (retake r₁ feed comments) r₃ → Settles hosting [] r r₃ :=
    fun h₃ => ⟨h₃.stands, fun hf => h₃.filled (h₁.filled hf)⟩
  split
  · exact Leads.pure ⟨h₂, h₁.filled⟩
  · exact (leads_enumDeclaration h₂ hbudget).bind fun _ r₃ _ h₃ => Leads.pure (hnext h₃)
  · exact (leads_tableDeclaration false h₂).bind fun _ r₃ _ h₃ => Leads.pure (hnext h₃)
  · exact (leads_tableDeclaration true h₂).bind fun _ r₃ _ h₃ => Leads.pure (hnext h₃)
  · exact (leads_contractDeclaration h₂).bind fun _ r₃ _ h₃ => Leads.pure (hnext h₃)
  · exact leads_runs (show Leads (Steps hosting 0) _ _ _ from leads_unexpected)

theorem leads_declarations (hbudget : 0 < cx.budget) (h : Stands hosting r []) :
    Leads (Runs hosting) (repeatWhile (declaration cx) cx.budget) r
      fun _ r' => Settles hosting [] r r' := by
  refine leads_repeatWhile (fun r₁ h₁ => ?_) cx.budget r ⟨h, id⟩
  exact (leads_declaration hbudget h₁.stands).mono fun _ r₂ _ h₂ =>
    ⟨h₂.stands, fun hf => h₂.filled (h₁.filled hf)⟩

/-- At the end of a script nothing waits. -/
theorem leads_script (hbudget : 0 < cx.budget) (h : Stands hosting r []) :
    Leads (Runs hosting) (script cx) r fun _ r' => Settles hosting [] r r' ∧ r'.attrs = [] := by
  refine (leads_settles (leads_repeatWhile (fun _ hi => leads_importStatement hi) cx.budget r
    h)).bind fun _ r₁ _ h₁ => ?_
  refine (leads_settles (leads_implicitImport h₁.stands)).bind fun _ r₂ _ h₂ => ?_
  refine (leads_declarations hbudget h₂.stands).bind fun _ r₃ _ h₃ => ?_
  obtain ⟨decl, hd, -⟩ := h₃.stands.forest.isScript
  have hend : Leads (Steps hosting 0) (do
      attachAttrs cx.script
      attachAllComments cx.script) r₃ fun _ r' => Stands hosting r' [] ∧ r'.attrs = [] := by
    refine (leads_attachAttrs h₃.stands (Or.inl rfl) (by rw [hd]; rfl)).bind fun _ r₄ _ h₄ => ?_
    refine (leads_attachAllComments h₄.1 (Or.inl rfl)).mono fun _ r₅ _ h₅ => ?_
    exact ⟨h₅.1, h₅.2.trans h₄.2⟩
  exact leads_runs (hend.mono fun _ r₅ hr₅ h₅ =>
    ⟨⟨h₅.1, fun hf => hr₅.filled (h₃.filled (h₂.filled (h₁.filled hf)))⟩, h₅.2⟩)

end Parse

variable {σ : Type} {importer : Importer σ} {p s : Nat}

/-- What is run where a source is read to its end. -/
theorem of_readScript_ok {a : Arena} {host : σ} {source : Text.Source} {y : Arena × σ}
    (h : readScript importer s source (a, host) = .ok () y) :
    ∃ r, Parse.script ⟨s, a.scriptFile s, (a.packageName? s).getD "",
        (Feed.ofLexing (Lexing.ofSource (a.scriptFile s) source)).size + 1, importer⟩
        ⟨.ofLexing (.ofSource (a.scriptFile s) source), [], [], a, host⟩ = .ok () r ∧
      y = (r.arena, r.host) := by
  unfold readScript at h
  dsimp only at h
  split at h
  · rename_i r hrun
    cases h
    exact ⟨r, hrun, rfl⟩
  · cases h

/-- What reading a script does to an arena and a host, whether it fails or not. -/
structure ReadsOn (hosting : Hosting importer p) (s : NodeId) (x y : Arena × σ) : Prop where
  grows : Grows p s x.1 y.1
  inv : hosting.Inv y.1 y.2
  served : ∀ q, hosting.served x.2 q → hosting.served y.2 q

/-- What reading a script does is what its grammar does with the tokens of the source. -/
theorem leads_of_script {R : Arena × σ → Arena × σ → Prop} {Q : Arena × σ → Prop} {a : Arena}
    {host : σ} {source : Text.Source}
    (h : Leads (fun r r' => R (r.arena, r.host) (r'.arena, r'.host))
      (Parse.script ⟨s, a.scriptFile s, (a.packageName? s).getD "",
        (Feed.ofLexing (Lexing.ofSource (a.scriptFile s) source)).size + 1, importer⟩)
      ⟨.ofLexing (.ofSource (a.scriptFile s) source), [], [], a, host⟩
      fun _ r => Q (r.arena, r.host)) :
    Leads R (readScript importer s source) (a, host) fun _ => Q := by
  unfold Leads readScript at *
  dsimp only
  split at h
  · rename_i hrun
    rw [hrun]
    exact h
  · rename_i hrun
    rw [hrun]
    exact h

/-- Reading a source into a script that is empty. -/
theorem leads_readScript (hosting : Hosting importer p) {a : Arena} {host : σ}
    (source : Text.Source) (hi : hosting.Inv a host) (h : Forest p s (hosting.served host) a []) :
    Leads (ReadsOn hosting s) (readScript importer s source) (a, host) fun _ y =>
      Forest p s (hosting.served y.2) y.1 [] ∧ (a.Filled s [] → y.1.Filled s []) := by
  let cx : ReadingContext σ := ⟨s, a.scriptFile s, (a.packageName? s).getD "",
    (Feed.ofLexing (Lexing.ofSource (a.scriptFile s) source)).size + 1, importer⟩
  let hosting' : Hosting cx.importer p := hosting
  have hstands : Parse.Stands hosting'
      ⟨.ofLexing (.ofSource (a.scriptFile s) source), [], [], a, host⟩ [] :=
    ⟨hi, h, fun x hx => by cases hx⟩
  have hlead := Parse.leads_script (Nat.succ_pos _) hstands
  refine leads_of_script ((hlead.weaken fun r hsteps => ?_).mono fun _ r _ hr => ⟨?_, hr.1.filled⟩)
  · exact ⟨hsteps.grows, hsteps.inv hi, hsteps.served⟩
  · have hforest := hr.1.stands.forest
    rwa [hr.2] at hforest

end SchemaLang
