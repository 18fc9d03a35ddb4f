import SchemaLang.Proofs.Grammar.Carrying

/-!
# The comments of a whole script

The imports and the declarations of a script carry its comments (`Parse.Carries`). A script is read to
its end, and then no comment is still to come (`Parse.carries_declarations`); those that wait go to the
script. So each comment of the source is bound to one node (`Parse.accounts_script`).
-/

namespace SchemaLang.Parse

open Arena

variable {σ α : Type} {counted : Prop} {cx : ReadingContext σ} {mark p : Nat} {all : List Comment}
  {hosting : Hosting cx.importer p} {r r' : Reading σ}

/-! ## Imports -/

/-- The nodes of an answer have comments of their own, but they do not belong to the script. -/
theorem adds_answers {a b : Arena} {s : NodeId} {decl : Script} (h : Answers p a b)
    (hd : a.kind s = .script decl) (hp : decl.package = p) : a.Adds s b where
  size_le := h.keeps.size_le
  script_eq n hn := by rw [h.keeps.node_eq n hn]
  position_eq n hn := by rw [Arena.position, h.keeps.node_eq n hn, Arena.position]
  comments_eq n hn := by rw [h.keeps.node_eq n hn]
  bare n hn ho := absurd ho (h.not_own hd hp hn)

theorem carries_importPackage {path : String} {position : Position} (h : Stands hosting r []) :
    Leads (Carries counted cx.script mark) (importPackage cx path position) r fun _ _ => True := by
  obtain ⟨decl, hd, hf⟩ := h.forest.isScript
  refine leads_answer (fun q b host hrun => ?_) fun e b host hrun => ?_
  · exact ⟨.of_adds (adds_answers (hosting.answered h.inv hrun).1 hd hf.package_eq) .., trivial⟩
  · exact .of_adds (adds_answers (hosting.refused h.inv hrun).1 hd hf.package_eq) ..

theorem own_newPackageRef {a : Arena} {s package x : NodeId} {name : String} {position : Position}
    (hx : (a.newPackageRef s name package position).1 = .ok x) :
    x = a.size ∧ (a.newPackageRef s name package position).2.Own s a.size := by
  unfold newPackageRef at *
  split at hx
  · cases hx
  · cases hx
    exact ⟨rfl, own_of_adds (own_alloc ..) ((Adds.adopt ..).trans (.updateKind ..))⟩

theorem carries_bindImport {name : String} {package : NodeId} {position : Position}
    (hm : mark ≤ r.arena.size) :
    Leads (Carries counted cx.script mark) (bindImport cx name package position) r (New cx.script mark) :=
  carries_newUnique (fun arena => arena.newPackageRef cx.script name package position) hm
    (adds_newPackageRef ..) fun _ hx => own_newPackageRef hx

theorem carries_importClause (h : Stands hosting r []) :
    Leads (Carries counted cx.script 0) (importClause cx) r fun _ _ => True := by
  have hrest : ∀ (name path : String) (position : Position) (r₁ : Reading σ),
      Stands hosting r₁ [] → Leads (Carries counted cx.script 0) (do
        let package ← importPackage cx path position
        let node ← bindImport cx name package position
        attachComments node) r₁ fun _ _ => True := by
    intro name path position r₁ h₁
    refine (carries_importPackage h₁).bind fun package r₂ _ _ => ?_
    refine (carries_bindImport (Nat.zero_le _)).bind fun node r₃ _ h₃ => ?_
    exact (carries_attachComments h₃).mono fun _ _ _ _ => trivial
  refine (h.quiet quiet_next (passes_next _ _ _ _)).bind fun token r₁ _ ⟨h₁, _⟩ => ?_
  dsimp only
  split
  · exact hrest _ _ _ _ h₁
  · refine (h₁.quiet (quiet_expectString _) (passes_expectString _ _ _ _ _)).bind
      fun path r₂ _ ⟨h₂, _⟩ => ?_
    exact hrest _ _ _ _ h₂
  · exact Leads.bind (P := fun _ _ => False) Leads.throw fun _ _ _ h => h.elim

theorem carries_groupedImport (h : Stands hosting r []) :
    Leads (Carries counted cx.script 0) (groupedImport cx) r fun _ _ => True := by
  refine (h.quiet (quiet_nextIs _) (passes_nextIs _ _ _ _ _)).bind fun closed r₁ _ ⟨h₁, _⟩ => ?_
  split
  · exact Leads.pure trivial
  · exact (carries_importClause h₁).bind fun _ _ _ _ => Leads.pure trivial

theorem carries_importStatement (h : Stands hosting r []) :
    Leads (Carries counted cx.script 0) (importStatement cx) r fun _ _ => True := by
  refine (h.quiet quiet_peek carries_peek).bind fun token r₁ _ ⟨h₁, _, hshows⟩ => ?_
  dsimp only
  split
  · refine (h₁.quiet quiet_advance (carries_advance hshows)).bind fun _ r₂ _ ⟨h₂, _⟩ => ?_
    refine (h₂.quiet (quiet_matchChar _) (passes_matchChar _ _ _ _ _)).bind
      fun grouped r₃ _ ⟨h₃, _⟩ => ?_
    split
    · refine (leads_repeatWhile (I := fun r => Stands hosting r []) (fun r hi =>
        ((leads_groupedImport hi).both (carries_groupedImport hi)).mono fun _ _ _ h => h.1)
        cx.budget r₃ h₃).bind fun _ r₄ _ _ => ?_
      exact (passes_expectChar _ _ _ _ r₄).bind fun _ _ _ _ => Leads.pure trivial
    · exact (carries_importClause h₃).bind fun _ _ _ _ => Leads.pure trivial
  · exact Leads.pure trivial

theorem carries_implicitImport (h : Stands hosting r []) :
    Leads (Carries counted cx.script 0) (implicitImport cx) r fun _ _ => True := by
  refine (h.quiet (quiet_inspect _) (passes_inspect _ _ _ _ _)).bind fun bound r₁ _ ⟨h₁, _⟩ => ?_
  dsimp only
  split
  · refine (carries_importPackage h₁).bind fun package r₂ _ _ => ?_
    exact (carries_bindImport (Nat.zero_le _)).bind fun node r₃ _ _ => Leads.pure trivial
  · exact Leads.pure trivial

/-! ## Declarations -/

/-- A declaration takes a token, or the feed is at its end. -/
theorem carries_declaration {kinds : List TokenKind} (ha : Accounts counted cx.script all r)
    (hs : r.feed.Spells kinds) :
    Leads (Carries counted cx.script 0) (declaration cx) r fun more r' =>
      if more then r'.feed.size < r.feed.size
      else r'.feed.comments = [] ∧ r'.feed.failure = none := by
  refine (carries_attributes (Nat.zero_le _)).bind fun _ r₁ hr₁ _ => ?_
  refine carries_next.bind fun token r₂ hr₂ ⟨_, htook⟩ => ?_
  have ha₂ := hr₂.accounts all (hr₁.accounts all ha)
  have hmore : ∀ {m : Parse σ Unit}, token.kind ≠ .eof →
      Leads (Carries counted cx.script 0) m r₂ (fun _ _ => True) → Leads (Carries counted cx.script 0) (do
        m
        pure true) r₂ fun more r' => if more then r'.feed.size < r.feed.size
          else r'.feed.comments = [] ∧ r'.feed.failure = none := by
    intro m hne hm
    refine hm.bind fun _ r₃ hr₃ _ => Leads.pure ?_
    rw [if_pos rfl]
    exact Nat.lt_of_le_of_lt hr₃.leaves.size_le
      (Nat.lt_of_lt_of_le (htook.size_lt hne) hr₁.leaves.size_le)
  split
  · rename_i heof
    obtain ⟨_, hspells⟩ := hr₁.leaves.spells hs
    obtain ⟨position, hend⟩ := htook.ended hspells heof
    refine Leads.pure ?_
    rw [if_neg Bool.false_ne_true, hend]
    exact ⟨rfl, rfl⟩
  · exact hmore (by simp [*]) carries_enumDeclaration
  · exact hmore (by simp [*]) (carries_tableDeclaration false)
  · exact hmore (by simp [*]) (carries_tableDeclaration true)
  · exact hmore (by simp [*]) (carries_contractDeclaration ha₂)
  · exact Leads.throw

/-- The declarations take the feed to its end. -/
theorem carries_declarations : ∀ (fuel : Nat) {r : Reading σ} {kinds : List TokenKind},
    Accounts counted cx.script all r → r.feed.Spells kinds → r.feed.size < fuel →
    Leads (Carries counted cx.script 0) (repeatWhile (declaration cx) fuel) r fun _ r' =>
      r'.feed.comments = [] ∧ r'.feed.failure = none
  | 0, _, _, _, _, hfuel => absurd hfuel (Nat.not_lt_zero _)
  | fuel + 1, r, kinds, ha, hs, hfuel => by
    refine (carries_declaration ha hs).bind fun more r₁ hr₁ h₁ => ?_
    cases more with
    | true =>
      obtain ⟨_, hs₁⟩ := hr₁.leaves.spells hs
      rw [if_pos rfl] at h₁ ⊢
      exact carries_declarations fuel (hr₁.accounts all ha) hs₁ (by omega)
    | false =>
      rw [if_neg Bool.false_ne_true] at h₁ ⊢
      exact Leads.pure h₁

/-! ## The whole script -/

/-- All comments are bound to the script and its nodes. Where positions are counted, they stand in order
there, and those of a node in a block above it. -/
structure Commented (counted : Prop) (script : NodeId) (all : List Comment) (a : Arena) : Prop where
  perm : (a.bound script).Perm all
  ordered : counted → ∀ n : Nat, a.Owner script n →
    (a.node n).comments.Pairwise Comment.Precedes
  block : counted → ∀ n : Nat, a.Own script n → Block (a.position n).line (a.node n).comments

theorem Commented.imp {counted' : Prop} {s : NodeId} {a : Arena} (h : Commented counted s all a)
    (himp : counted' → counted) : Commented counted' s all a :=
  ⟨h.perm, fun hcounted => h.ordered (himp hcounted), fun hcounted => h.block (himp hcounted)⟩

/-- The comments that are left at the end go to the script. -/
theorem Accounts.commented (ha : Accounts counted cx.script all r) (hend : r.feed.comments = []) :
    Commented counted cx.script all (r.arena.bindComments cx.script r.comments) := by
  have hall : unclaimed r = r.comments := by rw [unclaimed, hend, List.append_nil]
  have hself : (r.arena.bindComments cx.script r.comments).node cx.script =
      { r.arena.node cx.script with comments := r.comments } := by
    rw [bindComments, node_update_self ha.script_lt, ha.bare, List.nil_append]
  have hother : ∀ n : Nat, n ≠ cx.script →
      (r.arena.bindComments cx.script r.comments).node n = r.arena.node n :=
    fun n hn => node_update_ne hn _
  have hown : ∀ n : Nat, (r.arena.bindComments cx.script r.comments).Own cx.script n →
      n ≠ cx.script ∧ r.arena.Own cx.script n := by
    intro n ho
    rcases eq_or_ne n cx.script with rfl | hne
    · rw [Own, hself] at ho
      exact absurd ho ha.root
    · rw [Own, hother n hne] at ho
      exact ⟨hne, ho⟩
  refine ⟨?_, fun hcounted n ho => ?_, fun hcounted n ho => ?_⟩
  · have hbound := bound_bindComments_perm (.inl rfl) ha.script_lt r.comments
    exact hbound.trans (hall ▸ ha.perm)
  · rcases ho with rfl | ho
    · rw [hself]
      exact hall ▸ ha.sorted hcounted
    · obtain ⟨hne, ho⟩ := hown n ho
      rw [hother n hne]
      exact ha.ordered hcounted n ho
  · obtain ⟨hne, ho⟩ := hown n ho
    rw [Arena.position, hother n hne]
    exact ha.block hcounted n ho

/-- A script that is read to its end has all its comments, and its feed has no failure. -/
theorem accounts_script {kinds : List TokenKind} (h : Stands hosting r [])
    (ha : Accounts counted cx.script all r) (hs : r.feed.Spells kinds)
    (hbudget : r.feed.size < cx.budget) (hrun : script cx r = .ok () r') :
    Commented counted cx.script all r'.arena ∧ r.feed.failure = none := by
  obtain ⟨_, r₁, hrun₁, hrun⟩ := of_bind_ok hrun
  obtain ⟨_, r₂, hrun₂, hrun⟩ := of_bind_ok hrun
  obtain ⟨_, r₃, hrun₃, hrun⟩ := of_bind_ok hrun
  obtain ⟨_, r₄, hrun₄, hrun⟩ := of_bind_ok hrun
  have himports := leads_repeatWhile (R := Carries counted cx.script 0)
    (I := fun r => Stands hosting r []) (fun r hi =>
      ((leads_importStatement hi).both (carries_importStatement hi)).mono fun _ _ _ h => h.1)
    cx.budget r h
  obtain ⟨hr₁, h₁⟩ := himports.ok hrun₁
  obtain ⟨hr₂, -⟩ := (carries_implicitImport h₁).ok hrun₂
  have hr := trans_of (Carries counted cx.script 0) hr₁ hr₂
  obtain ⟨_, hs₂⟩ := hr.leaves.spells hs
  obtain ⟨hr₃, hcomments, hfailure⟩ := (carries_declarations cx.budget (hr.accounts all ha) hs₂
    (Nat.lt_of_le_of_lt hr.leaves.size_le hbudget)).ok hrun₃
  obtain ⟨hr₄, -⟩ := (steady_attachAttrs cx.script counted cx.script 0 r₃).ok hrun₄
  have hr' := trans_of (Carries counted cx.script 0) hr hr₃
  have hend : r₄.feed.comments = [] := by
    have hsuffix := hr₄.leaves.comments_suffix
    rw [hcomments] at hsuffix
    exact List.suffix_nil.1 hsuffix
  cases hrun
  exact ⟨(hr₄.accounts all (hr'.accounts all ha)).commented hend,
    hr'.leaves.failure_eq.symm.trans hfailure⟩

end SchemaLang.Parse
