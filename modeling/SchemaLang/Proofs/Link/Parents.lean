import SchemaLang.Proofs.Link.Tagging

/-!
# Parents while attributes move

Reading leaves a package as a tree: the nodes that a node owns have it as their parent. The second pass
of linking moves attributes to scripts and to the package, and sets their parents. It finds each
attribute on the node that it is taken from, so what it leaves is such a tree again (`Laid.isTied_placed`).

* `Tied`: in the package parents own.
* `Tied.moveAttr`: moving one attribute keeps it.
-/

namespace SchemaLang

theorem NodeKind.parts_of_untag {x y : NodeKind} (h : x.untag = y.untag) : x.parts = y.parts := by
  have hparts : ∀ kind : NodeKind, kind.untag.parts = kind.parts := fun kind => by
    cases kind <;> rfl
  rw [← hparts x, h, hparts]

namespace Arena

variable {a b c : Arena} {d n p x : Nat} {site base : Site} {vocabulary : Vocabulary}
  {visited : NodeId → Prop}

/-- What a node of the package owns has it as its parent, and is owned once. -/
structure Tied (package : NodeId) (c : Arena) : Prop where
  parent : ∀ m y : Nat, c.home m = some package → c.Child m y → (c.node y).parent = some m
  once : ∀ m : Nat, c.home m = some package → (c.children m).Nodup

theorem Laid.isTied (h : Laid p a) : Tied p a :=
  ⟨h.tied, h.single.once⟩

/-! ## One attribute -/

theorem Tied.retag {kind : NodeKind} (h : Tied p c)
    (hc : Changed c b n { c.node n with kind := kind }) (hk : kind.untag = (c.kind n).untag) :
    Tied p b := by
  have hchildren : ∀ m : Nat, b.children m = c.children m := fun m => by
    unfold children
    by_cases he : m = n
    · rw [he, hc.node_self]
      unfold Node.children
      rw [NodeKind.parts_of_untag hk]
      rfl
    · rw [hc.node_ne he]
  have hparent : ∀ m : Nat, (b.node m).parent = (c.node m).parent := fun m => by
    by_cases he : m = n
    · rw [he, hc.node_self]
    · rw [hc.node_ne he]
  have hhome := (hc.retagged hk rfl rfl rfl).home_eq
  refine ⟨fun m y hm hy => ?_, fun m hm => ?_⟩
  · unfold Child at hy
    rw [hchildren] at hy
    rw [hparent]
    exact h.parent m y ((hhome m).symm.trans hm) hy
  · rw [hchildren]
    exact h.once m ((hhome m).symm.trans hm)

/-- An attribute that leaves one node for another one is owned by the latter alone. -/
theorem Tied.moveAttr (h : Tied p c) (hn : c.home n = some p) (hd : c.home d = some p) (hne : d ≠ n)
    (hx : x ∈ (c.node n).attrs) (hlt : x < c.size) : Tied p (c.moveAttr n d x) := by
  have hchild : c.Child n x := List.mem_append_left _ (Array.mem_toList_iff.2 hx)
  have hfree : ∀ m, c.home m = some p → m ≠ n → ¬ c.Child m x := fun m hm hmn hmx =>
    hmn (Option.some.inj ((h.parent m x hm hmx).symm.trans (h.parent n x hn hchild)))
  have hattrs : ∀ m, x ∈ (c.node m).attrs → c.Child m x := fun m hm =>
    List.mem_append_left _ (Array.mem_toList_iff.2 hm)
  have hchildren : ∀ m : Nat, (c.moveAttr n d x).children m =
      ((if m = n then (c.node m).attrs.toList.filter (· != x) else (c.node m).attrs.toList) ++
        if m = d then [x] else []) ++ (c.kind m).parts := fun m => by
    unfold children Node.children
    rw [attrs_moveAttr (lt_size_of_home hd) (Or.inr fun hdx => hfree d hd hne (hattrs d hdx))]
    exact congrArg (_ ++ NodeKind.parts ·) (kind_moveAttr m)
  have hparts : x ∉ (c.kind n).parts := fun hmem =>
    List.disjoint_of_nodup_append (h.once n hn) (Array.mem_toList_iff.2 hx) hmem
  have hold : ∀ m : Nat, (if m = n then (c.node m).attrs.toList.filter (· != x)
      else (c.node m).attrs.toList).Sublist (c.node m).attrs.toList := fun m => by
    split
    · exact List.filter_sublist
    · exact .refl _
  have hhome : ∀ m, (c.moveAttr n d x).home m = c.home m := retagged_moveAttr.home_eq
  refine ⟨fun m y hm hy => ?_, fun m hm => ?_⟩
  · rw [hhome] at hm
    unfold Child at hy
    rw [hchildren] at hy
    rw [parent_moveAttr hlt]
    by_cases hyx : y = x
    · subst hyx
      rw [if_pos rfl]
      by_cases hmd : m = d
      · rw [hmd]
      · -- no node but the new one owns the attribute
        rw [if_neg hmd, List.append_nil, List.mem_append] at hy
        by_cases hmn : m = n
        · subst hmn
          rw [if_pos rfl] at hy
          exact absurd hy (by simp [hparts])
        · rw [if_neg hmn] at hy
          exact absurd (List.mem_append.2 hy) (hfree m hm hmn)
    · rw [if_neg hyx]
      refine h.parent m y hm ?_
      rcases List.mem_append.1 hy with hy | hy
      · rcases List.mem_append.1 hy with hy | hy
        · exact List.mem_append_left _ ((hold m).subset hy)
        · split at hy
          · exact absurd (List.mem_singleton.1 hy) hyx
          · cases hy
      · exact List.mem_append_right _ hy
  · rw [hhome] at hm
    rw [hchildren]
    have hnodup : ((if m = n then (c.node m).attrs.toList.filter (· != x)
        else (c.node m).attrs.toList) ++ (c.kind m).parts).Nodup :=
      (h.once m hm).sublist ((hold m).append_right _)
    by_cases hmd : m = d
    · subst hmd
      rw [if_pos rfl]
      rw [if_neg hne] at hnodup ⊢
      rw [List.append_assoc]
      refine List.nodup_middle.2 (List.nodup_cons.2 ⟨hfree m hm hne, hnodup⟩)
    · rw [if_neg hmd, List.append_nil]
      exact hnodup

/-! ## The pass -/

/-- Checking an attribute that is on the node. -/
theorem leads_placeTied (hl : Laid p a) (hr : Retagged a c) (hn : a.home n = some p)
    (hs : a.StandsAt vocabulary n site) (ht : Tied p c) (hx : x ∈ (c.node n).attrs) :
    Leads Retagged (Link.placeAttr vocabulary n site x) c fun _ b => Tied p b := by
  rcases Link.placeAttr_cases vocabulary n site x c with ⟨failure, hrun⟩ | ⟨mask, hmask, hcases⟩
  · exact .of_error hrun (refl c)
  rcases hcases with ⟨-, hrun⟩ | ⟨hp, d, hd, hrun⟩
  · exact .of_ok hrun (refl c) ht
  · have hg := goes_of_destination? hr hn hp hd
    have hne := hl.goes_ne hn hs hg hp
    obtain ⟨-, hhome, -, -⟩ := hl.goes_above hn hs hg hne
    exact .of_ok hrun retagged_moveAttr (ht.moveAttr ((hr.home_eq n).trans hn)
      ((hr.home_eq d).trans hhome) hne hx (lt_size_of_attr (attr?_of_usageMask hmask)))

/-- Checking the attributes of a node: those that are still to be checked are on it. -/
theorem leads_placeAllTied (hl : Laid p a) (hr : Retagged a c) (hn : a.home n = some p)
    (hs : a.StandsAt vocabulary n site) (ht : Tied p c) :
    Leads Retagged ((c.node n).attrs.toList.forM (Link.placeAttr vocabulary n site)) c
      fun _ b => Tied p b := by
  have hnodup : (c.node n).attrs.toList.Nodup :=
    (ht.once n ((hr.home_eq n).trans hn)).sublist (List.sublist_append_left _ _)
  refine (Leads.forM (I := fun rest e => Retagged a e ∧ Tied p e ∧ rest.Nodup ∧
    ∀ y ∈ rest, y ∈ (e.node n).attrs) ?_ _ c
    ⟨hr, ht, hnodup, fun y hy => Array.mem_toList_iff.1 hy⟩).mono fun _ _ _ hend => hend.2.1
  intro x rest e ⟨hae, hte, hdistinct, hrest⟩
  obtain ⟨hnew, hdistinct⟩ := List.nodup_cons.1 hdistinct
  refine ((leads_settle hl hae hn hs).both
    (leads_placeTied hl hae hn hs hte (hrest x List.mem_cons_self))).mono
      fun _ b heb ⟨⟨_, hstay, _⟩, htied⟩ => ⟨trans_of Retagged hae heb, htied, hdistinct,
        fun y hy => hstay y (hrest y (List.mem_cons_of_mem _ hy)) fun he => hnew (he ▸ hy)⟩

/-- Checking a site that was not visited before. -/
theorem leads_visitTied (hl : Laid p a) (h : Sheds visited a c) (ht : Tied p c)
    (hn : a.home n = some p) (hs : a.SiteOf n base) (hv : ¬ visited n) :
    Leads Retagged (Link.placeSite vocabulary (n, base)) c fun _ b => Tied p b := by
  obtain ⟨site, b, kind, hrun, hc, hk, hstands, -⟩ := h.toRetagged.tag
    (h.size_eq.symm ▸ lt_size_of_home hn) hs fun hlevel => h.attrs_eq n (by omega) hv
  have hcb := hc.retagged hk rfl rfl rfl
  exact .follow (bind_ok hrun) hcb
    (leads_placeAllTied hl (trans_of Retagged h.toRetagged hcb) hn hstands (ht.retag hc hk))

/-- A placement that succeeds leaves the package a tree. -/
theorem Laid.isTied_placed {builtin : NodeId} (hl : Laid p a)
    (hrun : Link.placeAttributes p builtin a = .ok () c) : Tied p c := by
  rcases Link.placeAttributes_cases p builtin a with
    ⟨hsame, -⟩ | ⟨failure, -, -, herror⟩ | ⟨vocabulary, -, hsites⟩
  · cases hsame.symm.trans hrun
    exact hl.isTied
  · cases herror.symm.trans hrun
  · refine ((leads_sites hl (I := fun _ c => Tied p c) hl.isTied
      fun done entry c hac ht hn hs hlater => ?_).ok (hsites.symm.trans hrun)).2.2
    have hnew := not_mem_of_earlier hlater
    exact (leads_visitTied hl hac ht hn hs hnew).both (leads_visit hl hac hn hs hnew)
      |>.mono fun _ _ _ h => h.1

end Arena

end SchemaLang
