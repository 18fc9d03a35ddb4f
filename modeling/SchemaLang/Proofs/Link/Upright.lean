import SchemaLang.Proofs.Arena.Depth
import SchemaLang.Proofs.Link.Cycles
import SchemaLang.Proofs.Link.Parents

/-!
# The way up from the nodes of linked packages

A walk goes down from a package by what nodes own, and the depth of a node is found by going up. The two
agree because parents own, with one exception: a method that was copied shares its slots and attributes
with the method that it is a copy of, and they have the latter for their parent. But every method lies
below a contract, every contract below a script and every script below a package. So all methods are at
one depth, and what they own is one step deeper, whichever of them is the parent.

* `Arena.Aligned`: the invariant of the nodes that can be reached from linked packages.
* `Aligned.child_atDepth`: what a node owns is one step deeper.
* `Passes.aligned`: linking another package keeps the invariant.
-/

namespace SchemaLang

open Arena

namespace Arena

variable {a b c d : Arena} {n m p t x : Nat} {held served : NodeId → Prop}

/-- How the nodes lie below packages. -/
structure Aligned (held : NodeId → Prop) (a : Arena) : Prop where
  root : ∀ (q : Nat) (decl : Package), held q → a.kind q = .package decl → (a.node q).parent = none
  script : ∀ (s : Nat) (decl : Script), held s → a.kind s = .script decl →
    (a.node s).parent = some decl.package ∧ s ∈ a.scriptsOf decl.package
  tied : ∀ m x : Nat, held m → a.method? m = none → a.Child m x → (a.node x).parent = some m
  contract : ∀ t : Nat, held t → (a.contract? t).isSome → a.AtDepth t 2
  method : ∀ m : Nat, held m → (a.method? m).isSome → a.AtDepth m 3
  slot : ∀ m x : Nat, held m → (a.method? m).isSome → a.Child m x → a.AtDepth x 4

/-- What a node owns is one step deeper. -/
theorem Aligned.child_atDepth (h : Aligned held a) (hn : held n) {e : Nat} (hd : a.AtDepth n e)
    (hx : a.Child n x) : a.AtDepth x (e + 1) := by
  cases hm : a.method? n with
  | none => exact .up (h.tied n x hn hm hx) hd
  | some method =>
    have hmethod : (a.method? n).isSome := by rw [hm]; rfl
    cases hd.unique (h.method n hn hmethod)
    exact h.slot n x hn hmethod hx

/-- The way down ends, since no node is deeper than there are nodes. -/
theorem Aligned.descends (h : Aligned held a) (hc : a.ClosedUnder held) :
    a.Descends (fun n => a.size - a.depth n) fun n => held n ∧ ∃ e, a.AtDepth n e where
  lt_size _ := fun ⟨_, _, hd⟩ => hd.lt_size
  down n x := fun ⟨hn, e, hd⟩ hx => by
    have hdx := h.child_atDepth hn hd hx
    refine ⟨⟨hc.child hn hx, _, hdx⟩, ?_⟩
    have hlt := hdx.depth_lt
    rw [hdx.depth_eq, hd.depth_eq]
    omega

/-- If nodes lie below packages by several accounts, they do so together. -/
theorem Aligned.iUnion {ι : Type} {held : ι → NodeId → Prop} (h : ∀ i, Aligned (held i) a) :
    Aligned (fun n => ∃ i, held i n) a where
  root q decl := fun ⟨i, hq⟩ => (h i).root q decl hq
  script s decl := fun ⟨i, hs⟩ => (h i).script s decl hs
  tied m x := fun ⟨i, hm⟩ => (h i).tied m x hm
  contract t := fun ⟨i, ht⟩ => (h i).contract t ht
  method m := fun ⟨i, hm⟩ => (h i).method m hm
  slot m x := fun ⟨i, hm⟩ => (h i).slot m x hm

/-- The nodes lie as they did where they stay. -/
theorem Aligned.kept (h : Aligned held a) (hc : a.ClosedUnder held)
    (hb : ∀ n : Nat, held n → b.node n = a.node n) : Aligned held b := by
  have hkind : ∀ {n : Nat}, held n → b.kind n = a.kind n := fun h => congrArg Node.kind (hb _ h)
  have hchild : ∀ {m x : Nat}, held m → b.Child m x → a.Child m x := fun hm hx => by
    unfold Child children at hx ⊢
    rwa [hb _ hm] at hx
  have hdepth : ∀ {n e : Nat}, held n → a.AtDepth n e → b.AtDepth n e := fun hn hd =>
    hd.congr (fun m owner hm ho => hc m owner hm (Node.mem_links.2 (Or.inl ho)))
      (fun m hm => by rw [hb m hm]) (fun m decl hm hk => ⟨decl, (hkind hm).trans hk⟩) hn
  have hmethod : ∀ {m : Nat}, held m → b.method? m = a.method? m := fun hm => by
    unfold method?
    rw [hkind hm]
  refine ⟨fun q decl hq hk => ?_, fun s decl hs hk => ?_, fun m x hm hnot hx => ?_,
    fun t ht hk => hdepth ht ?_, fun m hm hk => hdepth hm ?_, fun m x hm hk hx => ?_⟩
  · rw [hb q hq]
    exact h.root q decl hq ((hkind hq).symm.trans hk)
  · obtain ⟨hparent, hmem⟩ := h.script s decl hs ((hkind hs).symm.trans hk)
    have hpackage : held decl.package := hc s _ hs (Node.mem_links.2 (Or.inl hparent))
    have hscripts : b.scriptsOf decl.package = a.scriptsOf decl.package :=
      scriptsOf_congr (by unfold package?; rw [hkind hpackage])
    exact ⟨by rw [hb s hs, hparent], hscripts ▸ hmem⟩
  · rw [hb x (hc.child hm (hchild hm hx))]
    exact h.tied m x hm ((hmethod hm).symm.trans hnot) (hchild hm hx)
  · rw [contract?_congr (hb t ht)] at hk
    exact h.contract t ht hk
  · rw [hmethod hm] at hk
    exact h.method m hm hk
  · rw [hmethod hm] at hk
    exact hdepth (hc.child hm (hchild hm hx)) (h.slot m x hm hk (hchild hm hx))

/-! ## A package that is read -/

/-- A node from a script has its owner for its parent, which is another such node or the script. -/
theorem Gathered.owner (h : Gathered p served a) (hn : a.home n = some p)
    (hl : (a.kind n).level < 7) : ∃ s ∈ a.scriptsOf p, ∃ m, a.Owner s m ∧ a.Child m n ∧
      a.Under m n ∧ (a.node n).parent = some m := by
  obtain ⟨s, hs, ho⟩ := h.own_of_level hn hl
  have hf := h.forest s hs
  obtain ⟨m, hm, hc⟩ := (hf.covered n ho).resolve_left List.not_mem_nil
  exact ⟨s, hs, m, hm, hc, (hf.child m n hm hc).2, hf.tied m n hm hc⟩

theorem Gathered.script_atDepth (h : Gathered p served a) {s : Nat} (hs : s ∈ a.scriptsOf p) :
    a.AtDepth s 1 := by
  obtain ⟨decl, hk⟩ := h.isPackage
  exact .up (h.parent s hs) (.top hk h.bare.2)

/-- A declaration lies below a script. -/
theorem Gathered.declaration_atDepth (h : Gathered p served a) (hn : a.home n = some p)
    (hl : (a.kind n).level = 6) : a.AtDepth n 2 := by
  obtain ⟨s, hs, m, hm, -, hunder, hparent⟩ := h.owner hn (by omega)
  rcases hm with rfl | hm
  · exact .up hparent (h.script_atDepth hs)
  · have hlevel := (h.forest s hs).level_lt hm
    rcases hunder with hlt | ⟨he, hlt, -⟩ <;> omega

/-- A method lies below a declaration. -/
theorem Gathered.method_atDepth (h : Gathered p served a) (ha : Anchored a)
    (hn : a.home n = some p) (hm : (a.method? n).isSome) : a.AtDepth n 3 := by
  obtain ⟨method, hk⟩ := Option.isSome_iff_exists.1 hm
  rw [method?_eq_some] at hk
  obtain ⟨s, hs, o, ho, hc, hunder, hparent⟩ := h.owner hn (by rw [hk]; exact (by decide : 5 < 7))
  have hf := h.forest s hs
  have hlevel : (a.kind n).level = 5 := by rw [hk]; rfl
  -- a method is no attribute, and no script and no node of its level owns it
  have hattr : n ∉ (a.node o).attrs := fun hx => by
    obtain ⟨attr, hattr⟩ := Option.isSome_iff_exists.1 (hf.dressed o n ho hx).1
    rw [attr?_eq_some, hk] at hattr
    cases hattr
  have hpart : n ∈ (a.kind o).parts := (List.mem_append.1 hc).resolve_left fun hx =>
    hattr (Array.mem_toList_iff.1 hx)
  rcases ho with rfl | ho
  · obtain ⟨script, hscript, hfit⟩ := hf.isScript
    rw [hscript] at hpart
    rcases List.mem_append.1 hpart with himport | htype
    · obtain ⟨q, hq⟩ := Option.isSome_iff_exists.1 (hfit.imports n himport)
      rw [packageRef?_eq_some, hk] at hq
      cases hq
    · have hsix := (h.listed.declared n (hfit.types n htype))
      omega
  · have hsix : (a.kind o).level = 6 := by
      have hlt := hf.level_lt ho
      rcases hunder with hlt' | ⟨he, -, -⟩
      · omega
      · have hfit := hf.fit o ho
        rw [hlevel] at he
        cases hko : a.kind o <;> rw [hko] at he hpart hfit
        case field decl =>
          have htype : (a.kind decl.type).isType = true := hfit
          rw [← List.mem_singleton.1 hpart, hk] at htype
          cases htype
        case method decl =>
          have hslot := hfit n hpart
          omega
        all_goals first | (cases he; done) | cases hpart
    exact .up hparent (h.declaration_atDepth (hf.home_of_own ha ho) hsix)

/-- The parent of what is no part of a declaration is none either. -/
theorem Gathered.parent_level (h : Gathered p served a) (hn : a.home n = some p)
    (hl : 5 ≤ (a.kind n).level) (hm : (a.node n).parent = some m) : 5 ≤ (a.kind m).level := by
  rcases Nat.lt_or_ge (a.kind n).level 7 with hlt | hge
  · obtain ⟨s, -, owner, -, -, hunder, howner⟩ := h.owner hn hlt
    cases hm.symm.trans howner
    rcases hunder with hlt | ⟨he, -, -⟩ <;> omega
  · -- a script lies below the package
    rcases h.whole n hn with rfl | ⟨s, hs, rfl | hown⟩
    · rw [h.bare.2] at hm
      cases hm
    · rw [h.parent n hs] at hm
      cases hm
      obtain ⟨decl, hk⟩ := h.isPackage
      rw [hk]
      exact (by decide : 5 ≤ 8)
    · exact absurd ((h.forest s hs).level_lt hown) (Nat.not_lt.2 hge)

/-- The way up from a node that is no part of a declaration stays where the parents on it do. -/
theorem Gathered.atDepth_congr (h : Gathered p served a) (ha : Anchored a)
    (hparent : ∀ n : Nat, a.home n = some p → a.attr? n = none →
      (d.node n).parent = (a.node n).parent)
    (hpackage : ∃ decl, d.kind p = .package decl) (hn : a.home n = some p)
    (hl : 5 ≤ (a.kind n).level) {e : Nat} (hdepth : a.AtDepth n e) : d.AtDepth n e := by
  have hup : ∀ m owner : Nat, a.home m = some p ∧ 5 ≤ (a.kind m).level →
      (a.node m).parent = some owner → a.home owner = some p ∧ 5 ≤ (a.kind owner).level :=
    fun m owner hm ho => ⟨h.parent_home ha hm.1 ho, h.parent_level hm.1 hm.2 ho⟩
  refine hdepth.congr hup (fun m hm => hparent m hm.1 ?_) (fun m decl hm hk => ?_) ⟨hn, hl⟩
  · cases hattr : a.attr? m with
    | none => rfl
    | some attr =>
      have hlevel := hm.2
      rw [attr?_eq_some.1 hattr] at hlevel
      exact absurd hlevel (by decide : ¬ 5 ≤ 3)
  · have he := hm.1
    rw [home_of_package hk] at he
    cases he
    exact hpackage

end Arena

/-! ## Linking -/

theorem NodeKind.Kept.parts_eq {x y : NodeKind} (h : x.Kept y) (hx : ∀ decl, x ≠ .contract decl) :
    y.parts = x.parts := by
  cases x with
  | enum decl =>
    obtain ⟨isError, rfl⟩ := h
    rfl
  | table decl =>
    obtain ⟨isStruct, rfl⟩ := h
    rfl
  | contract decl => exact absurd rfl (hx decl)
  | method decl =>
    obtain ⟨number, rfl⟩ := h
    rfl
  | _ =>
    cases h
    rfl

section

variable {a b c d : Arena} {n m p x builtin : Nat} {cached settled : NodeId → Prop} {scene : Scene}

/-- What a node has before flattening it has afterwards, except for contracts. -/
theorem Scene.Copies.child_iff (h : scene.Copies c d) (hn : n < c.size)
    (hk : ∀ decl, c.kind n ≠ .contract decl) : d.Child n x ↔ c.Child n x := by
  unfold Child children Node.children
  rw [h.attrs_eq n hn]
  have hparts := (h.kinds n hn).parts_eq hk
  unfold kind at hparts
  rw [hparts]

/-- A copy owns what the method does that it is a copy of. -/
theorem Scene.CopyOf.child_iff (h : Scene.CopyOf d m n) : d.Child n x ↔ d.Child m x := by
  obtain ⟨hattrs, decl, copy, hm, hn, hparams, hresults⟩ := h
  unfold Child children Node.children
  unfold kind at hm hn
  rw [hattrs, hm, hn]
  show x ∈ _ ++ (copy.params.toList ++ copy.results.toList) ↔ _
  rw [hparams, hresults]
  rfl

namespace Passes

variable (h : Passes p builtin cached settled a b c d) (hg : Gathered p cached a)

include h hg

theorem size_placed : c.size = a.size :=
  (h.laid.sheds h.placed).size_eq.trans (hg.binds_of_ok h.bound).1.size_eq

theorem package_iff {decl : Package} : d.kind n = .package decl ↔ a.kind n = .package decl := by
  rw [(h.rearranges.trans h.copies.toRearranges).kind_iff rfl (by exact (by decide : 8 ≠ 1)),
    (hg.binds_of_ok h.bound).1.package_iff]

theorem script_iff {decl : Script} : d.kind n = .script decl ↔ a.kind n = .script decl := by
  rw [(h.rearranges.trans h.copies.toRearranges).kind_iff rfl (by exact (by decide : 7 ≠ 1)),
    (hg.binds_of_ok h.bound).1.script_iff]

/-- Nothing but attributes gets another parent. -/
theorem parent_eq (hn : a.home n = some p) (hattr : a.attr? n = none) :
    (d.node n).parent = (a.node n).parent := by
  have hbinds : Binds a b := (hg.binds_of_ok h.bound).1
  have hfirm : Firm c d := (Link.ends_flattenContracts p).ok h.flattened
  rw [hfirm.parent n ((h.size_placed hg).symm ▸ lt_size_of_home hn), ← hbinds.parent_eq]
  refine (h.laid.sheds h.placed).parent_eq n (Option.eq_none_iff_forall_ne_some.2 fun decl hd => ?_)
  rw [attr?_eq_some, hbinds.kind_iff (by exact (by decide : (3 : Nat) ≠ 0)), ← attr?_eq_some,
    hattr] at hd
  cases hd

omit hg in
/-- A node that can be reached could be reached before, or belongs to the package, or is a copy. -/
theorem covers_cases (hn : Scene.Covers ⟨p, cached, settled, b⟩ d n) :
    settled n ∨ (d.home n = some p ∧ n < c.size) ∨ (c.size ≤ n ∧ n < d.size) := by
  rcases hn with hn | hn | ⟨hge, hn⟩
  · exact Or.inl hn
  · rcases Nat.lt_or_ge n c.size with hlt | hge
    · exact Or.inr (Or.inl ⟨hn, hlt⟩)
    · exact Or.inr (Or.inr ⟨hge, lt_size_of_home hn⟩)
  · exact Or.inr (Or.inr ⟨(h.laid.sheds h.placed).size_eq ▸ hge, hn⟩)

/-- The scripts of the package are where they were. -/
theorem script_placed {decl : Script} (hn : d.home n = some p) (hk : d.kind n = .script decl) :
    (d.node n).parent = some decl.package ∧ n ∈ d.scriptsOf decl.package := by
  have hka : a.kind n = .script decl := (h.script_iff hg).1 hk
  obtain rfl : decl.package = p := Option.some.inj ((home_of_script hk).symm.trans hn)
  have hna : a.home n = some decl.package := home_of_script hka
  obtain ⟨package, hpackage⟩ := hg.isPackage
  have hscripts : d.scriptsOf decl.package = a.scriptsOf decl.package := scriptsOf_congr (by
    rw [package?_eq_some.2 hpackage, package?_eq_some.2 ((h.package_iff hg).2 hpackage)])
  rcases hg.whole n hna with rfl | ⟨s, hs, rfl | ho⟩
  · cases hka.symm.trans hpackage
  · refine ⟨?_, hscripts ▸ hs⟩
    rw [h.parent_eq hg hna (by unfold attr?; rw [hka]), hg.parent n hs]
  · have hlt := (hg.forest s hs).level_lt ho
    rw [hka] at hlt
    exact absurd hlt (Nat.lt_irrefl _)

section

variable (ha : Anchored a)

include ha

/-- The way up from what is no part of a declaration stays. -/
theorem atDepth_of_level {e : Nat} (hn : d.home n = some p) (hlt : n < c.size)
    (hl : 5 ≤ (d.kind n).level) (hdepth : a.home n = some p → a.AtDepth n e) : d.AtDepth n e := by
  have hlt' : n < a.size := h.size_placed hg ▸ hlt
  have hna : a.home n = some p := (h.within_all.homes n hlt').symm.trans hn
  rw [NodeKind.level_congr (h.within_all.shape n hlt')] at hl
  exact hg.atDepth_congr ha (fun _ => h.parent_eq hg) h.holds.isPackage hna hl (hdepth hna)

variable (hsettled : Aligned settled d)

include hsettled

theorem contract_atDepth {t : Nat} (ht : Scene.Covers ⟨p, cached, settled, b⟩ d t)
    (hk : (d.contract? t).isSome) : d.AtDepth t 2 := by
  obtain ⟨decl, hd⟩ := Option.isSome_iff_exists.1 hk
  have hl : (d.kind t).level = 6 := by rw [contract?_eq_some.1 hd]; rfl
  rcases h.covers_cases ht with hst | ⟨hhome, hlt⟩ | ⟨hge, -⟩
  · exact hsettled.contract t hst hk
  · refine h.atDepth_of_level hg ha hhome hlt (by omega) fun hna => hg.declaration_atDepth hna ?_
    rw [← NodeKind.level_congr (h.within_all.shape t (h.size_placed hg ▸ hlt)), hl]
  · exact absurd (h.copies.toRearranges.lt_size hl) (Nat.not_lt.2 hge)

/-- A copy lies below the contract that it was made for. -/
theorem method_atDepth (hm : Scene.Covers ⟨p, cached, settled, b⟩ d m) (hk : (d.method? m).isSome) :
    d.AtDepth m 3 := by
  obtain ⟨decl, hd⟩ := Option.isSome_iff_exists.1 hk
  have hl : (d.kind m).level = 5 := by rw [method?_eq_some.1 hd]; rfl
  rcases h.covers_cases hm with hsm | ⟨hhome, hlt⟩ | ⟨hge, hlt⟩
  · exact hsettled.method m hsm hk
  · refine h.atDepth_of_level hg ha hhome hlt (by omega) fun hna => hg.method_atDepth ha hna ?_
    rwa [← method?_isSome_congr (h.within_all.shape m (h.size_placed hg ▸ hlt))]
  · obtain ⟨t, hparent, ht⟩ :=
      ((Link.ends_flattenContracts p).ok h.flattened : Firm c d).fresh m hge hlt
    exact .up hparent (h.contract_atDepth hg ha hsettled
      (h.holds.closed m t hm (Node.mem_links.2 (Or.inl hparent))) ht)

end

omit hg in
/-- What a node of the package owned before flattening has it as its parent. -/
theorem parent_of_child (hhome : d.home m = some p) (hlt : m < c.size) (hx : c.Child m x) :
    (d.node x).parent = some m := by
  have htied : Tied p c := h.laid.isTied_placed h.placed
  have hfirm : Firm c d := (Link.ends_flattenContracts p).ok h.flattened
  have hparent := htied.parent m x ((h.copies.homes m hlt).symm.trans hhome) hx
  rw [hfirm.parent x (lt_size_of_parent hparent), hparent]

variable (ha : Anchored a) (hs : Settled cached settled a) (hp : ¬ cached p) (hf : Finished cached a)

include ha hs hp hf

/-- Flattening has put methods below the contract, with the contract as their parent. -/
theorem parent_of_contract_child {decl : Contract} (hhome : d.home m = some p) (hlt : m < c.size)
    (hk : d.kind m = .contract decl) (hx : d.Child m x) : (d.node x).parent = some m := by
  have hchild : x ∈ (d.node m).attrs.toList ++ (d.kind m).parts := hx
  rw [hk] at hchild
  obtain ⟨old, hold⟩ : ∃ old, c.kind m = .contract old := by
    have hshape := h.copies.shape m hlt
    rw [hk] at hshape
    exact NodeKind.contract_of_ctorIdx hshape.symm
  obtain ⟨decl', hdecl', hbases, -⟩ : NodeKind.Kept (.contract old) (d.kind m) :=
    hold ▸ h.copies.kinds m hlt
  cases hk.symm.trans hdecl'
  rcases List.mem_append.1 hchild with hattr | hpart
  · rw [h.copies.attrs_eq m hlt] at hattr
    exact h.parent_of_child hhome hlt (List.mem_append_left _ hattr)
  rcases List.mem_append.1 hpart with hbase | hown
  · rw [hbases] at hbase
    refine h.parent_of_child hhome hlt (List.mem_append_right _ ?_)
    unfold kind at hold
    rw [hold]
    exact List.mem_append_left _ hbase
  · have htype : m ∈ d.typesOf p :=
      (h.linked.listed p (Or.inl rfl)).complete m hhome (by rw [hk]; rfl)
    obtain ⟨entry, he, rfl⟩ := List.mem_map.1 hown
    have hcontract := contract?_eq_some.2 hk
    have hfinished := h.finished hg ha hs hp hf p m (Or.inl rfl) htype (by rw [hcontract]; rfl)
    exact (hfinished.owned entry (by rwa [methodsOf_eq hcontract])).2.2.2

/-- Once another package is linked, all nodes that can be reached lie below packages as they should. -/
theorem aligned (hold : Aligned settled a) :
    Aligned (Scene.Covers ⟨p, cached, settled, b⟩ d) d := by
  have hsettled : Aligned settled d :=
    hold.kept hs.closed fun n hn => hs.node_eq h.within_all hp hn
  have hmethod : ∀ m : Nat, Scene.Covers ⟨p, cached, settled, b⟩ d m → (d.method? m).isSome →
      d.AtDepth m 3 := fun m => h.method_atDepth hg ha hsettled
  have hfresh : ∀ n : Nat, c.size ≤ n → n < d.size → (d.method? n).isSome := fun n hn hn' =>
    (h.copies.fresh n hn hn').2.1
  refine ⟨fun q decl hq hk => ?_, fun s decl hcs hk => ?_, fun m x hm hnot hx => ?_,
    fun t => h.contract_atDepth hg ha hsettled, hmethod, fun m => ?_⟩
  · rcases h.covers_cases hq with hsq | ⟨hhome, hlt⟩ | ⟨hge, hlt⟩
    · exact hsettled.root q decl hsq hk
    · obtain rfl : q = p := Option.some.inj ((home_of_package hk).symm.trans hhome)
      obtain ⟨old, hkold⟩ := hg.isPackage
      rw [h.parent_eq hg (home_of_package hkold) (by unfold attr?; rw [hkold]), hg.bare.2]
    · have hm := hfresh q hge hlt
      unfold method? at hm
      rw [hk] at hm
      cases hm
  · rcases h.covers_cases hcs with hss | ⟨hhome, -⟩ | ⟨hge, hlt⟩
    · exact hsettled.script s decl hss hk
    · exact h.script_placed hg hhome hk
    · have hm := hfresh s hge hlt
      unfold method? at hm
      rw [hk] at hm
      cases hm
  · rcases h.covers_cases hm with hsm | ⟨hhome, hlt⟩ | ⟨hge, hlt⟩
    · exact hsettled.tied m x hsm hnot hx
    · cases hk : d.contract? m with
      | some decl =>
        exact h.parent_of_contract_child hg ha hs hp hf hhome hlt (contract?_eq_some.1 hk) hx
      | none =>
        refine h.parent_of_child hhome hlt ((h.copies.child_iff hlt fun decl hd => ?_).1 hx)
        have hshape := h.copies.shape m hlt
        rw [hd] at hshape
        obtain ⟨decl', hd'⟩ := NodeKind.contract_of_ctorIdx hshape
        rw [contract?_eq_some.2 hd'] at hk
        cases hk
    · have hm := hfresh m hge hlt
      rw [hnot] at hm
      cases hm
  · -- the source of a copy is an older node
    induction m using Nat.strong_induction_on with
    | h m ih =>
      intro x hm hk hx
      rcases h.covers_cases hm with hsm | ⟨hhome, hlt⟩ | ⟨hge, hlt⟩
      · exact hsettled.slot m x hsm hk hx
      · refine .up (h.parent_of_child hhome hlt ((h.copies.child_iff hlt fun decl hd => ?_).1 hx))
          (hmethod m hm hk)
        rw [method?_isSome_congr (h.copies.shape m hlt)] at hk
        unfold method? at hk
        rw [hd] at hk
        cases hk
      · obtain ⟨source, hlt', hsource, hcopy⟩ := h.copies.copied m hge hlt
        obtain ⟨-, decl, -, hd, -⟩ := id hcopy
        refine ih source hlt' x ?_ (by rw [method?_eq_some.2 hd]; rfl) (hcopy.child_iff.1 hx)
        rcases hsource with hsource | hsource | hsource
        · exact Or.inl hsource
        · exact Or.inr (Or.inl ((h.holds.homes source (lt_size_of_home hsource)).trans hsource))
        · exact Or.inr (Or.inr ⟨hsource, Nat.lt_trans hlt' hlt⟩)

end Passes

end

end SchemaLang
