import SchemaLang.Proofs.Link.Flattening
import SchemaLang.Proofs.Link.Tagging

/-!
# Packages whose contracts are flattened

What flattening asks of the contracts that it starts from is there when it starts
(`Arena.Gathered.readyToFlatten`): the contracts of the package are as they were read, and those of the
packages that it imports are flattened. For the latter the contracts of linked packages have to be
flattened with dense ids (`Arena.Finished`), which they are, because linking leaves them so
(`Passes.finished`) and nothing changes them later (`Arena.Finished.within`).
-/

namespace SchemaLang

open Relation

namespace Arena

variable {a b c : Arena} {n p t x y : Nat} {cached settled held served : NodeId → Prop}

/-- The contracts of the packages are flattened, and their methods have dense ids. -/
def Finished (linked : NodeId → Prop) (a : Arena) : Prop :=
  ∀ q t : Nat, linked q → t ∈ a.typesOf q → (a.contract? t).isSome → a.FlattenedContract t

/-! ## Contracts that stay -/

theorem mem_parts_of_basesOf (h : y ∈ (a.basesOf x).toList) : y ∈ (a.kind x).parts := by
  unfold basesOf at h
  cases hd : a.contract? x with
  | none =>
    rw [hd] at h
    cases h
  | some decl =>
    rw [hd] at h
    rw [contract?_eq_some.1 hd]
    exact List.mem_append_left _ h

section

variable (hc : a.ClosedUnder held) (hb : ∀ n : Nat, held n → b.node n = a.node n)

include hc hb

/-- What a contract of a closed set inherits from is in the set, and stays. -/
theorem ClosedUnder.inherits (hx : held x) (h : b.Inherits x y) : a.Inherits x y ∧ held y := by
  obtain ⟨reference, hr, hbound⟩ := h
  unfold basesOf at hr
  rw [contract?_congr (hb x hx)] at hr
  have hheld := hc.part hx (mem_parts_of_basesOf hr)
  have hbound' : a.boundTo reference = some y := by
    rw [← hbound]
    unfold boundTo reference?
    rw [kind_congr (hb reference hheld)]
  refine ⟨⟨reference, hr, hbound'⟩, hc.reference hheld ?_⟩
  obtain ⟨decl, hd, ht⟩ := Option.bind_eq_some_iff.1 hbound'
  rw [reference?_eq_some.1 hd]
  exact Option.mem_toList.2 ht

theorem ClosedUnder.reaches_inherits (hx : held x) (h : ReflTransGen b.Inherits x y) :
    ReflTransGen a.Inherits x y ∧ held y := by
  induction h with
  | refl => exact ⟨.refl, hx⟩
  | tail _ hstep ih =>
    obtain ⟨hi, hy⟩ := hc.inherits hb ih.2 hstep
    exact ⟨ih.1.tail hi, hy⟩

/-- A contract of a closed set stays flattened where the set stays. -/
theorem ClosedUnder.flattened (hsize : a.size ≤ b.size) (ht : held t) (h : a.FlattenedContract t) :
    b.FlattenedContract t := by
  obtain ⟨decl, hd, hf⟩ := h.decl
  have hkept : Link.Kept a b t := by
    refine ⟨hb t ht, fun entry he => hb entry.2 (hc.part ht ?_)⟩
    rw [methodsOf_eq hd] at he
    rw [contract?_eq_some.1 hd]
    exact List.mem_append_right _ (List.mem_map_of_mem he)
  refine ⟨⟨decl, by rw [contract?_congr hkept.1, hd], hf⟩, hkept.owned hsize h.owned, ?_, ?_,
    fun other hreach hcycle => ?_⟩
  · unfold methodsById
    rw [hkept.numbering, methodsOf_congr hkept.1]
    exact h.dense
  · rw [methodsOf_congr hkept.1]
    exact h.short
  · obtain ⟨hreach, hother⟩ := hc.reaches_inherits hb ht hreach
    obtain ⟨next, hstep, hrest⟩ := TransGen.head'_iff.1 hcycle
    obtain ⟨hi, hnext⟩ := hc.inherits hb hother hstep
    exact h.acyclic other hreach (.head' hi (hc.reaches_inherits hb hnext hrest).1)

end

/-- Steps within a package that is not linked leave the contracts of linked ones flattened. -/
theorem Finished.within (h : Finished cached a) (hs : Settled cached settled a)
    (hw : Within p served a b) (hp : ¬ cached p) : Finished cached b := by
  intro q t hq ht hcontract
  have hnode : ∀ n, settled n → b.node n = a.node n := fun n hn => hs.node_eq hw hp hn
  have hheld := (hs.package q hq).1
  rw [typesOf_congr (hnode q hheld)] at ht
  have hst := hs.closed.reference hheld (mem_references_of_typesOf ht)
  rw [contract?_congr (hnode t hst)] at hcontract
  exact hs.closed.flattened hnode hw.size_le hst (h q t hq ht hcontract)

/-! ## What flattening starts from -/

theorem Binds.contract_iff {decl : Contract} (h : Binds a b) :
    b.kind n = .contract decl ↔ a.kind n = .contract decl :=
  h.kind_iff (by exact (by decide : 6 ≠ 0))

/-- A contract has no tag. -/
theorem Retagged.contract_iff {decl : Contract} (h : Retagged a c) :
    c.kind n = .contract decl ↔ a.kind n = .contract decl := by
  have huntag := h.untag n
  constructor
  · intro hk
    rw [hk] at huntag
    cases hka : a.kind n <;> rw [hka] at huntag <;> first | exact huntag.symm | cases huntag
  · intro hk
    rw [hk] at huntag
    cases hkc : c.kind n <;> rw [hkc] at huntag <;> first | exact huntag | cases huntag

/-- Before the third pass a contract of the package is as it was read. -/
theorem Gathered.declaredContract (hg : Gathered p cached a) (ha : Anchored a) (hb : Binds a b)
    (hs : Sheds (fun n => b.home n = some p) b c) (ht : t ∈ a.typesOf p)
    (hcontract : (c.contract? t).isSome) : c.DeclaredContract t := by
  obtain ⟨decl, hd⟩ := Option.isSome_iff_exists.1 hcontract
  have hkb : b.kind t = .contract decl := hs.toRetagged.contract_iff.1 (contract?_eq_some.1 hd)
  have hka : a.kind t = .contract decl := hb.contract_iff.1 hkb
  have hhome : b.home t = some p := (hb.home_eq t).trans (hg.type_home ha ht)
  obtain ⟨s, hsmem, ho⟩ := hg.types t ht
  have hfit := (hg.forest s hsmem).fit t ho
  rw [hka] at hfit
  have hfit : ContractFit a decl := hfit
  -- methods are neither bound nor tagged nor moved
  have hmethod : ∀ {m : Nat} {method : Method}, a.kind m = .method method → c.kind m = .method method :=
    fun hk => (hs.toRetagged.kind_iff (by exact (by decide : 5 ≠ 6))).2
      ((hb.kind_iff (by exact (by decide : 5 ≠ 0))).2 hk)
  refine ⟨⟨decl, hd, hfit.flattened⟩, fun entry he => ?_, fun i entry he => ?_⟩
  · rw [methodsOf_eq hd] at he
    obtain ⟨i, hi, hget⟩ := List.getElem_of_mem he
    obtain ⟨hname, method, hk, -⟩ := hfit.methods i entry (List.getElem?_eq_some_iff.2 ⟨hi, hget⟩)
    have hchild : b.Child t entry.2 := by
      refine List.mem_append_right _ ?_
      unfold kind at hkb
      rw [hkb]
      exact List.mem_append_right _ (List.mem_map_of_mem he)
    have hnone : b.attr? entry.2 = none := by
      unfold attr?
      rw [(hb.kind_iff (by exact (by decide : 5 ≠ 0))).2 hk]
    refine ⟨lt_size_of_kind ?_, ?_, ?_, ?_⟩
    · rw [hmethod hk]
      exact (by decide : 5 ≠ 1)
    · rw [method?_eq_some.2 (hmethod hk)]
      rfl
    · rw [hs.name_eq, hb.name_eq, hname]
    · rw [hs.parent_eq entry.2 hnone]
      exact ((hg.laid ha).binds hb).tied t entry.2 hhome hchild
  · rw [methodsOf_eq hd] at he
    obtain ⟨-, method, hk, hid⟩ := hfit.methods i entry he
    unfold methodId
    rw [method?_eq_some.2 (hmethod hk)]
    exact hid

/-- When the third pass starts, the package is ready for it. -/
theorem Gathered.readyToFlatten {builtin : NodeId} (hg : Gathered p cached a) (ha : Anchored a)
    (hs : Settled cached settled a) (hp : ¬ cached p) (hf : Finished cached a)
    (hbind : Link.bindReferences p a = .ok () b)
    (hplace : Link.placeAttributes p builtin b = .ok () c) :
    ∃ decl, c.package? p = some decl ∧ c.ReadyToFlatten decl.types := by
  obtain ⟨hb, hframe, hbound⟩ := hg.binds_of_ok hbind
  have hw := hg.within_binds ha hb hframe
  have hsheds := ((hg.laid ha).binds hb).sheds hplace
  obtain ⟨hr, hc⟩ := (Scene.leads_placeAttributes (hg.placing ha hs hp hb hframe hbound)
    builtin).ok hplace
  obtain ⟨decl, hd⟩ := hg.isPackage
  have hdc : c.kind p = .package decl :=
    (hsheds.toRetagged.kind_iff (by exact (by decide : 8 ≠ 6))).2 (hb.package_iff.2 hd)
  refine ⟨decl, package?_eq_some.2 hdc, fun t ht hcontract => ?_, fun t ht base hi hbase hnot => ?_⟩
  · rw [← typesOf_eq hd] at ht
    exact hg.declaredContract ha hb hsheds ht hcontract
  · rw [← typesOf_eq hdc] at ht hnot
    obtain ⟨reference, hmem, hto⟩ := hi
    obtain ⟨target, hbd⟩ := Option.isSome_iff_exists.1 hbase
    have hct := hc.closed.reference hc.covers_package (mem_references_of_typesOf ht)
    have hcr := hc.closed.part hct (mem_parts_of_basesOf hmem)
    obtain ⟨⟨path, target'⟩, hr', ht'⟩ := Option.bind_eq_some_iff.1 hto
    cases (show target' = some base from ht')
    obtain ⟨q, hq, hmemq⟩ := hc.aimed hcr (reference?_eq_some.1 hr') (contract?_eq_some.1 hbd)
    obtain ⟨package, hkq, -⟩ := package_of_typesOf hmemq
    obtain ⟨q', hhome, hor⟩ := hc.home q hq
    rw [home_of_package hkq] at hhome
    cases hhome
    rcases hor with rfl | hcached
    · exact absurd hmemq hnot
    · exact (hf.within hs (hw.trans hr.within) hp) q base hcached hmemq hbase

end Arena

/-! ## What flattening leaves -/

open Arena

variable {a b c d : Arena} {builtin n p t : Nat} {cached settled : NodeId → Prop} {types : Registry}

/-- A contract that is done is flattened, with dense ids. -/
theorem Link.Done.flattenedContract {names : List String} (h : Done a b t names)
    (hready : a.ReadyToFlatten types) (ht : t ∈ types.nodes) (hinherits : b.Inherits = a.Inherits) :
    b.FlattenedContract t where
  decl := h.decl
  owned := h.owned
  dense := by
    rw [methodsById_eq_zipIdx h.numbers, List.zipIdx_map_snd, List.range_eq_range',
      length_of_numbers h.numbers]
  short := by
    rw [length_of_numbers h.numbers]
    exact h.short
  acyclic := by
    unfold InheritanceAcyclic
    rw [hinherits]
    exact hready.acyclic_of_flat ht h.flat

/-- The passes change no base of any contract, and add no contracts. -/
theorem Scene.Rearranges.basesOf_eq {scene : Scene} (h : scene.Rearranges a b) (n : Nat) :
    b.basesOf n = a.basesOf n := by
  unfold Arena.basesOf
  cases ha : a.contract? n with
  | some decl =>
    have hk := contract?_eq_some.1 ha
    have hkept := h.kinds n (lt_size_of_kind (by rw [hk]; exact (by decide : 6 ≠ 1)))
    rw [hk] at hkept
    obtain ⟨decl', hd', hbases, -⟩ := hkept
    rw [contract?_eq_some.2 hd']
    exact hbases
  | none =>
    cases hb : b.contract? n with
    | none => rfl
    | some decl =>
      have hk := contract?_eq_some.1 hb
      have hshape := h.shape n (h.lt_size (by rw [hk]; rfl))
      rw [hk] at hshape
      obtain ⟨decl', hd⟩ := NodeKind.contract_of_ctorIdx hshape.symm
      rw [contract?_eq_some.2 hd] at ha
      cases ha

theorem Scene.Rearranges.reference?_eq {scene : Scene} (h : scene.Rearranges a b) (n : Nat) :
    b.reference? n = a.reference? n := Option.ext fun decl => by
  rw [reference?_eq_some, reference?_eq_some]
  exact h.kind_iff rfl (by exact (by decide : 0 ≠ 1))

theorem Scene.Rearranges.inherits_eq {scene : Scene} (h : scene.Rearranges a b) :
    b.Inherits = a.Inherits := by
  funext x y
  simp only [Inherits, boundTo, h.basesOf_eq, h.reference?_eq]

/-- Once a package is linked, its contracts are flattened with dense ids, too. -/
theorem Passes.finished (h : Passes p builtin cached settled a b c d) (hg : Gathered p cached a)
    (ha : Anchored a) (hs : Settled cached settled a) (hp : ¬ cached p) (hf : Finished cached a) :
    Finished (fun q => q = p ∨ cached q) d := by
  rintro q t (rfl | hq) ht hcontract
  · obtain ⟨decl, hd, hready⟩ := hg.readyToFlatten ha hs hp hf h.bound h.placed
    obtain ⟨-, ⟨d', hrun, hadv, hdone⟩ | ⟨failure, d', hrun, -⟩⟩ :=
      Link.flattenContractsWith_outcome Adder.exact_wrapping hd hready
    · cases hrun.symm.trans h.flattened
      have hk := package?_eq_some.1 hd
      rw [h.copies.toRearranges.typesOf_eq (lt_size_of_home (home_of_package hk)) ⟨decl, hk⟩,
        typesOf_eq hk] at ht
      rw [hadv.progress.contracts] at hcontract
      obtain ⟨names, hdone⟩ := hdone t ht hcontract
      exact hdone.flattenedContract hready ht h.copies.toRearranges.inherits_eq
    · cases hrun.symm.trans h.flattened
  · have hw := h.within.trans (h.rearranges.trans h.copies.toRearranges).within
    exact hf.within hs hw hp q t hq ht hcontract

end SchemaLang
