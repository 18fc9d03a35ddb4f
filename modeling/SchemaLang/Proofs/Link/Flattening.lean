import SchemaLang.Proofs.Link.Inheriting

/-!
# Flattening computes the flat lists

The pass walks up from every contract of a package and completes a contract after its bases. What a
run leads to is said against the arena it starts from: a contract of the package is either as it was
read or done, that is, it has its flat list under dense ids.

* `Link.Progress`: the invariant between two contracts.
* `Link.Outcome`: some contracts are done, or one of them has no flat list that fits.
* `Link.flatten_outcome`: the walk from one contract, by induction on the room that is left for
  waiting contracts. A contract that waits for itself is on a cycle.
* `Link.flattenContracts_correct`: the pass as a whole.
-/

namespace SchemaLang

open Relation

variable {a₀ a a' b : Arena} {types : Registry} {c n : Nat}

namespace Arena

/-! ## What the start promises -/

/-- The contract has a flat list that fits its methods. -/
def Sound (arena : Arena) (contract : NodeId) : Prop :=
  ∃ names, arena.Flat contract names ∧ names.Nodup ∧ names.length ≤ 65535

theorem InheritanceAcyclic.of_reach {d : Nat} (h : a.InheritanceAcyclic c)
    (hr : ReflTransGen a.Inherits c d) : a.InheritanceAcyclic d :=
  fun other ho => h other (hr.trans ho)

theorem isContract_of_inherits {d : Nat} (h : a.Inherits c d) : (a.contract? c).isSome := by
  obtain ⟨reference, hr, -⟩ := h
  unfold basesOf at hr
  cases hc : a.contract? c with
  | none => rw [hc] at hr; cases hr
  | some decl => rfl

/-- From a contract of the package, no flattened contract on the way up reaches a cycle. -/
theorem ReadyToFlatten.acyclic_end (h : a.ReadyToFlatten types) {other : Nat} {decl : Contract}
    (hreach : ReflTransGen a.Inherits c other) (hc : c ∈ types.nodes)
    (ho : a.contract? other = some decl) (hf : decl.flattened = true) :
    a.InheritanceAcyclic other := by
  induction hreach using ReflTransGen.head_induction_on with
  | refl =>
    obtain ⟨d, hd, hd'⟩ := (h.declared other hc (by rw [ho]; rfl)).decl
    rw [ho] at hd
    cases hd
    rw [hf] at hd'
    cases hd'
  | @head x base hx hrest ih =>
    by_cases hb : (a.contract? base).isSome
    · by_cases hm : base ∈ types.nodes
      · exact ih hm
      · exact (h.imported x hc base hx hb hm).acyclic.of_reach hrest
    · -- What is no contract has no bases, so the way ends here.
      rcases ReflTransGen.cases_head hrest with rfl | ⟨next, hn, -⟩
      · rw [ho] at hb
        exact absurd rfl hb
      · exact absurd (isContract_of_inherits hn) hb

theorem ReadyToFlatten.acyclic_of_flat (h : a.ReadyToFlatten types) (hc : c ∈ types.nodes)
    {names : List String} (hflat : a.Flat c names) : a.InheritanceAcyclic c :=
  hflat.acyclic fun _ _ hreach ho hf => h.acyclic_end hreach hc ho hf

/-- Ids that are the list of the numbers from zero on. -/
theorem eq_zipIdx_of_snd_eq_range : ∀ {l : List (String × Nat)} {start : Nat},
    l.map (·.2) = List.range' start l.length → l = (l.map (·.1)).zipIdx start
  | [], _, _ => rfl
  | (name, number) :: rest, start, h => by
    rw [List.length_cons, List.range'_succ, List.map_cons, List.cons.injEq] at h
    obtain ⟨hn, hrest⟩ := h
    rw [List.map_cons, List.zipIdx_cons, ← eq_zipIdx_of_snd_eq_range hrest]
    rw [show number = start from hn]

/-- The methods of a contract in the order of their ids, when these are dense. -/
theorem methodsById_eq_zipIdx {names : List String} (h : (a.numbering c).Perm names.zipIdx) :
    a.methodsById c = names.zipIdx := by
  have hsorted : names.zipIdx.Pairwise fun x y => x.2 ≤ y.2 := by
    have h := List.pairwise_lt_range' (s := 0) (n := names.length)
    rw [← List.zipIdx_map_snd 0 names, List.pairwise_map] at h
    exact h.imp Nat.le_of_lt
  have hmerge : (a.methodsById c).Pairwise fun x y => x.2 ≤ y.2 := by
    have h : (a.methodsById c).Pairwise fun x y => decide (x.2 ≤ y.2) = true :=
      List.pairwise_mergeSort (fun x y z hx hy => by simp only [decide_eq_true_eq] at *; omega)
        (fun x y => by simp only [Bool.or_eq_true, decide_eq_true_eq]; omega) (a.numbering c)
    exact h.imp of_decide_eq_true
  refine List.Perm.eq_of_pairwise ?_ hmerge hsorted ((List.mergeSort_perm _ _).trans h)
  -- Two entries of the list with one id are one entry.
  intro x y hx hy hle hge
  have hx := h.subset ((List.mergeSort_perm _ _).subset hx)
  obtain ⟨-, hx⟩ := List.mem_zipIdx' (x := x.1) (i := x.2) hx
  obtain ⟨-, hy⟩ := List.mem_zipIdx' (x := y.1) (i := y.2) hy
  have hnumber : x.2 = y.2 := Nat.le_antisymm hle hge
  refine Prod.ext ?_ hnumber
  rw [hx, hy]
  simp only [hnumber]

end Arena

namespace Link

open Arena

variable {add : Adder}

/-! ## What a run preserves -/

/-- A contract and its methods are the same nodes in both arenas. -/
def Kept (a a' : Arena) (contract : NodeId) : Prop :=
  a'.node contract = a.node contract ∧ ∀ entry ∈ a.methodsOf contract, a'.node entry.2 = a.node entry.2

theorem Kept.refl (a : Arena) (c : Nat) : Kept a a c := ⟨rfl, fun _ _ => rfl⟩

theorem Kept.trans (h : Kept a b c) (h' : Kept b a' c) : Kept a a' c := by
  refine ⟨h'.1.trans h.1, fun entry he => ?_⟩
  rw [h'.2 entry (by rw [methodsOf_congr h.1]; exact he), h.2 entry he]

theorem Kept.owned (h : Kept a a' c) (hs : a.size ≤ a'.size) (ho : a.MethodsOwned c) :
    a'.MethodsOwned c := by
  intro entry he
  rw [methodsOf_congr h.1] at he
  obtain ⟨h₁, h₂, h₃, h₄⟩ := ho entry he
  have hn := h.2 entry he
  unfold name at *
  rw [method?_congr hn, hn]
  exact ⟨Nat.lt_of_lt_of_le h₁ hs, h₂, h₃, h₄⟩

theorem Kept.numbering (h : Kept a a' c) : a'.numbering c = a.numbering c := by
  unfold Arena.numbering
  rw [methodsOf_congr h.1]
  exact List.map_congr_left fun entry he => by rw [methodId_congr (h.2 entry he)]

/-- A contract is flattened, and its methods are its flat list in the arena of the start. -/
structure Done (a₀ a : Arena) (contract : NodeId) (names : List String) : Prop where
  flat : a₀.Flat contract names
  nodup : names.Nodup
  short : names.length ≤ 65535
  decl : ∃ decl, a.contract? contract = some decl ∧ decl.flattened = true
  owned : a.MethodsOwned contract
  numbers : (a.numbering contract).Perm names.zipIdx

theorem Done.kept {names : List String} (h : Done a₀ a c names) (hk : Kept a a' c)
    (hs : a.size ≤ a'.size) : Done a₀ a' c names where
  flat := h.flat
  nodup := h.nodup
  short := h.short
  decl := by
    rw [contract?_congr hk.1]
    exact h.decl
  owned := hk.owned hs h.owned
  numbers := by
    rw [hk.numbering]
    exact h.numbers

/-- A contract that was flattened before the pass is done. -/
theorem Done.of_flattened (h : a.FlattenedContract c) : ∃ names, Done a a c names := by
  obtain ⟨decl, hd, hf⟩ := h.decl
  have hperm : (a.methodsById c).Perm (a.numbering c) := List.mergeSort_perm _ _
  have hlength : (a.methodsById c).length = (a.methodsOf c).length := by
    rw [hperm.length_eq]
    exact List.length_map _
  have hdense : (a.methodsById c).map (·.2) = List.range' 0 (a.methodsById c).length := by
    rw [h.dense, hlength, List.range_eq_range']
  have hnames : ((a.methodsById c).map (·.1)).Perm decl.methods.names := by
    have hp := hperm.map Prod.fst
    unfold Arena.numbering at hp
    rw [methodsOf_eq hd, List.map_map] at hp
    exact hp
  refine ⟨_, .flattened hd hf, ?_, ?_, ⟨decl, hd, hf⟩, h.owned, ?_⟩
  · exact hnames.nodup_iff.2 decl.methods.names_nodup
  · rw [List.length_map, hlength]
    exact h.short
  · rw [← eq_zipIdx_of_snd_eq_range hdense]
    exact hperm.symm

/-- Where a method of a contract comes from: it was there at the start, or it is a new node below
the contract, the copy of a method of a base. -/
def Origin (a₀ a : Arena) (contract : NodeId) (entry : String × NodeId) : Prop :=
  entry ∈ a₀.methodsOf contract ∨ a₀.size ≤ entry.2 ∧
    ∃ base source, a₀.Inherits contract base ∧ (∃ names, Done a₀ a base names) ∧
      (entry.1, source) ∈ a.methodsOf base ∧
      ∃ number, IsCopy (a.node entry.2) (a.node source) contract number

/-- What holds between two contracts: references are bound as at the start, and the contracts of the
package are as they were read or done. -/
structure Progress (a₀ : Arena) (types : Registry) (a : Arena) : Prop where
  size_le : a₀.size ≤ a.size
  references : ∀ n, a.reference? n = a₀.reference? n
  contracts : ∀ n, (a.contract? n).isSome = (a₀.contract? n).isSome
  status : ∀ contract ∈ types.nodes, (a₀.contract? contract).isSome →
    Kept a₀ a contract ∨ ∃ names, Done a₀ a contract names
  imported : ∀ base, a₀.FlattenedContract base → base ∉ types.nodes → Kept a₀ a base
  origin : ∀ contract ∈ types.nodes, ∀ names, Done a₀ a contract names →
    ∀ entry ∈ a.methodsOf contract, Origin a₀ a contract entry

/-- What a part of the pass does: the contracts that are done stay as they are, and so do those that
wait. -/
structure Advances (a₀ : Arena) (types : Registry) (active : List NodeId) (a a' : Arena) : Prop where
  progress : Progress a₀ types a'
  size_le : a.size ≤ a'.size
  done : ∀ contract names, Done a₀ a contract names → Kept a a' contract
  waiting : ∀ contract ∈ active, Kept a₀ a contract → Kept a₀ a' contract

theorem Advances.refl {active : List NodeId} (h : Progress a₀ types a) :
    Advances a₀ types active a a :=
  ⟨h, Nat.le_refl _, fun _ _ _ => .refl .., fun _ _ h => h⟩

theorem Advances.trans {active : List NodeId} (h : Advances a₀ types active a b)
    (h' : Advances a₀ types active b a') : Advances a₀ types active a a' where
  progress := h'.progress
  size_le := Nat.le_trans h.size_le h'.size_le
  done c names hd := by
    have hk := h.done c names hd
    exact hk.trans (h'.done c names (hd.kept hk h.size_le))
  waiting c hc hk := h'.waiting c hc (h.waiting c hc hk)

theorem Advances.mono {active active' : List NodeId} (h : Advances a₀ types active' a a')
    (hsub : ∀ x ∈ active, x ∈ active') : Advances a₀ types active a a' :=
  ⟨h.progress, h.size_le, h.done, fun x hx => h.waiting x (hsub x hx)⟩

theorem Advances.keeps_done {active : List NodeId} (h : Advances a₀ types active a a')
    (hd : ∃ names, Done a₀ a c names) : ∃ names, Done a₀ a' c names := by
  obtain ⟨names, hd⟩ := hd
  exact ⟨names, hd.kept (h.done c names hd) h.size_le⟩

/-! ## Completing a contract -/

section

variable {parts : List (NodeId × List String)} {names : List String}

/-- What completing a contract can do to a node. -/
theorem Completed.node_cases (h : Completed a a' c parts names) (howned : a.MethodsOwned c)
    (n : Nat) : n = c ∨ ((∃ decl, a.kind n = .method decl) ∨ a.size ≤ n) ∧
      (∃ decl, a'.kind n = .method decl) ∨ a'.node n = a.node n := by
  by_cases hc : n = c
  · exact Or.inl hc
  by_cases hown : ∃ entry ∈ a.methodsOf c, entry.2 = n
  · refine Or.inr (Or.inl ⟨Or.inl ?_, h.methods n (Or.inl hown)⟩)
    obtain ⟨entry, he, rfl⟩ := hown
    obtain ⟨decl, hd⟩ := Option.isSome_iff_exists.1 (howned entry he).2.1
    exact ⟨decl, method?_eq_some.1 hd⟩
  rcases Nat.lt_or_ge n a.size with hn | hn
  · exact Or.inr (Or.inr (h.frame n hn hc fun entry he e => hown ⟨entry, he, e⟩))
  rcases Nat.lt_or_ge n a'.size with hn' | hn'
  · exact Or.inr (Or.inl ⟨Or.inr hn, h.methods n (Or.inr ⟨hn, hn'⟩)⟩)
  · rw [node_of_size_le hn, node_of_size_le hn']
    exact Or.inr (Or.inr rfl)

theorem Completed.reference?_eq (h : Completed a a' c parts names) (howned : a.MethodsOwned c)
    {decl : Contract} (hc : a.contract? c = some decl) (n : Nat) :
    a'.reference? n = a.reference? n ∧ (a'.contract? n).isSome = (a.contract? n).isSome := by
  rcases h.node_cases howned n with rfl | ⟨hbefore, m', hm'⟩ | hn
  · obtain ⟨decl', hd', -⟩ := h.entry
    unfold reference?
    rw [contract?_eq_some.1 hc, contract?_eq_some.1 hd', hc, hd']
    exact ⟨rfl, rfl⟩
  · unfold reference? contract?
    rw [hm']
    rcases hbefore with ⟨m, hm⟩ | hn
    · rw [hm]
      exact ⟨rfl, rfl⟩
    · unfold kind
      rw [node_of_size_le hn]
      exact ⟨rfl, rfl⟩
  · unfold reference? contract?
    rw [kind_congr hn]
    exact ⟨rfl, rfl⟩

/-- Every other contract stays as it is. -/
theorem Completed.kept (h : Completed a a' c parts names) (howned : a.MethodsOwned c)
    {other : Nat} {own decl : Contract} (hc : a.contract? c = some own)
    (hd : a.contract? other = some decl) (ho : a.MethodsOwned other) (hne : other ≠ c) :
    Kept a a' other := by
  refine ⟨h.frame other (lt_size_of_contract hd) hne fun entry he =>
    ne_of_methodsOwned hd howned he, fun entry he => ?_⟩
  obtain ⟨hlt, -, -, hparent⟩ := ho entry he
  refine h.frame entry.2 hlt (ne_of_methodsOwned hc ho he) ?_
  intro method hm heq
  have hp := (howned method hm).2.2.2
  rw [heq, hparent] at hp
  exact hne (Option.some.inj hp)

variable (hready : a₀.ReadyToFlatten types) (hprogress : Progress a₀ types a)
  (hmem : c ∈ types.nodes) (hcontract : (a₀.contract? c).isSome) (hkept : Kept a₀ a c)
  (hcompleted : Completed a a' c parts names) (hflat : a₀.Flat c names) (hnodup : names.Nodup)
  (hshort : names.length ≤ 65535)
  (hparts : ∀ part ∈ parts, a₀.Inherits c part.1 ∧ Done a₀ a part.1 part.2)

include hflat hnodup hshort hcompleted in
theorem done_of_completed : Done a₀ a' c names := by
  obtain ⟨decl, hd, hf, -⟩ := hcompleted.entry
  exact ⟨hflat, hnodup, hshort, ⟨decl, hd, hf⟩, hcompleted.owned, hcompleted.numbers⟩

include hready hprogress hmem hcontract hkept in
/-- The contract before it is completed. -/
theorem pending_contract : ∃ decl, a₀.contract? c = some decl ∧ a.contract? c = some decl ∧
    decl.flattened = false ∧ a.MethodsOwned c := by
  have hdeclared := hready.declared c hmem hcontract
  obtain ⟨decl, hd, hf⟩ := hdeclared.decl
  exact ⟨decl, hd, by rw [contract?_congr hkept.1, hd], hf,
    hkept.owned hprogress.size_le hdeclared.owned⟩

include hready hprogress hmem hcontract hkept hcompleted in
theorem done_kept_of_completed {other : Nat} {list : List String} (hd : Done a₀ a other list) :
    Kept a a' other := by
  obtain ⟨decl, -, hc, hf, howned⟩ := pending_contract hready hprogress hmem hcontract hkept
  obtain ⟨decl', hc', hf'⟩ := hd.decl
  refine hcompleted.kept howned hc hc' hd.owned ?_
  rintro rfl
  rw [hc] at hc'
  cases hc'
  rw [hf] at hf'
  cases hf'

include hready hprogress hmem hcontract hkept hcompleted in
/-- A contract that was as it was read and is another one still is. -/
theorem kept_of_completed {other : Nat} (ho : (a₀.contract? other).isSome)
    (howned' : a₀.MethodsOwned other) (hk : Kept a₀ a other) (hne : other ≠ c) :
    Kept a₀ a' other := by
  obtain ⟨_, -, hc, -, howned⟩ := pending_contract hready hprogress hmem hcontract hkept
  obtain ⟨decl, hd⟩ := Option.isSome_iff_exists.1 ho
  have hd' : a.contract? other = some decl := by rw [contract?_congr hk.1, hd]
  exact hk.trans (hcompleted.kept howned hc hd' (hk.owned hprogress.size_le howned') hne)

include hready hprogress hmem hcontract hkept hcompleted hparts in
/-- Where the methods come from, after one more contract is completed. -/
theorem origin_of_completed {other : Nat} (ho : other ∈ types.nodes) {list : List String}
    (hd : Done a₀ a' other list) {entry : String × NodeId} (he : entry ∈ a'.methodsOf other) :
    Origin a₀ a' other entry := by
  have hkeep : ∀ {x : Nat} {l : List String}, Done a₀ a x l → Kept a a' x := fun h =>
    done_kept_of_completed hready hprogress hmem hcontract hkept hcompleted h
  by_cases hne : other = c
  · subst hne
    rcases hcompleted.origin entry he with he | ⟨hle, part, hp, source, hs, number, hcopy⟩
    · left
      rwa [methodsOf_congr hkept.1] at he
    · obtain ⟨hi, hdone⟩ := hparts part hp
      have hk := hkeep hdone
      refine Or.inr ⟨Nat.le_trans hprogress.size_le hle, part.1, source, hi,
        ⟨part.2, hdone.kept hk hcompleted.size_le⟩, ?_, number, ?_⟩
      · rw [methodsOf_congr hk.1]
        exact hs
      · rw [hk.2 _ hs]
        exact hcopy
  · -- The other contract was done before, since one that is as it was read is not flattened.
    have hcontract' : (a₀.contract? other).isSome := hd.flat.isContract
    rcases hprogress.status other ho hcontract' with hk | ⟨l, hdone⟩
    · have hdeclared := hready.declared other ho hcontract'
      have hk' := kept_of_completed hready hprogress hmem hcontract hkept hcompleted hcontract'
        hdeclared.owned hk hne
      obtain ⟨decl, hd₀, hf⟩ := hdeclared.decl
      obtain ⟨decl', hd', hf'⟩ := hd.decl
      rw [contract?_congr hk'.1, hd₀] at hd'
      cases hd'
      rw [hf] at hf'
      cases hf'
    · have hk := hkeep hdone
      rw [methodsOf_congr hk.1] at he
      rcases hprogress.origin other ho l hdone entry he with h | ⟨hle, base, source, hi, ⟨lb, hb⟩,
        hs, number, hcopy⟩
      · exact Or.inl h
      · have hkb := hkeep hb
        refine Or.inr ⟨hle, base, source, hi, ⟨lb, hb.kept hkb hcompleted.size_le⟩, ?_, number, ?_⟩
        · rw [methodsOf_congr hkb.1]
          exact hs
        · rw [hkb.2 _ hs, hk.2 entry he]
          exact hcopy

include hready hprogress hmem hcontract hkept hcompleted hflat hnodup hshort hparts in
/-- Completing a contract advances the pass. -/
theorem advances_of_completed {active : List NodeId}
    (hactive : ∀ x ∈ active, x ∈ types.nodes ∧ (a₀.contract? x).isSome) (hnew : c ∉ active) :
    Advances a₀ types active a a' := by
  obtain ⟨_, -, hc, -, howned⟩ := pending_contract hready hprogress hmem hcontract hkept
  have hkeep : ∀ x, x ∈ types.nodes → (a₀.contract? x).isSome → Kept a₀ a x → x ≠ c →
      Kept a₀ a' x := fun x hx hxc =>
    kept_of_completed hready hprogress hmem hcontract hkept hcompleted hxc
      (hready.declared x hx hxc).owned
  have hdone : ∀ x list, Done a₀ a x list → Kept a a' x := fun x list =>
    done_kept_of_completed hready hprogress hmem hcontract hkept hcompleted
  refine ⟨⟨Nat.le_trans hprogress.size_le hcompleted.size_le, ?_, ?_, ?_, ?_, ?_⟩,
    hcompleted.size_le, hdone, ?_⟩
  · intro n
    rw [(hcompleted.reference?_eq howned hc n).1, hprogress.references]
  · intro n
    rw [(hcompleted.reference?_eq howned hc n).2, hprogress.contracts]
  · intro x hx hxc
    by_cases hne : x = c
    · subst hne
      exact Or.inr ⟨names, done_of_completed hcompleted hflat hnodup hshort⟩
    · rcases hprogress.status x hx hxc with hk | ⟨list, hd⟩
      · exact Or.inl (hkeep x hx hxc hk hne)
      · exact Or.inr ⟨list, hd.kept (hdone x list hd) hcompleted.size_le⟩
  · intro base hb hout
    obtain ⟨decl, hd, -⟩ := hb.decl
    refine kept_of_completed hready hprogress hmem hcontract hkept hcompleted (by rw [hd]; rfl)
      hb.owned (hprogress.imported base hb hout) ?_
    rintro rfl
    exact hout hmem
  · intro x hx list hd entry he
    exact origin_of_completed hready hprogress hmem hcontract hkept hcompleted hparts hx hd he
  · intro x hx hk
    refine hkeep x (hactive x hx).1 (hactive x hx).2 hk ?_
    rintro rfl
    exact hnew hx

end

/-! ## The walk -/

/-- What a part of the pass that visits `contracts` leads to: they are done, or one of them has no
flat list that fits. The step `plain` is the same step with ids that wrap around, and the two do the
same. -/
def Outcome (a₀ : Arena) (types : Registry) (active : List NodeId) (step plain : Link Unit)
    (a : Arena) (contracts : List NodeId) : Prop :=
  step a = plain a ∧
  ((∃ a', plain a = .ok () a' ∧ Advances a₀ types active a a' ∧
    ∀ contract ∈ contracts, (a₀.contract? contract).isSome → ∃ names, Done a₀ a' contract names) ∨
  ∃ failure a', plain a = .error failure a' ∧
    ∃ contract ∈ contracts, (a₀.contract? contract).isSome ∧ ¬ a₀.Sound contract)

/-- One contract after another. -/
theorem Outcome.forM {active : List NodeId} {f plain : NodeId → Link Unit} :
    ∀ (contracts : List NodeId) (a : Arena), Progress a₀ types a → (∀ x ∈ active, Kept a₀ a x) →
      (∀ contract ∈ contracts, ∀ b, Progress a₀ types b → (∀ x ∈ active, Kept a₀ b x) →
        Outcome a₀ types active (f contract) (plain contract) b [contract]) →
      Outcome a₀ types active (contracts.forM f) (contracts.forM plain) a contracts
  | [], a, hp, _, _ => ⟨rfl, Or.inl ⟨a, rfl, .refl hp, fun x hx => by cases hx⟩⟩
  | contract :: rest, a, hp, hw, h => by
    obtain ⟨heq, hstep⟩ := h contract (List.mem_cons_self ..) a hp hw
    rcases hstep with ⟨b, hb, hadv, hdone⟩ | ⟨failure, b, hb, x, hx, hbad⟩
    · have hw' : ∀ x ∈ active, Kept a₀ b x := fun x hx => hadv.waiting x hx (hw x hx)
      obtain ⟨heq', hrest⟩ := Outcome.forM rest b hadv.progress hw' fun x hx =>
        h x (List.mem_cons_of_mem _ hx)
      refine ⟨?_, ?_⟩
      · rw [forM_cons_ok rest (heq.trans hb), forM_cons_ok rest hb, heq']
      rw [forM_cons_ok rest hb]
      rcases hrest with ⟨a', ha', hadv', hdone'⟩ | ⟨failure, a', ha', x, hx, hbad⟩
      · refine Or.inl ⟨a', ha', hadv.trans hadv', fun x hx hxc => ?_⟩
        rcases List.mem_cons.1 hx with rfl | hx
        · exact hadv'.keeps_done (hdone x (List.mem_singleton.2 rfl) hxc)
        · exact hdone' x hx hxc
      · exact Or.inr ⟨failure, a', ha', x, List.mem_cons_of_mem _ hx, hbad⟩
    · rw [List.mem_singleton] at hx
      subst hx
      refine ⟨?_, Or.inr ⟨failure, b, forM_cons_error rest hb, x, List.mem_cons_self .., hbad⟩⟩
      rw [forM_cons_error rest (heq.trans hb), forM_cons_error rest hb]

/-- The contracts that some base references are bound to. -/
theorem baseTargets_cases : ∀ (references : List NodeId),
    (∃ targets, a.baseTargets references = .ok targets ∧
      references.map a.boundTo = targets.map some ∧
      ∀ target ∈ targets, (a.contract? target).isSome) ∨
    ∃ failure, a.baseTargets references = .error failure ∧
      ∃ reference ∈ references, ∀ target, a.boundTo reference = some target →
        (a.contract? target).isSome = false
  | [] => Or.inl ⟨[], rfl, rfl, fun _ h => by cases h⟩
  | reference :: rest => by
    unfold baseTargets
    cases ht : (a.reference? reference).bind (·.target) with
    | none =>
      refine Or.inr ⟨_, rfl, reference, List.mem_cons_self .., fun target h => ?_⟩
      unfold boundTo at h
      rw [ht] at h
      cases h
    | some target =>
      by_cases hc : (a.contract? target).isNone
      · simp only [hc, if_true]
        refine Or.inr ⟨_, rfl, reference, List.mem_cons_self .., fun other h => ?_⟩
        unfold boundTo at h
        rw [ht] at h
        cases h
        simpa using hc
      · simp only [hc]
        rcases baseTargets_cases rest with ⟨targets, hr, hm, ha⟩ | ⟨failure, hr, x, hx, hbad⟩
        · refine Or.inl ⟨target :: targets, ?_, ?_, ?_⟩
          · rw [hr]
            rfl
          · rw [List.map_cons, List.map_cons, hm]
            unfold boundTo
            rw [ht]
          · intro x hx
            rcases List.mem_cons.1 hx with rfl | hx
            · exact Option.isSome_iff_ne_none.2 (by simpa using hc)
            · exact ha x hx
        · refine Or.inr ⟨failure, ?_, x, List.mem_cons_of_mem _ hx, hbad⟩
          rw [hr]
          rfl

/-- Contracts that are done, with their flat lists. -/
theorem exists_parts : ∀ {targets : List NodeId}, (∀ x ∈ targets, ∃ names, Done a₀ a x names) →
    ∃ parts : List (NodeId × List String), parts.map (·.1) = targets ∧
      ∀ part ∈ parts, Done a₀ a part.1 part.2
  | [], _ => ⟨[], rfl, fun _ h => by cases h⟩
  | x :: rest, h => by
    obtain ⟨names, hx⟩ := h x (List.mem_cons_self ..)
    obtain ⟨parts, hm, hp⟩ := exists_parts fun y hy => h y (List.mem_cons_of_mem _ hy)
    refine ⟨(x, names) :: parts, by rw [List.map_cons, hm], fun part hpart => ?_⟩
    rcases List.mem_cons.1 hpart with rfl | hpart
    · exact hx
    · exact hp part hpart

/-- A flat list that fits leaves room for those of the bases. -/
theorem sound_of_inherits {decl : Contract} (hd : a.contract? c = some decl)
    (hf : decl.flattened = false) (h : a.Sound c) {base : Nat} (hi : a.Inherits c base) :
    a.Sound base := by
  obtain ⟨names, hflat, hnodup, hshort⟩ := h
  cases hflat with
  | flattened hd' hf' =>
    rw [hd] at hd'
    cases hd'
    rw [hf] at hf'
    cases hf'
  | declared parts hd' _ hb hp =>
    obtain ⟨part, hm, rfl⟩ := mem_parts_of_inherits hd' hb hi
    have hsub : part.2.Sublist (parts.flatMap (·.2)) := by
      rw [List.flatMap_def]
      exact List.sublist_flatten_of_mem (List.mem_map.2 ⟨part, hm, rfl⟩)
    have hsub := hsub.trans (List.sublist_append_left _ decl.methods.names)
    rw [hd] at hd'
    cases hd'
    exact ⟨part.2, hp part hm, hnodup.sublist hsub, Nat.le_trans hsub.length_le hshort⟩

/-- A contract that the pass finds flattened is done. -/
theorem done_of_found (hready : a₀.ReadyToFlatten types) (hprogress : Progress a₀ types a)
    (hc : c ∈ types.nodes ∨ c ∉ types.nodes ∧ a₀.FlattenedContract c) {decl : Contract}
    (hd : a.contract? c = some decl) (hf : decl.flattened = true) :
    ∃ names, Done a₀ a c names := by
  rcases hc with hc | ⟨hout, hflattened⟩
  · have hcontract : (a₀.contract? c).isSome := by
      rw [← hprogress.contracts, hd]
      rfl
    rcases hprogress.status c hc hcontract with hk | hdone
    · obtain ⟨decl₀, hd₀, hf₀⟩ := (hready.declared c hc hcontract).decl
      rw [contract?_congr hk.1, hd₀] at hd
      cases hd
      rw [hf] at hf₀
      cases hf₀
    · exact hdone
  · obtain ⟨names, hdone⟩ := Done.of_flattened hflattened
    exact ⟨names, hdone.kept (hprogress.imported c hflattened hout) hprogress.size_le⟩

/-- A contract that the pass finds unflattened is as it was read. -/
theorem kept_of_found (hprogress : Progress a₀ types a)
    (hc : c ∈ types.nodes ∨ c ∉ types.nodes ∧ a₀.FlattenedContract c) {decl : Contract}
    (hd : a.contract? c = some decl) (hf : ¬ decl.flattened = true) :
    c ∈ types.nodes ∧ (a₀.contract? c).isSome ∧ Kept a₀ a c := by
  have hcontract : (a₀.contract? c).isSome := by
    rw [← hprogress.contracts, hd]
    rfl
  rcases hc with hc | ⟨hout, hflattened⟩
  · rcases hprogress.status c hc hcontract with hk | ⟨names, hdone⟩
    · exact ⟨hc, hcontract, hk⟩
    · obtain ⟨decl', hd', hf'⟩ := hdone.decl
      rw [hd] at hd'
      cases hd'
      exact absurd hf' hf
  · obtain ⟨decl', hd', hf'⟩ := hflattened.decl
    rw [contract?_congr (hprogress.imported c hflattened hout).1, hd'] at hd
    cases hd
    exact absurd hf' hf

/-- A base that is done can be copied from. -/
theorem baseOf_of_done {part : NodeId × List String} {decl : Contract}
    (hd : a.contract? c = some decl) (hf : decl.flattened = false)
    (h : Done a₀ a part.1 part.2) : BaseOf a c part := by
  obtain ⟨decl', hd', hf'⟩ := h.decl
  refine ⟨⟨decl', hd'⟩, ?_, h.owned, h.numbers⟩
  intro e
  rw [e, hd] at hd'
  cases hd'
  rw [hf] at hf'
  cases hf'

/-- The ids of a contract's own methods are still those it was read with. -/
theorem numbered_of_kept (hready : a₀.ReadyToFlatten types) (hc : c ∈ types.nodes)
    (hcontract : (a₀.contract? c).isSome) (hk : Kept a₀ a c) (i : Nat) (entry : String × NodeId)
    (he : (a.methodsOf c)[i]? = some entry) : a.methodId entry.2 = UInt16.ofNat i := by
  rw [methodsOf_congr hk.1] at he
  rw [methodId_congr (hk.2 entry (List.mem_of_getElem? he))]
  exact (hready.declared c hc hcontract).numbered i entry he

/-- Completing a contract whose bases are done. -/
theorem inheritAll_outcome (hadd : add.Exact) (hready : a₀.ReadyToFlatten types)
    (hprogress : Progress a₀ types a) (hc : c ∈ types.nodes) (hcontract : (a₀.contract? c).isSome)
    (hk : Kept a₀ a c) {active : List NodeId}
    (hactive : ∀ x ∈ active, x ∈ types.nodes ∧ (a₀.contract? x).isSome) (hnew : c ∉ active)
    {targets : List NodeId} (hbound : (a₀.basesOf c).toList.map a₀.boundTo = targets.map some)
    (hdone : ∀ target ∈ targets, ∃ names, Done a₀ a target names) :
    Outcome a₀ types active (inheritAll add c targets) (inheritAll .wrapping c targets) a [c] := by
  obtain ⟨decl, hd₀, hd, hf, howned⟩ := pending_contract hready hprogress hc hcontract hk
  obtain ⟨parts, rfl, hparts⟩ := exists_parts hdone
  have hb : decl.bases.toList.map a₀.boundTo = parts.map fun part => some part.1 := by
    rw [← basesOf_eq hd₀, hbound, List.map_map]
    rfl
  have hflat : a₀.Flat c (parts.flatMap (·.2) ++ decl.methods.names) :=
    .declared parts hd₀ hf hb fun part hp => (hparts part hp).flat
  obtain ⟨heq, h⟩ := inheritAll_completed hadd hd howned
    (numbered_of_kept hready hc hcontract hk)
    (fun part hp => baseOf_of_done hd hf (hparts part hp)) rfl
  refine ⟨heq, ?_⟩
  rcases h with ⟨a', ha', hcompleted, hnodup, hshort⟩ | ⟨failure, a', ha', hbad⟩
  · refine Or.inl ⟨a', ha', ?_, ?_⟩
    · exact advances_of_completed hready hprogress hc hcontract hk hcompleted hflat hnodup hshort
        (fun part hp => ⟨inherits_of_mem_parts hd₀ hb hp, hparts part hp⟩) hactive hnew
    · intro x hx _
      rw [List.mem_singleton] at hx
      subst hx
      exact ⟨_, done_of_completed hcompleted hflat hnodup hshort⟩
  · refine Or.inr ⟨failure, a', ha', c, List.mem_singleton.2 rfl, hcontract, ?_⟩
    rintro ⟨names, hflat', hfits⟩
    rw [hflat'.unique hflat] at hfits
    exact hbad hfits

theorem lt_size_of_isContract (h : (a.contract? c).isSome) : c < a.size := by
  obtain ⟨decl, hd⟩ := Option.isSome_iff_exists.1 h
  exact lt_size_of_contract hd

/-- Contracts that wait are nodes, so there are not more of them. -/
theorem length_active_le {active : List NodeId} {count : Nat} (hnodup : active.Nodup)
    (hactive : ∀ x ∈ active, x < count) : active.length ≤ count := by
  have hsub : active ⊆ List.range count := fun x hx => List.mem_range.2 (hactive x hx)
  have h := (List.subperm_of_subset hnodup hsub).length_le
  rwa [List.length_range] at h

section

variable {fuel : Nat} {active : List NodeId} {decl : Contract}

theorem flatten_of_none (hd : a.contract? c = none) :
    flatten add (fuel + 1) active c a = .ok () a := by
  unfold flatten
  simp only [hd]

theorem flatten_of_flattened (hd : a.contract? c = some decl) (hf : decl.flattened = true) :
    flatten add (fuel + 1) active c a = .ok () a := by
  unfold flatten
  simp only [hd, hf, if_true]

theorem flatten_of_waiting (hd : a.contract? c = some decl) (hf : decl.flattened = false)
    (hw : c ∈ active) : flatten add (fuel + 1) active c a =
      .error ⟨.circularInheritance ((active.dropWhile (· != c) ++ [c]).map a.name), a.position c⟩
        a := by
  unfold flatten
  simp [hd, hf, hw]

theorem flatten_of_unbound (hd : a.contract? c = some decl) (hf : decl.flattened = false)
    (hw : c ∉ active) {failure : Diagnostic} (ht : a.baseTargets decl.bases.toList = .error failure) :
    flatten add (fuel + 1) active c a = .error failure a := by
  unfold flatten
  simp [hd, hf, hw, ht]

theorem flatten_of_bound (hd : a.contract? c = some decl) (hf : decl.flattened = false)
    (hw : c ∉ active) {bases : List NodeId} (ht : a.baseTargets decl.bases.toList = .ok bases) :
    flatten add (fuel + 1) active c a =
      (bases.forM (flatten add fuel (active ++ [c])) >>= fun _ => inheritAll add c bases) a := by
  rw [flatten]
  simp [hd, hf, hw, ht]

end

/-- One contract after its bases. -/
theorem Outcome.bind {active : List NodeId} {step plain next plainNext : Link Unit}
    {contracts : List NodeId}
    (h : Outcome a₀ types (active ++ [c]) step plain a contracts)
    (hbad : ∀ x ∈ contracts, ¬ a₀.Sound x → (a₀.contract? c).isSome ∧ ¬ a₀.Sound c)
    (hnext : ∀ b, Advances a₀ types (active ++ [c]) a b → (∀ contract ∈ contracts,
      (a₀.contract? contract).isSome → ∃ names, Done a₀ b contract names) →
      Outcome a₀ types active next plainNext b [c]) :
    Outcome a₀ types active (step >>= fun _ => next) (plain >>= fun _ => plainNext) a [c] := by
  obtain ⟨heq, ⟨b, hb, hadv, hdone⟩ | ⟨failure, b, hb, x, hx, -, hx'⟩⟩ := h
  · obtain ⟨heq', hres⟩ := hnext b hadv hdone
    refine ⟨by rw [bind_ok (heq.trans hb), bind_ok hb, heq'], ?_⟩
    rw [bind_ok hb]
    rcases hres with ⟨a', ha', hadv', hdone'⟩ | herror
    · refine Or.inl ⟨a', ha', Advances.trans (hadv.mono ?_) hadv', hdone'⟩
      exact fun x hx => List.mem_append_left _ hx
    · exact Or.inr herror
  · refine ⟨by rw [bind_error (heq.trans hb), bind_error hb], Or.inr ?_⟩
    exact ⟨failure, b, bind_error hb, c, List.mem_singleton.2 rfl, hbad x hx hx'⟩

/-- The walk up from one contract. -/
theorem flatten_outcome (hadd : add.Exact) (hready : a₀.ReadyToFlatten types) :
    ∀ (fuel : Nat) (active : List NodeId) (c : Nat) (a : Arena), Progress a₀ types a →
      active.Nodup → (∀ x ∈ active, x ∈ types.nodes ∧ (a₀.contract? x).isSome ∧
        TransGen a₀.Inherits x c) → (∀ x ∈ active, Kept a₀ a x) →
      (c ∈ types.nodes ∨ c ∉ types.nodes ∧ a₀.FlattenedContract c) →
      a₀.size < fuel + active.length →
      Outcome a₀ types active (flatten add fuel active c) (flatten .wrapping fuel active c) a [c]
  | 0, active, c, a, _, hnodup, hactive, _, _, hfuel => by
    have h := length_active_le hnodup fun x hx => lt_size_of_isContract (hactive x hx).2.1
    omega
  | fuel + 1, active, c, a, hprogress, hnodup, hactive, hwaiting, hc, hfuel => by
    cases hd : a.contract? c with
    | none =>
      unfold Outcome
      rw [flatten_of_none hd, flatten_of_none hd]
      refine ⟨rfl, Or.inl ⟨a, rfl, .refl hprogress, fun x hx hxc => ?_⟩⟩
      rw [List.mem_singleton] at hx
      subst hx
      rw [← hprogress.contracts, hd] at hxc
      cases hxc
    | some decl =>
      by_cases hf : decl.flattened = true
      · unfold Outcome
        rw [flatten_of_flattened hd hf, flatten_of_flattened hd hf]
        refine ⟨rfl, Or.inl ⟨a, rfl, .refl hprogress, fun x hx _ => ?_⟩⟩
        rw [List.mem_singleton] at hx
        subst hx
        exact done_of_found hready hprogress hc hd hf
      obtain ⟨hmem, hcontract, hk⟩ := kept_of_found hprogress hc hd hf
      obtain ⟨decl₀, hd₀, hd', hf', -⟩ := pending_contract hready hprogress hmem hcontract hk
      rw [hd] at hd'
      cases hd'
      by_cases hwait : c ∈ active
      · -- The contract waits for itself: a cycle of the relation.
        unfold Outcome
        rw [flatten_of_waiting hd hf' hwait, flatten_of_waiting hd hf' hwait]
        refine ⟨rfl, Or.inr ⟨_, a, rfl, c, List.mem_singleton.2 rfl, hcontract, ?_⟩⟩
        rintro ⟨names, hflat, -⟩
        exact hready.acyclic_of_flat hmem hflat c .refl (hactive c hwait).2.2
      have hbound : ∀ reference, a.boundTo reference = a₀.boundTo reference := fun reference => by
        unfold boundTo
        rw [hprogress.references]
      rcases baseTargets_cases (a := a) decl.bases.toList with ⟨targets, ht, hm, hcontracts⟩ |
        ⟨failure, ht, reference, hr, hbad⟩
      · have hall : (a₀.basesOf c).toList.map a₀.boundTo = targets.map some := by
          rw [basesOf_eq hd₀, ← hm]
          exact List.map_congr_left fun reference _ => (hbound reference).symm
        have hinherits : ∀ target ∈ targets, a₀.Inherits c target := fun target h => by
          have hs : some target ∈ targets.map some := List.mem_map.2 ⟨target, h, rfl⟩
          rw [← hall] at hs
          exact List.mem_map.1 hs
        have hactive' : ∀ x ∈ active ++ [c], x ∈ types.nodes ∧ (a₀.contract? x).isSome ∧
            ReflTransGen a₀.Inherits x c ∧ Kept a₀ a x := fun x hx => by
          rcases List.mem_append.1 hx with hx | hx
          · obtain ⟨h₁, h₂, h₃⟩ := hactive x hx
            exact ⟨h₁, h₂, h₃.to_reflTransGen, hwaiting x hx⟩
          · rw [List.mem_singleton] at hx
            subst hx
            exact ⟨hmem, hcontract, .refl, hk⟩
        have hnodup' : (active ++ [c]).Nodup := by
          refine List.nodup_append.2 ⟨hnodup, List.nodup_singleton _, fun x hx y hy e => ?_⟩
          rw [List.mem_singleton] at hy
          exact hwait (hy ▸ e ▸ hx)
        unfold Outcome
        rw [flatten_of_bound hd hf' hwait ht, flatten_of_bound hd hf' hwait ht]
        refine Outcome.bind (Outcome.forM targets a hprogress (fun x hx => (hactive' x hx).2.2.2)
          fun target htarget b hb hwaiting' => ?_) ?_ ?_
        · refine flatten_outcome hadd hready fuel (active ++ [c]) target b hb hnodup' ?_ hwaiting' ?_
            (by rw [List.length_append, List.length_singleton]; omega)
          · intro x hx
            obtain ⟨h₁, h₂, h₃, -⟩ := hactive' x hx
            exact ⟨h₁, h₂, .tail' h₃ (hinherits target htarget)⟩
          · by_cases hin : target ∈ types.nodes
            · exact Or.inl hin
            · refine Or.inr ⟨hin, hready.imported c hmem target (hinherits target htarget) ?_ hin⟩
              rw [← hprogress.contracts]
              exact hcontracts target htarget
        · intro x hx hbad
          exact ⟨hcontract, fun h => hbad (sound_of_inherits hd₀ hf' h (hinherits x hx))⟩
        · intro b hadv hdone
          refine inheritAll_outcome hadd hready hadv.progress hmem hcontract
            (hadv.waiting c (List.mem_append_right _ (List.mem_singleton.2 rfl)) hk)
            (fun x hx => ⟨(hactive x hx).1, (hactive x hx).2.1⟩) hwait hall fun target htarget => ?_
          refine hdone target htarget ?_
          rw [← hprogress.contracts]
          exact hcontracts target htarget
      · unfold Outcome
        rw [flatten_of_unbound hd hf' hwait ht, flatten_of_unbound hd hf' hwait ht]
        refine ⟨rfl, Or.inr ⟨failure, a, rfl, c, List.mem_singleton.2 rfl, hcontract, ?_⟩⟩
        rintro ⟨names, hflat, -⟩
        obtain ⟨base, hb, hbc⟩ := hflat.basesResolve hd₀ hf' reference (by
          rw [basesOf_eq hd₀]
          exact hr)
        rw [← hprogress.contracts, hbad base (by rw [hbound]; exact hb)] at hbc
        cases hbc

/-! ## The pass -/

theorem Progress.refl (a : Arena) (types : Registry) : Progress a types a where
  size_le := Nat.le_refl _
  references _ := rfl
  contracts _ := rfl
  status c _ _ := Or.inl (.refl a c)
  imported base _ _ := .refl a base
  origin _ _ _ _ _ he := Or.inl he

theorem flattenContractsWith_outcome (hadd : add.Exact) {package : Nat} {decl : Package}
    (hp : a.package? package = some decl) (hready : a.ReadyToFlatten decl.types) :
    Outcome a decl.types [] (flattenContractsWith add package)
      (flattenContractsWith .wrapping package) a decl.types.nodes := by
  have h := Outcome.forM decl.types.nodes a (.refl a _) (fun x hx => by cases hx)
    fun contract hc b hb _ => flatten_outcome hadd hready (a.size + 1) [] contract b hb List.nodup_nil
      (fun x hx => by cases hx) (fun x hx => by cases hx) (Or.inl hc) (by simp)
  unfold Outcome flattenContractsWith at *
  simp only [hp]
  exact h

/-- A contract that reaches no cycle has a flat list, when all bases resolve. As in the pass, the
contracts that wait are pairwise different, so there is room for them. -/
theorem exists_flat (hready : a.ReadyToFlatten types)
    (hresolve : ∀ contract ∈ types.nodes, (a.contract? contract).isSome → a.BasesResolve contract) :
    ∀ (fuel : Nat) (active : List NodeId) (c : Nat), active.Nodup →
      (∀ x ∈ active, (a.contract? x).isSome ∧ TransGen a.Inherits x c) → c ∈ types.nodes →
      (a.contract? c).isSome → a.InheritanceAcyclic c → a.size < fuel + active.length →
      ∃ names, a.Flat c names
  | 0, active, c, hnodup, hactive, _, _, _, hfuel => by
    have h := length_active_le hnodup fun x hx => lt_size_of_isContract (hactive x hx).1
    omega
  | fuel + 1, active, c, hnodup, hactive, hc, hcontract, hacyclic, hfuel => by
    obtain ⟨decl, hd, hf⟩ := (hready.declared c hc hcontract).decl
    have hwait : c ∉ active := fun h => hacyclic c .refl (hactive c h).2
    have hnodup' : (active ++ [c]).Nodup := by
      refine List.nodup_append.2 ⟨hnodup, List.nodup_singleton _, fun x hx y hy e => ?_⟩
      rw [List.mem_singleton] at hy
      exact hwait (hy ▸ e ▸ hx)
    have hbase : ∀ reference ∈ decl.bases.toList, ∃ part : NodeId × List String,
        a.boundTo reference = some part.1 ∧ a.Flat part.1 part.2 := by
      intro reference hr
      rw [← basesOf_eq hd] at hr
      obtain ⟨base, hb, hbc⟩ := hresolve c hc hcontract reference hr
      have hi : a.Inherits c base := ⟨reference, hr, hb⟩
      by_cases hin : base ∈ types.nodes
      · have hactive' : ∀ x ∈ active ++ [c], (a.contract? x).isSome ∧ TransGen a.Inherits x base := by
          intro x hx
          rcases List.mem_append.1 hx with hx | hx
          · exact ⟨(hactive x hx).1, (hactive x hx).2.tail hi⟩
          · rw [List.mem_singleton] at hx
            rw [hx]
            exact ⟨hcontract, .single hi⟩
        obtain ⟨names, hn⟩ := exists_flat hready hresolve fuel (active ++ [c]) base hnodup' hactive'
          hin hbc (hacyclic.of_reach (.single hi))
          (by rw [List.length_append, List.length_singleton]; omega)
        exact ⟨(base, names), hb, hn⟩
      · obtain ⟨decl', hd', hf'⟩ := (hready.imported c hc base hi hbc hin).decl
        exact ⟨(base, _), hb, .flattened hd' hf'⟩
    choose! part hbound hflat using hbase
    refine ⟨_, .declared (decl.bases.toList.map part) hd hf ?_ ?_⟩
    · rw [List.map_map]
      exact List.map_congr_left hbound
    · intro x hx
      obtain ⟨reference, hr, rfl⟩ := List.mem_map.1 hx
      exact hflat reference hr

/-- What the pass leaves of a contract: its methods in the order of their ids are its flat list, and
those that are not its own are new copies of the methods of its bases. -/
def FlattenedInto (a a' : Arena) (contract : NodeId) : Prop :=
  ∃ names, a.Flat contract names ∧ a'.methodsById contract = names.zipIdx ∧
    ∀ entry ∈ a'.methodsOf contract, entry ∈ a.methodsOf contract ∨ a.size ≤ entry.2 ∧
      ∃ base source, a.Inherits contract base ∧ (entry.1, source) ∈ a'.methodsOf base ∧
        ∃ number, IsCopy (a'.node entry.2) (a'.node source) contract number

theorem flattenedInto_of_done (hprogress : Progress a types a') (hc : c ∈ types.nodes)
    (hd : ∃ names, Done a a' c names) : FlattenedInto a a' c := by
  obtain ⟨names, hd⟩ := hd
  refine ⟨names, hd.flat, methodsById_eq_zipIdx hd.numbers, fun entry he => ?_⟩
  rcases hprogress.origin c hc names hd entry he with h | ⟨hle, base, source, hi, -, hs, hcopy⟩
  · exact Or.inl h
  · exact Or.inr ⟨hle, base, source, hi, hs, hcopy⟩

end Link

/-- Adds ids that fit, and fails where the sum does not. -/
def Adder.checked (overflow : Diagnostic) : Adder :=
  fun x y => if x.toNat + y.toNat < 65536 then .ok (x + y) else .error overflow

theorem Adder.exact_checked (overflow : Diagnostic) : (Adder.checked overflow).Exact :=
  fun _ _ h => if_pos h

namespace Link

open Arena

/-- Flattening the contracts of a package succeeds exactly when every base of every contract is bound
to a contract, no contract reaches a cycle, and the flat lists have no name twice and at most 65535
names. It leaves every contract with its flat list, and it never adds ids that do not fit. -/
theorem flattenContracts_correct {package : NodeId} {decl : Package}
    (hp : a.package? package = some decl) (hready : a.ReadyToFlatten decl.types) :
    ((∃ a', flattenContracts package a = .ok () a') ↔
      ∀ contract ∈ decl.types.nodes, (a.contract? contract).isSome →
        a.BasesResolve contract ∧ a.InheritanceAcyclic contract ∧
        ∀ names, a.Flat contract names → names.Nodup ∧ names.length ≤ 65535) ∧
    (∀ a', flattenContracts package a = .ok () a' →
      ∀ contract ∈ decl.types.nodes, (a.contract? contract).isSome →
        FlattenedInto a a' contract) ∧
    ∀ overflow, flattenContractsWith (.checked overflow) package a = flattenContracts package a := by
  obtain ⟨-, hrun⟩ := flattenContractsWith_outcome Adder.exact_wrapping hp hready
  refine ⟨⟨?_, ?_⟩, ?_, ?_⟩
  · rintro ⟨a', ha'⟩ contract hc hcontract
    rcases hrun with ⟨b, hb, hadv, hdone⟩ | ⟨failure, b, hb, -⟩
    · obtain ⟨names, hd⟩ := hdone contract hc hcontract
      obtain ⟨decl, hdecl, hf⟩ := (hready.declared contract hc hcontract).decl
      refine ⟨hd.flat.basesResolve hdecl hf, hready.acyclic_of_flat hc hd.flat, ?_⟩
      intro names' hflat
      rw [hflat.unique hd.flat]
      exact ⟨hd.nodup, hd.short⟩
    · unfold flattenContracts at ha'
      rw [hb] at ha'
      cases ha'
  · intro h
    rcases hrun with ⟨b, hb, -⟩ | ⟨failure, b, hb, contract, hc, hcontract, hbad⟩
    · exact ⟨b, hb⟩
    · obtain ⟨-, hacyclic, hfits⟩ := h contract hc hcontract
      obtain ⟨names, hflat⟩ := exists_flat hready (fun x hx hxc => (h x hx hxc).1) (a.size + 1) []
        contract List.nodup_nil (fun x hx => by cases hx) hc hcontract hacyclic (by simp)
      exact absurd ⟨names, hflat, hfits names hflat⟩ hbad
  · intro a' ha' contract hc hcontract
    rcases hrun with ⟨b, hb, hadv, hdone⟩ | ⟨failure, b, hb, -⟩
    · unfold flattenContracts at ha'
      rw [hb] at ha'
      cases ha'
      exact flattenedInto_of_done hadv.progress hc (hdone contract hc hcontract)
    · unfold flattenContracts at ha'
      rw [hb] at ha'
      cases ha'
  · intro overflow
    exact (flattenContractsWith_outcome (Adder.exact_checked overflow) hp hready).1

/-- Two contracts, the second of which inherits from the first. -/
def pairTypes : Registry :=
  (Registry.empty.insert "Base" 1).insert "Derived" 2

/-- A package with the two contracts, as it is read and bound. -/
def pair : Arena := ⟨#[
  .detached "shapes" none .unknown (.package ⟨∅, pairTypes⟩),
  .detached "Base" none .unknown (.contract ⟨#[], Registry.empty.insert "ping" 4, false⟩),
  .detached "Derived" none .unknown (.contract ⟨#[3], Registry.empty.insert "pong" 5, false⟩),
  .detached "Base" none .unknown (.typeRef ⟨["Base"], some 1⟩),
  (Node.detached "ping" none .unknown (.method ⟨0, #[], #[]⟩)).withParent 1,
  (Node.detached "pong" none .unknown (.method ⟨0, #[], #[]⟩)).withParent 2]⟩

/-- A contract with one method, its first one. -/
theorem declaredContract_of_single {entry : String × NodeId} {decl : Contract}
    (hd : a.contract? c = some decl) (hf : decl.flattened = false)
    (he : a.methodsOf c = [entry]) (hm : entry.2 < a.size ∧ (a.method? entry.2).isSome ∧
      a.name entry.2 = entry.1 ∧ (a.node entry.2).parent = some c) (hid : a.methodId entry.2 = 0) :
    a.DeclaredContract c := by
  refine ⟨⟨decl, hd, hf⟩, fun x hx => ?_, fun i x hx => ?_⟩
  · rw [he, List.mem_singleton] at hx
    subst hx
    exact hm
  · rw [he] at hx
    obtain ⟨hi, rfl⟩ := List.getElem?_eq_some_iff.1 hx
    have hi : i = 0 := by simpa using hi
    subst hi
    exact hid

theorem pair_ready : pair.ReadyToFlatten pairTypes := by
  have hnodes : pairTypes.nodes = [1, 2] := rfl
  refine ⟨fun contract hc _ => ?_, fun contract hc base hb _ hout => absurd ?_ hout⟩
  · rw [hnodes] at hc
    rcases List.mem_pair.1 hc with rfl | rfl
    · exact declaredContract_of_single rfl rfl rfl ⟨by decide, rfl, rfl, rfl⟩ rfl
    · exact declaredContract_of_single rfl rfl rfl ⟨by decide, rfl, rfl, rfl⟩ rfl
  · -- The only base is a contract of the package.
    obtain ⟨reference, hr, ht⟩ := hb
    rw [hnodes] at hc ⊢
    rcases List.mem_pair.1 hc with rfl | rfl
    · cases hr
    · have hr : reference ∈ [3] := hr
      rw [List.mem_singleton] at hr
      subst hr
      cases ht
      decide

theorem flattenContracts_correct_pair : pair.ReadyToFlatten pairTypes ∧
    ∃ a', flattenContracts 0 pair = .ok () a' ∧ FlattenedInto pair a' 2 := by
  have h := flattenContracts_correct (show pair.package? 0 = some ⟨∅, pairTypes⟩ from rfl) pair_ready
  exact ⟨pair_ready, _, rfl, h.2.1 _ rfl 2 (by decide) rfl⟩

end Link

end SchemaLang
