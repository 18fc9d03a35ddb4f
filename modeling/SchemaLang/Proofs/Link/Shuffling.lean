import SchemaLang.Proofs.Link.Finished
import SchemaLang.Proofs.Link.Placeable

/-!
# Linking in another order

A package is linked in every order of its declarations or in none, and with the same outcome
(`Reordered.link`). The first two passes are `Reordered.bindReferences` and `Reordered.placeAttributes`.
The third one visits contracts in the order of types, but it succeeds exactly where all contracts have a
flat list that fits, and the flat list of a contract does not depend on when it is visited
(`Shuffled.flattenContracts`).
-/

namespace SchemaLang

open Arena Relation

variable {a b c c' d : Arena} {builtin n p t : Nat} {cached settled : NodeId → Prop}
  {given : Option NodeId} {decl : Package}

/-! ## Contracts -/

namespace Arena

/-- The same contracts, methods and references. -/
structure SameContracts (a b : Arena) : Prop where
  contract : ∀ n, b.contract? n = a.contract? n
  method : ∀ n, b.method? n = a.method? n
  reference : ∀ n, b.reference? n = a.reference? n

namespace SameContracts

variable (h : SameContracts a b)

include h

theorem symm : SameContracts b a :=
  ⟨fun n => (h.contract n).symm, fun n => (h.method n).symm, fun n => (h.reference n).symm⟩

theorem basesOf_eq (n : Nat) : b.basesOf n = a.basesOf n := by
  unfold basesOf
  rw [h.contract]

theorem boundTo_eq (n : Nat) : b.boundTo n = a.boundTo n := by
  unfold boundTo
  rw [h.reference]

theorem inherits_eq : b.Inherits = a.Inherits := by
  funext x y
  simp only [Inherits, h.basesOf_eq, h.boundTo_eq]

theorem basesResolve (hr : a.BasesResolve t) : b.BasesResolve t := by
  intro reference hmem
  rw [h.basesOf_eq] at hmem
  obtain ⟨base, hb, hc⟩ := hr reference hmem
  exact ⟨base, (h.boundTo_eq reference).trans hb, (h.contract base).symm ▸ hc⟩

theorem acyclic (hc : a.InheritanceAcyclic t) : b.InheritanceAcyclic t := by
  unfold InheritanceAcyclic at *
  rwa [h.inherits_eq]

theorem methodsById_eq (n : Nat) : b.methodsById n = a.methodsById n := by
  unfold methodsById numbering methodsOf methodId
  simp only [h.contract, h.method]

theorem flat {names : List String} (hf : a.Flat t names) : b.Flat t names := by
  induction hf with
  | @flattened t decl hc hf =>
    rw [← h.methodsById_eq]
    exact .flattened ((h.contract t).trans hc) hf
  | @declared t decl parts hc hf hb _ ih =>
    refine .declared parts ((h.contract t).trans hc) hf ?_ ih
    rw [← hb]
    exact List.map_congr_left fun reference _ => h.boundTo_eq reference

end SameContracts

/-! ## The third pass -/

theorem SameKinds.sameContracts (h : SameKinds a b) : SameContracts a b :=
  ⟨h.contract?_eq, h.method?_eq, h.reference?_eq⟩

/-- The contracts of a package are flattened in both orders or in neither, and have the same methods
under the same ids then. -/
theorem Shuffled.flattenContracts {decl' : Package} (h : Shuffled p c c')
    (hd : c.package? p = some decl) (hd' : c'.package? p = some decl')
    (hready : c.ReadyToFlatten decl.types) (hready' : c'.ReadyToFlatten decl'.types)
    (hrun : Link.flattenContracts p c = .ok () d) :
    ∃ d', Link.flattenContracts p c' = .ok () d' ∧
      ∀ t ∈ decl.types.nodes, (c.contract? t).isSome → d'.methodsById t = d.methodsById t := by
  have hsame := h.kinds.sameContracts
  have hnodes : ∀ t, t ∈ decl'.types.nodes ↔ t ∈ decl.types.nodes := fun t => by
    have hkinds := h.kinds p
    rw [package?_eq_some.1 hd, package?_eq_some.1 hd'] at hkinds
    cases hkinds with
    | refl => exact Iff.rfl
    | package hp => exact (hp.map Prod.snd).mem_iff
  obtain ⟨hfits, hflat, -⟩ := Link.flattenContracts_correct hd hready
  obtain ⟨hfits', hflat', -⟩ := Link.flattenContracts_correct hd' hready'
  obtain ⟨d', hrun'⟩ := hfits'.2 fun t ht hcontract => by
    rw [hnodes] at ht
    rw [hsame.contract] at hcontract
    obtain ⟨hbases, hacyclic, hnames⟩ := hfits.1 ⟨d, hrun⟩ t ht hcontract
    exact ⟨hsame.basesResolve hbases, hsame.acyclic hacyclic, fun names hf =>
      hnames names (hsame.symm.flat hf)⟩
  refine ⟨d', hrun', fun t ht hcontract => ?_⟩
  obtain ⟨names, hf, hids, -⟩ := hflat d hrun t ht hcontract
  obtain ⟨names', hf', hids', -⟩ := hflat' d' hrun' t ((hnodes t).2 ht)
    ((hsame.contract t).symm ▸ hcontract)
  rw [hids, hids', hf'.unique (hsame.flat hf)]

/-! ## All passes -/

/-- The package is read and waits to be linked: the packages that it imports are linked, and their
contracts are flattened. -/
structure Awaits (package : NodeId) (cached settled : NodeId → Prop) (a : Arena) : Prop where
  gathered : Gathered package cached a
  anchored : Anchored a
  settled : Settled cached settled a
  fresh : ¬ cached package
  finished : Finished cached a

theorem Reordered.awaits (h : Reordered p a b) (ha : Awaits p cached settled a) :
    Awaits p cached settled b where
  gathered := h.gathered ha.gathered
  anchored n := (ha.anchored n).kept (Nat.le_of_eq h.size_eq.symm) (h.script_eq n) (h.shape n)
    (h.home_eq n)
  settled := ha.settled.within (h.within cached) ha.fresh
  fresh := ha.fresh
  finished := ha.finished.within ha.settled (h.within cached) ha.fresh

/-- Whatever the references of the package are bound to, the usage declaration of the built-in package
may stand on tables and structs. -/
def UsageMayStand (a : Arena) (package builtin : NodeId) : Prop :=
  ∀ b vocabulary, Link.bindReferences package a = .ok () b →
    Vocabulary.ofPackage b builtin = .ok vocabulary → b.UsageStays vocabulary

theorem Reordered.usageMayStand (h : Reordered p a b) (ha : Awaits p cached settled a)
    (hu : a.UsageMayStand p builtin) : b.UsageMayStand p builtin := by
  intro b' vocabulary hb' hv
  obtain ⟨c, hc, hreordered⟩ := h.symm.bindReferences (h.awaits ha).gathered (h.awaits ha).anchored hb'
  exact hreordered.symm.usageStays (hu c vocabulary hc (hreordered.ofPackage hv))

end Arena

/-- What two linkings of a package, in different orders, have in common: the targets of references, the
ids of methods, the tags of tables and enums, the attributes of the nodes that were there before, and all
nodes of other packages. -/
structure LinkedAlike (package : NodeId) (start a b : Arena) : Prop where
  references : ∀ n, b.reference? n = a.reference? n
  methods : ∀ t, a.home t = some package → (a.contract? t).isSome → b.methodsById t = a.methodsById t
  tables : ∀ n, b.table? n = a.table? n
  enums : ∀ n, b.enum? n = a.enum? n
  attrs : ∀ n : Nat, n < start.size → (b.node n).attrs.toList.Perm (a.node n).attrs.toList
  elsewhere : ∀ n : Nat, n < start.size → start.home n ≠ some package → b.node n = a.node n

namespace Scene.Copies

variable {scene : Scene} (h : scene.Copies a b)

include h

theorem table?_eq (n : Nat) : b.table? n = a.table? n := by
  refine Option.ext fun decl => ?_
  rw [table?_eq_some, table?_eq_some]
  refine ⟨fun hb => ?_, h.table n decl⟩
  have hshape := h.shape n (h.toRearranges.lt_size (by rw [hb]; rfl))
  rw [hb] at hshape
  obtain ⟨decl', ha⟩ := NodeKind.table_of_ctorIdx hshape.symm
  rw [ha, ← hb, h.table n decl' ha]

theorem enum?_eq (n : Nat) : b.enum? n = a.enum? n := by
  refine Option.ext fun decl => ?_
  rw [enum?_eq_some, enum?_eq_some]
  refine ⟨fun hb => ?_, h.enum n decl⟩
  have hshape := h.shape n (h.toRearranges.lt_size (by rw [hb]; rfl))
  rw [hb] at hshape
  obtain ⟨decl', ha⟩ := NodeKind.enum_of_ctorIdx hshape.symm
  rw [ha, ← hb, h.enum n decl' ha]

end Scene.Copies

/-- Linking succeeds in both orders or in neither, and with the same outcome. -/
theorem Arena.Reordered.link {a' : Arena} (h : Reordered p a a') (ha : Awaits p cached settled a)
    (hu : a.UsageMayStand p (given.getD p)) (hrun : Link.package p given a = .ok () d) :
    ∃ d', Link.package p given a' = .ok () d' ∧ LinkedAlike p a d d' := by
  have ha' := h.awaits ha
  obtain ⟨b, c, hp⟩ := ha.gathered.passes ha.anchored ha.settled ha.fresh hrun
  -- the passes one after the other
  obtain ⟨b', hbound', hb⟩ := h.bindReferences ha.gathered ha.anchored hp.bound
  have hlaid' := ha'.gathered.laid_of_bound ha'.anchored hbound'
  obtain ⟨c', hplaced', hc⟩ := hb.placeAttributes hp.laid hlaid' (hu b · hp.bound) hp.placed
  obtain ⟨decl, hd, hready⟩ := ha.gathered.readyToFlatten ha.anchored ha.settled ha.fresh ha.finished
    hp.bound hp.placed
  obtain ⟨decl', hd', hready'⟩ := ha'.gathered.readyToFlatten ha'.anchored ha'.settled ha'.fresh
    ha'.finished hbound' hplaced'
  obtain ⟨d', hflattened', hmethods⟩ := hc.flattenContracts hd hd' hready hready' hp.flattened
  have hrun' : Link.package p given a' = .ok () d' :=
    (bind_ok hbound').trans ((bind_ok hplaced').trans hflattened')
  -- what the passes keep holds of this run, too
  obtain ⟨b'', c'', hp'⟩ := ha'.gathered.passes ha'.anchored ha'.settled ha'.fresh hrun'
  cases hp'.bound.symm.trans hbound'
  cases hp'.placed.symm.trans hplaced'
  have helsewhere : ∀ n : Nat, n < a.size → a.home n ≠ some p → d'.node n = d.node n :=
    fun n hn hne => by
      rw [hp.within_all.frame n hn hne, hp'.within_all.frame n (h.size_eq.symm ▸ hn)
        ((h.home_eq n).symm ▸ hne), h.frame n hne]
  refine ⟨d', hrun', fun n => ?_, fun t ht hcontract => ?_, fun n => ?_, fun n => ?_, fun n hn => ?_,
    helsewhere⟩
  · rw [hp'.copies.toRearranges.reference?_eq, hc.kinds.reference?_eq,
      hp.copies.toRearranges.reference?_eq]
  · obtain ⟨contract, hk⟩ := Option.isSome_iff_exists.1 hcontract
    have hk := contract?_eq_some.1 hk
    have hlevel : (d.kind t).level = 6 := by
      rw [hk]
      rfl
    have hmem := (hp.linked.listed p (Or.inl rfl)).complete t ht hlevel
    have hkp := package?_eq_some.1 hd
    rw [hp.copies.toRearranges.typesOf_eq (lt_size_of_home (home_of_package hkp)) ⟨decl, hkp⟩,
      typesOf_eq hkp] at hmem
    -- the third pass adds no contracts
    have hshape := hp.copies.shape t (hp.copies.toRearranges.lt_size hlevel)
    rw [hk] at hshape
    obtain ⟨contract', hk'⟩ := NodeKind.contract_of_ctorIdx hshape.symm
    exact hmethods t hmem (by
      rw [contract?_eq_some.2 hk']
      rfl)
  · rw [hp'.copies.table?_eq, hp.copies.table?_eq, hc.kinds.table?_eq]
  · rw [hp'.copies.enum?_eq, hp.copies.enum?_eq, hc.kinds.enum?_eq]
  · by_cases hhome : a.home n = some p
    · have hlt := Nat.lt_of_lt_of_le hn hp.within.size_le
      have hlt' := Nat.lt_of_lt_of_le (h.size_eq.symm ▸ hn : n < a'.size) hp'.within.size_le
      rw [hp.copies.attrs_eq n (Nat.lt_of_lt_of_le hlt hp.rearranges.size_le),
        hp'.copies.attrs_eq n (Nat.lt_of_lt_of_le hlt' hp'.rearranges.size_le)]
      refine hc.attrs n ?_
      rw [hp.rearranges.homes n hlt, hp.within.homes n hn, hhome]
    · rw [helsewhere n hn hhome]

end SchemaLang
