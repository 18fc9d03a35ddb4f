import SchemaLang.Proofs.Link.Relocating
import SchemaLang.Proofs.Link.Resting

/-!
# A linking that succeeds

The arenas between the passes of a linking that succeeds (`Passes`), and what is kept from one to the
next: the second and the third pass keep what the built-in package declares
(`Passes.keepsVocabulary`), and the third keeps tags and attributes (`Scene.Copies.upholds`).
-/

namespace SchemaLang

open Arena

variable {a b c d : Arena} {n p q builtin : Nat} {cached settled held : NodeId → Prop} {scene : Scene}

/-! ## What the passes keep -/

namespace Scene

/-- The passes add no enums and no tables. -/
theorem Rearranges.lt_size (h : Rearranges scene a b) (hl : (b.kind n).level = 6) : n < a.size := by
  refine Nat.lt_of_not_le fun hge => ?_
  obtain ⟨-, hm, -⟩ := h.fresh n hge (lt_size_of_kind (by rw [hl]; exact (by decide : 6 ≠ 1)))
  obtain ⟨decl, hd⟩ := Option.isSome_iff_exists.1 hm
  rw [method?_eq_some.1 hd] at hl
  cases hl

/-- The passes keep packages, values and fields. -/
theorem Rearranges.sameDeclarations (h : Rearranges scene a b) : SameDeclarations a b where
  size_le := h.size_le
  package n := Option.ext fun decl => by
    rw [package?_eq_some, package?_eq_some]
    exact h.kind_iff rfl (by exact (by decide : 8 ≠ 1))
  value n := Option.ext fun value => by
    rw [enumValue?_eq_some, enumValue?_eq_some]
    exact h.kind_iff rfl (by exact (by decide : 5 ≠ 1))
  field n := Option.ext fun decl => by
    rw [field?_eq_some, field?_eq_some]
    exact h.kind_iff rfl (by exact (by decide : 5 ≠ 1))
  values n := by
    cases hb : b.enum? n with
    | some decl =>
      have hk := enum?_eq_some.1 hb
      have hlt := h.lt_size (n := n) (by rw [hk]; rfl)
      have hshape := h.shape n hlt
      rw [hk] at hshape
      obtain ⟨decl', hk'⟩ := NodeKind.enum_of_ctorIdx hshape.symm
      have hkept := h.kinds n hlt
      rw [hk, hk'] at hkept
      obtain ⟨isError, he⟩ := hkept
      cases he
      rw [enum?_eq_some.2 hk']
      rfl
    | none =>
      cases ha : a.enum? n with
      | none => rfl
      | some decl =>
        have hk := enum?_eq_some.1 ha
        have hkept := h.kinds n (lt_size_of_kind (by rw [hk]; exact (by decide : 6 ≠ 1)))
        rw [hk] at hkept
        obtain ⟨isError, he⟩ := hkept
        rw [enum?_eq_some.2 he] at hb
        cases hb
  fields n := by
    cases hb : b.table? n with
    | some decl =>
      have hk := table?_eq_some.1 hb
      have hlt := h.lt_size (n := n) (by rw [hk]; rfl)
      have hshape := h.shape n hlt
      rw [hk] at hshape
      obtain ⟨decl', hk'⟩ := NodeKind.table_of_ctorIdx hshape.symm
      have hkept := h.kinds n hlt
      rw [hk, hk'] at hkept
      obtain ⟨isStruct, he⟩ := hkept
      cases he
      rw [table?_eq_some.2 hk']
      rfl
    | none =>
      cases ha : a.table? n with
      | none => rfl
      | some decl =>
        have hk := table?_eq_some.1 ha
        have hkept := h.kinds n (lt_size_of_kind (by rw [hk]; exact (by decide : 6 ≠ 1)))
        rw [hk] at hkept
        obtain ⟨isStruct, he⟩ := hkept
        rw [table?_eq_some.2 he] at hb
        cases hb
  name_eq := h.name_eq

/-- What a linked package declares is there. -/
theorem Holds.fielded (h : Holds scene a) (hq : scene.Covers a q) : a.Fielded q := by
  intro t ht decl hd f hf
  have hct : scene.Covers a t := h.closed.reference hq (mem_references_of_typesOf ht)
  refine h.covers_lt (h.closed.part hct ?_)
  rw [table?_eq_some.1 hd]
  exact hf

/-- The third pass keeps tags and attributes. -/
theorem Copies.upholds (h : Copies scene a b) (ha : Holds scene a) :
    Upholds (scene.Covers a) a b where
  closed := ha.closed
  kinds n hn := h.kinds n (ha.covers_lt hn)
  attrs_eq n hn := h.attrs_eq n (ha.covers_lt hn)
  table n decl _ := h.table n decl
  enum n decl _ := h.enum n decl

end Scene

/-- Where the nodes that can be reached from the built-in package stay, its vocabulary does. -/
theorem Arena.keepsVocabulary_of_nodes (hc : a.ClosedUnder held)
    (hn : ∀ n : Nat, held n → b.node n = a.node n) (hb : held builtin) :
    KeepsVocabulary builtin a b := by
  have hkind : ∀ {n : Nat}, held n → b.kind n = a.kind n := fun h => congrArg Node.kind (hn _ h)
  intro v hv
  obtain ⟨package, sites, hp, hsites, hbits, husage, htarget, hstruct, herror⟩ :=
    Vocabulary.ofPackage_eq_ok.1 hv
  have hheld : ∀ {name : String} {t : NodeId}, package.types.find? name = some t → held t :=
    fun ht => hc.type hb (package?_eq_some.1 hp) ht
  have htable : b.table? v.usage = a.table? v.usage := by
    unfold table?
    rw [hkind (hheld husage)]
  obtain ⟨usage, hu, hfind⟩ := Option.bind_eq_some_iff.1 htarget
  have hfield : ∀ f ∈ usage.fields.toList, held f := fun f hf => hc.part (hheld husage) (by
    rw [table?_eq_some.1 hu]
    exact hf)
  have hfind' : usage.fields.find? (fun f => b.name f == Prelude.targetField) = some v.target := by
    rw [← hfind, ← Array.find?_toList, ← Array.find?_toList]
    refine List.find?_congr fun f hf => ?_
    unfold name
    rw [hn f (hfield f hf)]
  have htargets : held v.target :=
    hfield _ (Array.mem_toList_iff.2 (Array.mem_of_find?_eq_some hfind))
  have hvalues : b.enumValues sites = a.enumValues sites := by
    unfold enumValues enum?
    rw [hkind (hheld hsites)]
    cases hk : a.kind sites with
    | enum decl =>
      refine List.filterMap_congr fun ⟨name, value⟩ he => ?_
      have hpart : held value := hc.part (hheld hsites) (by
        rw [hk]
        exact List.mem_map_of_mem he)
      unfold enumValue?
      dsimp only
      rw [hkind hpart]
    | _ => rfl
  refine ⟨Vocabulary.ofPackage_eq_ok.2 ⟨package, sites, ?_, hsites, ?_, husage, ?_, hstruct, herror⟩,
    ?_, ?_⟩
  · unfold package?
    rw [hkind hb]
    exact hp
  · rw [hvalues, hbits]
  · unfold findField?
    rw [htable, hu]
    exact hfind'
  · unfold field?
    rw [hkind htargets]
  · unfold name
    rw [hn _ htargets]

/-! ## The passes -/

/-- The arenas of a linking that succeeds: references are bound in `b`, attributes are placed in `c`, and
contracts are flattened in `d`. -/
structure Passes (package builtin : NodeId) (cached settled : NodeId → Prop) (a b c d : Arena) :
    Prop where
  bound : Link.bindReferences package a = .ok () b
  placed : Link.placeAttributes package builtin b = .ok () c
  flattened : Link.flattenContracts package c = .ok () d
  within : Within package cached a b
  laid : Laid package b
  starts : Scene.Placing ⟨package, cached, settled, b⟩ b
  placing : Scene.Placing ⟨package, cached, settled, b⟩ c
  rearranges : Scene.Rearranges ⟨package, cached, settled, b⟩ b c
  copies : Scene.Copies ⟨package, cached, settled, b⟩ c d
  holds : Scene.Holds ⟨package, cached, settled, b⟩ d
  linked : Settled (fun q => q = package ∨ cached q)
    (Scene.Covers ⟨package, cached, settled, b⟩ d) d

/-- A package whose scripts are read is linked by three passes. -/
theorem Arena.Gathered.passes {given : Option NodeId} (h : Gathered p cached a) (ha : Anchored a)
    (hs : Settled cached settled a) (hp : ¬ cached p) (hrun : Link.package p given a = .ok () d) :
    ∃ b c, Passes p (given.getD p) cached settled a b c d := by
  obtain ⟨_, b, hbind, hrun⟩ := of_bind_ok hrun
  obtain ⟨_, c, hplace, hflatten⟩ := of_bind_ok hrun
  obtain ⟨hbinds, hframe, hbound⟩ := h.binds_of_ok hbind
  have hw := h.within_binds ha hbinds hframe
  have hstarts := h.placing ha hs hp hbinds hframe hbound
  obtain ⟨hr, hplacing⟩ := (Scene.leads_placeAttributes hstarts (given.getD p)).ok hplace
  obtain ⟨hcopies, hholds, hdone⟩ := (Scene.leads_flattenContracts hplacing.toHolds).ok hflatten
  have hall := hr.trans hcopies.toRearranges
  refine ⟨b, c, hbind, hplace, hflatten, hw, h.laid_of_bound ha hbind, hstarts, hplacing, hr, hcopies,
    hholds, ?_⟩
  exact hholds.linked ((hs.within hw hp).within hall.within hp)
    (hall.listed (hbinds.listed h.listed)) hdone

/-- All passes together stay within the package. -/
theorem Passes.within_all (h : Passes p builtin cached settled a b c d) : Within p cached a d :=
  h.within.trans (h.rearranges.trans h.copies.toRearranges).within

/-- The passes keep the vocabulary of the built-in package. -/
theorem Passes.keepsVocabulary (h : Passes p builtin cached settled a b c d)
    (hb : builtin = p ∨ cached builtin) (hs : Settled cached settled b) :
    KeepsVocabulary builtin b c ∧ KeepsVocabulary builtin c d := by
  have hcovers : ∀ e, Scene.Holds ⟨p, cached, settled, b⟩ e →
      Scene.Covers ⟨p, cached, settled, b⟩ e builtin := fun e he => by
    rcases hb with rfl | hb
    · exact he.covers_package
    · exact Or.inl (hs.package builtin hb).1
  exact ⟨h.rearranges.sameDeclarations.keepsVocabulary
      (h.starts.toHolds.fielded (hcovers b h.starts.toHolds)),
    h.copies.toRearranges.sameDeclarations.keepsVocabulary
      (h.placing.toHolds.fielded (hcovers c h.placing.toHolds))⟩

end SchemaLang
