import SchemaLang.Proofs.Link.Passes

/-!
# Declarations in another order

A package may list its types in another order, and so may its scripts (`Arena.Reordered`). Nothing that
linking asks of it depends on that: it is gathered still (`Reordered.gathered`), and its references mean
what they meant (`Reordered.means_iff`). So the first pass binds all of them in both orders or in none,
and to the same targets (`Reordered.bindReferences`).
-/

namespace SchemaLang

/-! ## Kinds -/

/-- The same kind, with the types of a package or of a script in any order. -/
inductive NodeKind.Reordered : NodeKind → NodeKind → Prop
  | refl (kind : NodeKind) : Reordered kind kind
  | package {scripts : Std.TreeMap String NodeId} {types types' : Registry} :
    types'.entries.toList.Perm types.entries.toList →
    Reordered (.package ⟨scripts, types⟩) (.package ⟨scripts, types'⟩)
  | script {package : NodeId} {path : Option Path} {imports : Registry} {types types' : Array NodeId} :
    types'.toList.Perm types.toList →
    Reordered (.script ⟨package, path, imports, types⟩) (.script ⟨package, path, imports, types'⟩)

namespace Registry

/-- Registries with the same entries find the same nodes. -/
theorem find?_of_perm {registry other : Registry}
    (h : other.entries.toList.Perm registry.entries.toList) (name : String) :
    other.find? name = registry.find? name :=
  Option.ext fun node => by rw [find?_eq_some, find?_eq_some, h.mem_iff]

/-- The registry with its entries in the opposite order. -/
def backwards (registry : Registry) : Registry where
  entries := registry.entries.reverse
  index := registry.index
  agrees name := by
    have hnames : (registry.entries.toList.reverse.map (·.1)).Nodup := by
      rw [List.map_reverse, List.nodup_reverse]
      exact registry.names_nodup
    rw [registry.agrees name, ← Array.find?_toList, ← Array.find?_toList, Array.toList_reverse]
    exact Option.ext fun node => by
      rw [find?_entry_eq_some hnames, find?_entry_eq_some registry.names_nodup, List.mem_reverse]
  distinct := by
    rw [Array.toList_map, Array.toList_reverse, List.map_reverse, List.nodup_reverse]
    exact registry.names_nodup

end Registry

/-- The kind with the types of a package or of a script in the opposite order. -/
def NodeKind.backwards : NodeKind → NodeKind
  | package decl => package { decl with types := decl.types.backwards }
  | script decl => script { decl with types := decl.types.reverse }
  | kind => kind

namespace NodeKind.Reordered

variable {x y : NodeKind}

theorem backwards (kind : NodeKind) : Reordered kind kind.backwards := by
  cases kind with
  | package decl =>
    refine .package ?_
    rw [Registry.backwards, Array.toList_reverse]
    exact List.reverse_perm _
  | script decl =>
    refine .script ?_
    rw [Array.toList_reverse]
    exact List.reverse_perm _
  | _ => exact .refl _

theorem symm (h : Reordered x y) : Reordered y x := by
  cases h with
  | refl => exact .refl _
  | package hp => exact .package hp.symm
  | script hp => exact .script hp.symm

theorem shape (h : Reordered x y) : y.ctorIdx = x.ctorIdx := by
  cases h <;> rfl

theorem eq_of_level (h : Reordered x y) (hx : x.level < 7) : y = x := by
  cases h with
  | refl => rfl
  | package => exact absurd hx (by simp [level])
  | script => exact absurd hx (by simp [level])

theorem grown (h : Reordered x y) : x.Grown y := by
  cases h with
  | refl => exact .refl _
  | package => exact .of_shape rfl rfl nofun nofun
  | script => exact .of_shape rfl rfl nofun nofun

theorem parts_perm (h : Reordered x y) : y.parts.Perm x.parts := by
  cases h with
  | refl => exact .refl _
  | package => exact .refl _
  | script hp => exact hp.append_left _

end NodeKind.Reordered

/-! ## Arenas -/

namespace Arena

variable {a b : Arena} {m n p q s t : Nat} {cached settled served : NodeId → Prop}

/-- The same kinds, with the types of packages and scripts in any order. -/
def SameKinds (a b : Arena) : Prop :=
  ∀ n, (a.kind n).Reordered (b.kind n)

namespace SameKinds

variable (h : SameKinds a b)

include h

theorem symm : SameKinds b a := fun n => (h n).symm

/-- All kinds but those of packages and scripts are the same. -/
theorem kind_iff {kind : NodeKind} (hk : kind.level < 7) : b.kind n = kind ↔ a.kind n = kind := by
  constructor
  · rintro rfl
    exact (h n).symm.eq_of_level hk
  · rintro rfl
    exact (h n).eq_of_level hk

theorem table?_eq (n : Nat) : b.table? n = a.table? n := Option.ext fun decl => by
  rw [table?_eq_some, table?_eq_some]
  exact h.kind_iff (by exact (by decide : 6 < 7))

theorem enum?_eq (n : Nat) : b.enum? n = a.enum? n := Option.ext fun decl => by
  rw [enum?_eq_some, enum?_eq_some]
  exact h.kind_iff (by exact (by decide : 6 < 7))

theorem contract?_eq (n : Nat) : b.contract? n = a.contract? n := Option.ext fun decl => by
  rw [contract?_eq_some, contract?_eq_some]
  exact h.kind_iff (by exact (by decide : 6 < 7))

theorem method?_eq (n : Nat) : b.method? n = a.method? n := Option.ext fun decl => by
  rw [method?_eq_some, method?_eq_some]
  exact h.kind_iff (by exact (by decide : 5 < 7))

theorem reference?_eq (n : Nat) : b.reference? n = a.reference? n := Option.ext fun decl => by
  rw [reference?_eq_some, reference?_eq_some]
  exact h.kind_iff (by exact (by decide : 0 < 7))

end SameKinds

/-- The same arena, with the types of a package and of its scripts in any order. -/
structure Reordered (package : NodeId) (a b : Arena) : Prop where
  size_eq : b.size = a.size
  frame : ∀ n, a.home n ≠ some package → b.node n = a.node n
  node_eq : ∀ n, b.node n = { a.node n with kind := b.kind n }
  kinds : SameKinds a b

/-- The arena with the types of a package and of its scripts in the opposite order. -/
def backwards (a : Arena) (package : NodeId) : Arena :=
  ⟨a.nodes.mapIdx fun n node =>
    if a.home n = some package then { node with kind := node.kind.backwards } else node⟩

theorem node_backwards (a : Arena) (package n : NodeId) : (a.backwards package).node n =
    if a.home n = some package then { a.node n with kind := (a.kind n).backwards } else a.node n := by
  unfold kind node backwards
  dsimp only
  rcases Nat.lt_or_ge n a.nodes.size with hn | hn
  · rw [Array.getD_eq_getD_getElem?, Array.getD_eq_getD_getElem?, Array.getElem?_mapIdx,
      Array.getElem?_eq_getElem hn]
    rfl
  · have hhome : a.home n ≠ some package := fun h => Nat.not_lt.2 hn (lt_size_of_home h)
    rw [if_neg hhome, Array.getD_eq_getD_getElem?, Array.getD_eq_getD_getElem?, Array.getElem?_mapIdx,
      Array.getElem?_eq_none hn]
    rfl

theorem reordered_backwards (a : Arena) (package : NodeId) :
    Reordered package a (a.backwards package) where
  size_eq := Array.size_mapIdx
  frame n hn := by rw [node_backwards, if_neg hn]
  node_eq n := by
    unfold kind
    rw [node_backwards]
    split <;> rfl
  kinds n := by
    have hkind : (a.backwards package).kind n =
        if a.home n = some package then (a.kind n).backwards else a.kind n := by
      rw [kind, node_backwards]
      split <;> rfl
    rw [hkind]
    split
    · exact .backwards _
    · exact .refl _

namespace Reordered

section

variable (h : Reordered p a b)

include h

theorem shape (n : Nat) : (b.kind n).ctorIdx = (a.kind n).ctorIdx :=
  (h.kinds n).shape

theorem level_eq (n : Nat) : (b.kind n).level = (a.kind n).level :=
  NodeKind.level_congr (h.shape n)

theorem kind_eq (hn : (a.kind n).level < 7) : b.kind n = a.kind n :=
  (h.kinds n).eq_of_level hn

theorem kind_iff {kind : NodeKind} (hk : kind.level < 7) : b.kind n = kind ↔ a.kind n = kind :=
  h.kinds.kind_iff hk

theorem name_eq (n : Nat) : b.name n = a.name n := by
  unfold name
  rw [h.node_eq n]

theorem attrs_eq (n : Nat) : (b.node n).attrs = (a.node n).attrs := by
  rw [h.node_eq n]

theorem parent_eq (n : Nat) : (b.node n).parent = (a.node n).parent := by
  rw [h.node_eq n]

theorem script_eq (n : Nat) : (b.node n).script = (a.node n).script := by
  rw [h.node_eq n]

theorem position_eq (n : Nat) : b.position n = a.position n := by
  unfold position
  rw [h.node_eq n]

theorem own_iff : b.Own s n ↔ a.Own s n := by
  unfold Own
  rw [h.script_eq]

theorem owner_iff : b.Owner s n ↔ a.Owner s n :=
  or_congr_right h.own_iff

theorem children_perm (n : Nat) : (b.children n).Perm (a.children n) := by
  unfold children Node.children
  rw [h.attrs_eq]
  exact (h.kinds n).parts_perm.append_left _

theorem kind_package {decl : Package} (hk : a.kind n = .package decl) :
    ∃ types : Registry, b.kind n = .package ⟨decl.scripts, types⟩ ∧
      types.entries.toList.Perm decl.types.entries.toList := by
  have hkinds := h.kinds n
  rw [hk] at hkinds
  generalize hb : b.kind n = kind at hkinds
  cases hkinds with
  | refl => exact ⟨decl.types, rfl, .refl _⟩
  | package hp => exact ⟨_, rfl, hp⟩

theorem kind_script {decl : Script} (hk : a.kind n = .script decl) :
    ∃ types : Array NodeId, b.kind n = .script { decl with types := types } ∧
      types.toList.Perm decl.types.toList := by
  have hkinds := h.kinds n
  rw [hk] at hkinds
  generalize hb : b.kind n = kind at hkinds
  cases hkinds with
  | refl => exact ⟨decl.types, rfl, .refl _⟩
  | script hp => exact ⟨_, rfl, hp⟩

theorem scriptPackage (s : Nat) :
    (b.script? s).map (·.package) = (a.script? s).map (·.package) := by
  cases hs : a.script? s with
  | some decl =>
    obtain ⟨types, hk, -⟩ := h.kind_script (script?_eq_some.1 hs)
    rw [script?_eq_some.2 hk]
    rfl
  | none =>
    cases hb : b.script? s with
    | none => rfl
    | some decl =>
      have hshape := h.shape s
      rw [script?_eq_some.1 hb] at hshape
      obtain ⟨decl', hd⟩ := NodeKind.script_of_ctorIdx hshape.symm
      rw [script?_eq_some.2 hd] at hs
      cases hs

theorem home_eq (n : Nat) : b.home n = a.home n := by
  rcases Nat.lt_or_ge (a.kind n).level 7 with hl | hl
  · rw [home_of_level hl, home_of_level ((h.level_eq n).symm ▸ hl), h.script_eq]
    simp only [h.scriptPackage]
  · cases hk : a.kind n with
    | package decl =>
      obtain ⟨types, hb, -⟩ := h.kind_package hk
      rw [home_of_package hk, home_of_package hb]
    | script decl =>
      obtain ⟨types, hb, -⟩ := h.kind_script hk
      rw [home_of_script hk, home_of_script hb]
    | _ =>
      rw [hk] at hl
      exact absurd hl (by simp [NodeKind.level])

theorem symm : Reordered p b a where
  size_eq := h.size_eq.symm
  frame n hn := (h.frame n (h.home_eq n ▸ hn)).symm
  node_eq n := by
    rw [h.node_eq n]
    rfl
  kinds := h.kinds.symm

theorem scriptOf_eq (n : Nat) : b.scriptOf n = a.scriptOf n := by
  by_cases hl : (a.kind n).level = 7
  · cases hk : a.kind n with
    | script decl =>
      obtain ⟨types, hb, -⟩ := h.kind_script hk
      rw [scriptOf_eq_self hk, scriptOf_eq_self hb]
    | _ =>
      rw [hk] at hl
      cases hl
  · rw [scriptOf_of_level hl, scriptOf_of_level ((h.level_eq n).symm ▸ hl), h.script_eq]

theorem scriptsOf_eq (q : Nat) : b.scriptsOf q = a.scriptsOf q := by
  cases hq : a.package? q with
  | some decl =>
    obtain ⟨types, hb, -⟩ := h.kind_package (package?_eq_some.1 hq)
    rw [Arena.scriptsOf_eq (package?_eq_some.1 hq), Arena.scriptsOf_eq hb]
  | none =>
    cases hb : b.package? q with
    | none =>
      unfold scriptsOf
      rw [hq, hb]
    | some decl =>
      have hshape := h.shape q
      rw [package?_eq_some.1 hb] at hshape
      obtain ⟨decl', hd⟩ := NodeKind.package_of_ctorIdx hshape.symm
      rw [package?_eq_some.2 hd] at hq
      cases hq

theorem typeEntries_perm (q : Nat) : (b.typeEntries q).Perm (a.typeEntries q) := by
  cases hq : a.package? q with
  | some decl =>
    obtain ⟨types, hb, hp⟩ := h.kind_package (package?_eq_some.1 hq)
    rw [typeEntries_eq (package?_eq_some.1 hq), typeEntries_eq hb]
    exact hp
  | none =>
    cases hb : b.package? q with
    | none =>
      unfold typeEntries
      rw [hq, hb]
    | some decl =>
      have hshape := h.shape q
      rw [package?_eq_some.1 hb] at hshape
      obtain ⟨decl', hd⟩ := NodeKind.package_of_ctorIdx hshape.symm
      rw [package?_eq_some.2 hd] at hq
      cases hq

theorem typesOf_perm (q : Nat) : (b.typesOf q).Perm (a.typesOf q) := by
  rw [typesOf_eq_map, typesOf_eq_map]
  exact (h.typeEntries_perm q).map _

theorem scriptTypes_perm {decl : Script} (hk : a.kind s = .script decl) :
    (b.scriptTypes s).Perm (a.scriptTypes s) := by
  obtain ⟨types, hb, hp⟩ := h.kind_script hk
  rw [scriptTypes_eq hk, scriptTypes_eq hb]
  exact hp

theorem stays : Stays a b where
  grown n _ := (h.kinds n).grown
  name_eq n _ := h.name_eq n

/-- Putting the types of a package in another order stays within the package. -/
theorem within (served : NodeId → Prop) : Within p served a b where
  size_le := Nat.le_of_eq h.size_eq.symm
  frame n _ := h.frame n
  name_eq n _ := h.name_eq n
  script_eq n _ := h.script_eq n
  shape n _ := h.shape n
  homes n _ := h.home_eq n
  fresh n hn hn' := absurd hn' (by rw [h.size_eq]; exact Nat.not_lt.2 hn)

/-! ## Packages that are read -/

theorem under (hu : a.Under m n) : b.Under m n := by
  unfold Under at *
  rwa [h.level_eq, h.level_eq]

theorem forest (hf : Forest p s served a []) : Forest p s served b [] := by
  obtain ⟨decl, hd⟩ := hf.isPackage
  obtain ⟨script, hs, hfit⟩ := hf.isScript
  obtain ⟨types, hdb, -⟩ := h.kind_package hd
  obtain ⟨listed, hsb, hlisted⟩ := h.kind_script hs
  have htypes : ∀ t, t ∈ b.typesOf p ↔ t ∈ a.typesOf p := fun t => (h.typesOf_perm p).mem_iff
  have hsize : a.size ≤ b.size := Nat.le_of_eq h.size_eq.symm
  refine ⟨⟨_, hdb⟩, ⟨_, hsb, ?_⟩, fun m n hm hn => ?_, fun m n hm hn => ?_, fun m hm => ?_,
    fun n hn => ?_, fun n hn => ?_, fun m c hm hc => ?_, fun t ht => ?_, fun t ht ho => ?_, nofun,
    nofun, .nil⟩
  · have hkept := hfit.congr (fun t ht => (htypes t).2 ht) h.stays
    exact ⟨hkept.package_eq, fun t ht => hkept.types t (hlisted.mem_iff.1 ht), hkept.imports⟩
  · obtain ⟨ho, hu⟩ := hf.child m n (h.owner_iff.1 hm) ((h.children_perm m).mem_iff.1 hn)
    exact ⟨h.own_iff.2 ho, h.under hu⟩
  · rw [h.parent_eq]
    exact hf.tied m n (h.owner_iff.1 hm) ((h.children_perm m).mem_iff.1 hn)
  · exact (h.children_perm m).nodup_iff.2 (hf.single m (h.owner_iff.1 hm))
  · exact (hf.covered n (h.own_iff.1 hn)).imp id fun ⟨m, hm, hc⟩ =>
      ⟨m, h.owner_iff.2 hm, (h.children_perm m).mem_iff.2 hc⟩
  · have ho := h.own_iff.1 hn
    rw [h.kind_eq (hf.level_lt ho)]
    exact (hf.fit n ho).congr h.stays hsize
  · rw [h.attrs_eq] at hc
    obtain ⟨hattr, hcarries⟩ := hf.dressed m c (h.owner_iff.1 hm) hc
    exact ⟨attr?_isSome_congr (h.shape c) hattr, (NodeKind.carries_congr (h.shape m)).trans hcarries⟩
  · rw [h.size_eq]
    exact hf.listed t ((htypes t).1 ht)
  · obtain ⟨hl, hreg⟩ := hf.registered t ((htypes t).1 ht) (h.own_iff.1 ho)
    exact ⟨(h.level_eq t).trans hl, hreg.imp id (h.scriptTypes_perm hs).mem_iff.2⟩

/-- A package that is read is so in any order. -/
theorem gathered (hg : Gathered p served a) : Gathered p served b := by
  obtain ⟨decl, hd⟩ := hg.isPackage
  obtain ⟨types, hdb, -⟩ := h.kind_package hd
  refine ⟨⟨_, hdb⟩, ?_, ?_, fun s hs => ?_, fun s hs => ?_, fun n hn => ?_, fun t ht => ?_,
    fun entry he => ?_, fun s hs => ?_⟩
  · rw [h.attrs_eq, h.parent_eq]
    exact hg.bare
  · rw [h.scriptsOf_eq]
    exact hg.distinct
  · exact h.forest (hg.forest s (h.scriptsOf_eq p ▸ hs))
  · rw [h.parent_eq]
    exact hg.parent s (h.scriptsOf_eq p ▸ hs)
  · rw [h.home_eq] at hn
    rw [h.scriptsOf_eq]
    exact (hg.whole n hn).imp id fun ⟨s, hs, ho⟩ => ⟨s, hs, h.owner_iff.2 ho⟩
  · obtain ⟨s, hs, ho⟩ := hg.types t ((h.typesOf_perm p).mem_iff.1 ht)
    exact ⟨s, h.scriptsOf_eq p ▸ hs, h.own_iff.2 ho⟩
  · rw [h.name_eq]
    exact hg.keyed entry ((h.typeEntries_perm p).mem_iff.1 he)
  · intro n enum hn hk
    exact hg.filled s (h.scriptsOf_eq p ▸ hs) n enum (h.own_iff.1 hn)
      ((h.kind_iff (by exact (by decide : 6 < 7))).1 hk)

/-! ## Meanings -/

theorem imports {script : Script} {listed : Array NodeId} {name : String} {other : Package}
    (hi : a.Imports script name other) : ∃ types : Registry,
      b.Imports { script with types := listed } name ⟨other.scripts, types⟩ ∧
        types.entries.toList.Perm other.types.entries.toList := by
  obtain ⟨node, q, hf, hn, hq⟩ := hi
  obtain ⟨types, hqb, hp⟩ := h.kind_package hq
  exact ⟨types, ⟨node, q, hf, (h.kind_iff (by exact (by decide : 5 < 7))).2 hn, hqb⟩, hp⟩

theorem denotes {script : Script} {listed : Array NodeId} {package : Package} {types : Registry}
    (ht : types.entries.toList.Perm package.types.entries.toList) {path : List String} {target : NodeId}
    (hd : Denotes a script package path target) :
    Denotes b { script with types := listed } ⟨package.scripts, types⟩ path target := by
  have henum : ∀ {n : Nat} {decl : Enumeration}, a.kind n = .enum decl → b.kind n = .enum decl :=
    fun hk => (h.kind_iff (by exact (by decide : 6 < 7))).2 hk
  cases hd with
  | type hn hf => exact .type hn ((Registry.find?_of_perm ht _).trans hf)
  | imported hi hf =>
    obtain ⟨types', hi', ht'⟩ := h.imports hi
    exact .imported hi' ((Registry.find?_of_perm ht' _).trans hf)
  | value hn he hk hf => exact .value hn ((Registry.find?_of_perm ht _).trans he) (henum hk) hf
  | importedValue hi he hk hf =>
    obtain ⟨types', hi', ht'⟩ := h.imports hi
    exact .importedValue hi' ((Registry.find?_of_perm ht' _).trans he) (henum hk) hf

theorem means (hm : a.Means n t) : b.Means n t := by
  obtain ⟨s, script, package, decl, hs, hk, hp, hr, hd⟩ := hm
  obtain ⟨listed, hkb, -⟩ := h.kind_script hk
  obtain ⟨types, hpb, ht⟩ := h.kind_package hp
  exact ⟨s, _, _, decl, (h.script_eq n).trans hs, hkb, hpb,
    (h.kind_iff (by exact (by decide : 0 < 7))).2 hr, h.denotes ht hd⟩

theorem means_iff : b.Means n t ↔ a.Means n t :=
  ⟨h.symm.means, h.means⟩

theorem refersIn_iff : b.RefersIn p n ↔ a.RefersIn p n := by
  unfold RefersIn
  rw [h.scriptsOf_eq]
  simp only [h.own_iff]
  exact and_congr_right' (exists_congr fun decl => h.kind_iff (by exact (by decide : 0 < 7)))

end

end Reordered

/-! ## The first pass -/

/-- Binding changes nothing but kinds. -/
theorem Binds.node_with (h : Binds a b) (n : Nat) : b.node n = { a.node n with kind := b.kind n } := by
  unfold kind
  rcases h.node_eq n with hn | ⟨path, t, -, hn⟩
  · rw [hn]
  · rw [hn]

/-- References are bound to the same targets in both orders. -/
theorem Reordered.bindReferences {a' : Arena} (h : Reordered p a a') (hg : Gathered p cached a)
    (ha : Anchored a) (hrun : Link.bindReferences p a = .ok () b) :
    ∃ b', Link.bindReferences p a' = .ok () b' ∧ Reordered p b b' := by
  obtain ⟨hb, hframe, hbound⟩ := hg.binds_of_ok hrun
  obtain ⟨b', hb', hframe', ⟨hok', hbound'⟩ | ⟨-, n, hn, hnone⟩⟩ := (h.gathered hg).bindReferences
  · refine ⟨b', hok', ?_, fun n hn => ?_, fun n => ?_, fun n => ?_⟩
    · rw [hb'.size_eq, hb.size_eq, h.size_eq]
    · rw [hb.home_eq] at hn
      have hnot : ¬ a.RefersIn p n := fun ⟨⟨s, hs, ho⟩, _⟩ =>
        hn ((hg.forest s hs).home_of_own ha ho)
      rw [hframe' n fun e => hnot (h.refersIn_iff.1 e), hframe n hnot, h.frame n hn]
    · rw [hb'.node_with, h.node_eq, hb.node_with]
    · by_cases hr : a.RefersIn p n
      · obtain ⟨path, t, hk, hm⟩ := hbound n hr
        obtain ⟨path', t', hk', hm'⟩ := hbound' n (h.refersIn_iff.2 hr)
        have hmeans : a.Means n t' := h.means_iff.1 (hb'.means_iff.1 hm')
        cases (hb.means_iff.1 hm).unique hmeans
        -- the path is the one that was read
        obtain ⟨target, hka⟩ := hb.path_iff.1 ⟨_, hk⟩
        obtain ⟨target', hka'⟩ := hb'.path_iff.1 ⟨_, hk'⟩
        rw [h.kind_iff (by exact (by decide : 0 < 7)), hka] at hka'
        cases hka'
        rw [hk, hk']
        exact .refl _
      · unfold kind
        rw [hframe n hr, hframe' n fun e => hr (h.refersIn_iff.1 e)]
        exact h.kinds n
  · obtain ⟨path, t, -, hm⟩ := hbound n (h.refersIn_iff.1 hn)
    exact absurd (h.means_iff.2 (hb.means_iff.1 hm)) (hnone t)

end Arena

end SchemaLang
