import SchemaLang.Proofs.Link.Binding

/-!
# What consumers of a package rely on

Reading makes complete declarations and enters each of them once; linking changes tags, ids and
lists of methods only. What consumers rely on is stated for one node and for one package, and comes
from the reading.

* `Arena.Formed`: a node is what its kind promises.
* `Arena.Listed`: the types of a package are the types of its scripts, under their names.
* `Gathered.formed`, `Gathered.listed`: what reading leaves is formed and listed.
-/

namespace SchemaLang.Arena

variable {a b : Arena} {n m p s t : Nat} {served : NodeId → Prop} {kind : NodeKind}

/-! ## One node -/

/-- The references are bound to contracts. -/
def Resolves (a : Arena) (bases : List NodeId) : Prop :=
  ∀ base ∈ bases, ∃ path t, a.kind base = .typeRef ⟨path, some t⟩ ∧ (a.contract? t).isSome

/-- A kind as linking leaves it: enums have a first value and are as they were read, as tables and
types are, and the bases of a contract are contracts once it is flattened. -/
def Formed (a : Arena) : NodeKind → Prop
  | .enum decl => EnumFit a decl ∧ decl.default.isSome
  | .table decl => TableFit a decl
  | .contract decl => decl.flattened = true → a.Resolves decl.bases.toList
  | .array length element => 1 ≤ length.toNat ∧ (a.kind element).isType = true ∧
      (a.kind element).isSequence = false
  | .list element => (a.kind element).isType = true ∧ (a.kind element).isSequence = false
  | .map key value => (a.kind key).level = 0 ∧ (a.kind value).level = 0
  | _ => True

theorem Fit.formed (h : Fit served a kind)
    (hd : ∀ decl, kind = .enum decl → decl.default.isSome) : a.Formed kind := by
  cases kind with
  | enum decl => exact ⟨h, hd decl rfl⟩
  | table decl => exact h
  | contract decl => exact fun hf => absurd (h.flattened.symm.trans hf) Bool.false_ne_true
  | array length element => exact h
  | list element => exact h
  | map key value => exact h
  | _ => trivial

/-- A node keeps what others rely on: its name, its shape, and all of its kind where it has nothing to
be tagged, numbered or bound. -/
structure Resembles (a b : Arena) (m : NodeId) : Prop where
  name_eq : b.name m = a.name m
  shape : (b.kind m).ctorIdx = (a.kind m).ctorIdx
  steady : (a.kind m).isSteady = true → (a.kind m).level ≠ 0 → b.kind m = a.kind m

theorem Resembles.of_node (h : b.node m = a.node m) : Resembles a b m := by
  have hk : b.kind m = a.kind m := by
    unfold kind
    rw [h]
  exact ⟨by unfold name; rw [h], by rw [hk], fun _ _ => hk⟩

theorem Resembles.element (h : Resembles a b m)
    (hm : (a.kind m).isType = true ∧ (a.kind m).isSequence = false) :
    (b.kind m).isType = true ∧ (b.kind m).isSequence = false := by
  rw [NodeKind.isType_congr h.shape, NodeKind.isSequence_congr h.shape]
  exact hm

theorem Resembles.level_eq (h : Resembles a b m) : (b.kind m).level = (a.kind m).level :=
  NodeKind.level_congr h.shape

theorem EnumFit.resembling {decl : Enumeration} (h : EnumFit a decl)
    (hr : ∀ m ∈ decl.values.nodes, Resembles a b m) : EnumFit b decl where
  default_eq := h.default_eq
  values entry he := by
    obtain ⟨hname, value, hk, hv⟩ := h.values entry he
    have hm := hr entry.2 (List.mem_map_of_mem he)
    refine ⟨hm.name_eq.trans hname, value, ?_, hv⟩
    rw [hm.steady (by rw [hk]; rfl) (by rw [hk]; exact (by decide : 5 ≠ 0)), hk]

theorem TableFit.resembling {decl : Table} (h : TableFit a decl)
    (hr : ∀ m ∈ decl.fields.toList, Resembles a b m) : TableFit b decl where
  count := h.count
  fields i hi := by
    obtain ⟨type, hk⟩ := h.fields i hi
    have hm := hr decl.fields[i] (Array.mem_toList_iff.2 (Array.getElem_mem hi))
    refine ⟨type, ?_⟩
    rw [hm.steady (by rw [hk]; rfl) (by rw [hk]; exact (by decide : 5 ≠ 0)), hk]
  distinct := by
    rw [List.map_congr_left fun x hx => (hr x hx).name_eq]
    exact h.distinct

/-- A kind stays formed where its parts stay. -/
theorem Formed.resembling (h : a.Formed kind) (hr : ∀ m ∈ kind.parts, Resembles a b m)
    (hc : ∀ decl, kind = .contract decl → decl.flattened = true → b.Resolves decl.bases.toList) :
    b.Formed kind := by
  cases kind with
  | enum decl => exact ⟨h.1.resembling hr, h.2⟩
  | table decl => exact TableFit.resembling h hr
  | contract decl => exact hc decl rfl
  | array length element => exact ⟨h.1, (hr element (List.mem_singleton.2 rfl)).element h.2⟩
  | list element => exact (hr element (List.mem_singleton.2 rfl)).element h
  | map key value =>
    refine ⟨?_, ?_⟩
    · rw [(hr key (List.mem_cons_self ..)).level_eq]
      exact h.1
    · rw [(hr value (List.mem_cons_of_mem _ (List.mem_singleton.2 rfl))).level_eq]
      exact h.2
  | _ => trivial

/-! ## One package -/

/-- The types of a package are those that its scripts list, each under its name; and no other
declaration belongs to it. -/
structure Listed (a : Arena) (package : NodeId) : Prop where
  keyed : ∀ entry ∈ a.typeEntries package, a.name entry.2 = entry.1
  declared : ∀ t ∈ a.typesOf package, (a.kind t).level = 6
  perm : (a.typesOf package).Perm ((a.scriptsOf package).flatMap a.scriptTypes)
  complete : ∀ n : Nat, a.home n = some package → (a.kind n).level = 6 → n ∈ a.typesOf package

theorem map_fst_typeEntries_nodup (a : Arena) (package : NodeId) :
    ((a.typeEntries package).map (·.1)).Nodup := by
  unfold typeEntries
  split
  · rename_i decl _
    exact decl.types.names_nodup
  · exact List.nodup_nil

/-- No type is entered twice, since it is entered under its name. -/
theorem nodup_typesOf (h : ∀ entry ∈ a.typeEntries p, a.name entry.2 = entry.1) :
    (a.typesOf p).Nodup := by
  have hnames : (a.typesOf p).map a.name = (a.typeEntries p).map (·.1) := by
    rw [typesOf_eq_map, List.map_map]
    exact List.map_congr_left h
  exact List.Nodup.of_map a.name (hnames ▸ map_fst_typeEntries_nodup a p)

/-- The types of a package stay listed where the package, its scripts and its types stay, and no
declaration comes to it. -/
theorem Listed.congr (h : a.Listed p) (hpackage : b.package? p = a.package? p)
    (hscripts : ∀ s ∈ a.scriptsOf p, b.script? s = a.script? s)
    (hresembles : ∀ t ∈ a.typesOf p, Resembles a b t)
    (hcomplete : ∀ n : Nat, b.home n = some p → (b.kind n).level = 6 →
      a.home n = some p ∧ (a.kind n).level = 6) : b.Listed p := by
  have htypes : b.typeEntries p = a.typeEntries p := by
    unfold typeEntries
    rw [hpackage]
  have hof : b.typesOf p = a.typesOf p := by
    rw [typesOf_eq_map, typesOf_eq_map, htypes]
  have hlists : ∀ s ∈ a.scriptsOf p, b.scriptTypes s = a.scriptTypes s := fun s hs => by
    unfold scriptTypes
    rw [hscripts s hs]
  refine ⟨fun entry he => ?_, fun t ht => ?_, ?_, fun n hn hl => ?_⟩
  · rw [htypes] at he
    rw [(hresembles entry.2 (mem_typesOf.2 ⟨entry, he, rfl⟩)).name_eq, h.keyed entry he]
  · rw [hof] at ht
    rw [(hresembles t ht).level_eq, h.declared t ht]
  · rw [hof, scriptsOf_congr (congrArg _ hpackage), List.flatMap_congr hlists]
    exact h.perm
  · obtain ⟨hn', hl'⟩ := hcomplete n hn hl
    rw [hof]
    exact h.complete n hn' hl'

/-! ## What reading leaves -/

/-- A declaration of a script is listed by it. -/
theorem Forest.mem_scriptTypes (h : Forest p s served a []) (hn : a.Own s n)
    (hl : (a.kind n).level = 6) : n ∈ a.scriptTypes s := by
  rcases h.covered n hn with hw | ⟨m, hm, hc⟩
  · cases hw
  have hm' : m = s := by
    refine hm.resolve_right fun ho => ?_
    have hlt := h.level_lt ho
    rcases (h.child m n hm hc).2 with hu | ⟨he, hu, -⟩ <;> omega
  subst hm'
  obtain ⟨decl, hd, hfit⟩ := h.isScript
  rw [scriptTypes_eq hd]
  rcases List.mem_append.1 hc with ha | hp
  · obtain ⟨attr, hattr⟩ := Option.isSome_iff_exists.1
      (h.dressed m n hm (Array.mem_toList_iff.1 ha)).1
    rw [attr?_eq_some.1 hattr] at hl
    cases hl
  · have hparts : n ∈ (a.kind m).parts := hp
    rw [hd] at hparts
    refine (List.mem_append.1 hparts).resolve_left fun hi => ?_
    obtain ⟨q, hq⟩ := Option.isSome_iff_exists.1 (hfit.imports n hi)
    rw [packageRef?_eq_some.1 hq] at hl
    cases hl

theorem Forest.own_of_scriptTypes (h : Forest p s served a []) (ht : t ∈ a.scriptTypes s) :
    a.Own s t ∧ t ∈ a.typesOf p := by
  obtain ⟨decl, hd, hfit⟩ := h.isScript
  rw [scriptTypes_eq hd] at ht
  refine ⟨(h.child s t (Or.inl rfl) (List.mem_append_right _ ?_)).1, hfit.types t ht⟩
  unfold kind at hd
  rw [hd]
  exact List.mem_append_right _ ht

theorem Forest.nodup_scriptTypes (h : Forest p s served a []) : (a.scriptTypes s).Nodup := by
  obtain ⟨decl, hd, -⟩ := h.isScript
  rw [scriptTypes_eq hd]
  have hsingle := h.single s (Or.inl rfl)
  unfold children Node.children at hsingle
  unfold kind at hd
  rw [hd] at hsingle
  exact (List.nodup_append.1 (List.nodup_append.1 hsingle).2.1).2.1

/-- What belongs to a package is formed once its scripts are read. -/
theorem Gathered.formed (h : Gathered p served a) (hn : a.home n = some p) :
    a.Formed (a.kind n) := by
  rcases h.whole n hn with rfl | ⟨s, hs, rfl | ho⟩
  · obtain ⟨decl, hd⟩ := h.isPackage
    rw [hd]
    trivial
  · obtain ⟨decl, hd, -⟩ := (h.forest n hs).isScript
    rw [hd]
    trivial
  · exact ((h.forest s hs).fit n ho).formed fun decl hd =>
      h.filled s hs n decl ho hd List.not_mem_nil

theorem Gathered.listed (h : Gathered p served a) : a.Listed p := by
  have hlevel : ∀ t ∈ a.typesOf p, ∃ s ∈ a.scriptsOf p, a.Own s t ∧ (a.kind t).level = 6 := by
    intro t ht
    obtain ⟨s, hs, ho⟩ := h.types t ht
    exact ⟨s, hs, ho, ((h.forest s hs).registered t ht ho).1⟩
  refine ⟨h.keyed, fun t ht => ?_, ?_, fun n hn hl => ?_⟩
  · obtain ⟨-, -, -, hl⟩ := hlevel t ht
    exact hl
  · -- a type belongs to the script that lists it, so no two scripts list one type
    refine (List.perm_ext_iff_of_nodup (nodup_typesOf h.keyed) ?_).2 fun t => ?_
    · refine List.nodup_flatMap.2 ⟨fun s hs => (h.forest s hs).nodup_scriptTypes, ?_⟩
      refine h.distinct.imp_of_mem fun hs hs' hne => ?_
      intro t ht ht'
      have ho := ((h.forest _ hs).own_of_scriptTypes ht).1
      have ho' := ((h.forest _ hs').own_of_scriptTypes ht').1
      unfold Own at ho ho'
      rw [ho] at ho'
      exact hne (Option.some.inj ho')
    · rw [List.mem_flatMap]
      constructor
      · intro ht
        obtain ⟨s, hs, ho, hl⟩ := hlevel t ht
        exact ⟨s, hs, (h.forest s hs).mem_scriptTypes ho hl⟩
      · rintro ⟨s, hs, ht⟩
        exact ((h.forest s hs).own_of_scriptTypes ht).2
  · obtain ⟨s, hs, ho⟩ := h.own_of_level hn (by omega)
    have hf := h.forest s hs
    exact (hf.own_of_scriptTypes (hf.mem_scriptTypes ho hl)).2

end SchemaLang.Arena
