import SchemaLang.Proofs.Session.Reachable

/-!
# Packages are well formed

Consumers of a linked package read its nodes without checks of their own. What they rely on is
spelled out here (`Arena.WellFormed`), and holds of every linked package of every session
(`linked_wellFormed`).
-/

namespace SchemaLang

open Arena

/-! ## What consumers rely on -/

namespace Arena

variable {a : Arena} {n p : Nat} {cached settled : NodeId → Prop}

/-- A node that belongs to the package, or that a walk over the package visits. -/
def Visible (a : Arena) (package : NodeId) (n : Nat) : Prop :=
  n ∈ a.walk package ∨ a.home n = some package

/-- An enum has a value, and the first one is the default. Its values have different names, and lie
in the range of its storage. -/
structure WellFormedEnum (a : Arena) (decl : Enumeration) : Prop where
  default : ∃ first, decl.values.nodes.head? = some first ∧ decl.default = some first
  distinct : (decl.values.nodes.map a.name).Nodup
  values : ∀ v ∈ decl.values.nodes, ∃ value, a.kind v = .enumValue value ∧
    decl.base.least ≤ value.toInt ∧ value.toInt ≤ decl.base.greatest

/-- The fields of a table have different names, and are numbered in order. -/
structure WellFormedTable (a : Arena) (decl : Table) : Prop where
  distinct : (decl.fields.toList.map a.name).Nodup
  fields : ∀ (i : Nat) (h : i < decl.fields.size), ∃ member, a.kind decl.fields[i] = .field member ∧
    member.id.toNat = i

/-- A reference or a map. -/
def IsElement (a : Arena) (n : Nat) : Prop :=
  (∃ reference, a.kind n = .typeRef reference) ∨ ∃ key value, a.kind n = .map key value

/-- What holds of a package and of every node of it. -/
structure WellFormed (a : Arena) (package : NodeId) : Prop where
  /-- The types of the package are those that its scripts list. -/
  types : (a.typesOf package).Perm ((a.scriptsOf package).flatMap a.scriptTypes)
  /-- No type is listed twice, by one script or by two. -/
  disjoint : ((a.scriptsOf package).flatMap a.scriptTypes).Nodup
  keyed : ∀ entry ∈ a.typeEntries package, entry.1 = a.name entry.2
  declared : ∀ t ∈ a.typesOf package, (∃ decl, a.kind t = .enum decl) ∨
    (∃ decl, a.kind t = .table decl) ∨ ∃ decl, a.kind t = .contract decl
  enums : ∀ n decl, a.Visible package n → a.kind n = .enum decl → a.WellFormedEnum decl
  tables : ∀ n decl, a.Visible package n → a.kind n = .table decl → a.WellFormedTable decl
  arrays : ∀ n length element, a.Visible package n → a.kind n = .array length element →
    1 ≤ length.toNat ∧ length.toNat ≤ 65535 ∧ a.IsElement element
  lists : ∀ n element, a.Visible package n → a.kind n = .list element → a.IsElement element
  maps : ∀ n key value, a.Visible package n → a.kind n = .map key value →
    (∃ reference, a.kind key = .typeRef reference) ∧ ∃ reference, a.kind value = .typeRef reference
  bases : ∀ n decl, a.Visible package n → a.kind n = .contract decl → ∀ base ∈ decl.bases.toList,
    ∃ path t contract, a.kind base = .typeRef ⟨path, some t⟩ ∧ a.Means base t ∧
      a.kind t = .contract contract

/-! ## Formed nodes -/

theorem EnumFit.wellFormed {decl : Enumeration} (h : EnumFit a decl)
    (hd : decl.default.isSome = true) : a.WellFormedEnum decl where
  default := by
    obtain ⟨first, hfirst⟩ := Option.isSome_iff_exists.1 hd
    exact ⟨first, h.default_eq.symm.trans hfirst, hfirst⟩
  distinct := by
    have hnames : decl.values.nodes.map a.name = decl.values.names := by
      unfold Registry.nodes Registry.names
      rw [List.map_map]
      exact List.map_congr_left fun entry he => (h.values entry he).1
    have hdistinct := decl.values.distinct
    rw [hnames]
    rwa [Array.toList_map] at hdistinct
  values v hv := by
    obtain ⟨entry, he, rfl⟩ := List.mem_map.1 hv
    obtain ⟨-, value, hk, hrange⟩ := h.values entry he
    exact ⟨value, hk, EnumBase.contains_iff.1 hrange⟩

theorem TableFit.wellFormed {decl : Table} (h : TableFit a decl) : a.WellFormedTable decl where
  distinct := h.distinct
  fields i hi := by
    obtain ⟨type, hk⟩ := h.fields i hi
    have hcount := h.count
    refine ⟨_, hk, ?_⟩
    rw [UInt16.toNat_ofNat']
    exact Nat.mod_eq_of_lt (by omega)

theorem isElement_of_isType (h : (a.kind n).isType = true) (hs : (a.kind n).isSequence = false) :
    a.IsElement n := by
  cases hk : a.kind n with
  | typeRef reference => exact Or.inl ⟨reference, hk⟩
  | map key value => exact Or.inr ⟨key, value, hk⟩
  | array length element =>
    rw [hk] at hs
    cases hs
  | list element =>
    rw [hk] at hs
    cases hs
  | _ =>
    rw [hk] at h
    cases h

theorem typeRef_of_level (h : (a.kind n).level = 0) : ∃ reference, a.kind n = .typeRef reference := by
  cases hk : a.kind n with
  | typeRef reference => exact ⟨reference, rfl⟩
  | _ =>
    rw [hk] at h
    cases h

theorem declaration_of_level (h : (a.kind n).level = 6) : (∃ decl, a.kind n = .enum decl) ∨
    (∃ decl, a.kind n = .table decl) ∨ ∃ decl, a.kind n = .contract decl := by
  cases hk : a.kind n with
  | enum decl => exact Or.inl ⟨decl, rfl⟩
  | table decl => exact Or.inr (Or.inl ⟨decl, rfl⟩)
  | contract decl => exact Or.inr (Or.inr ⟨decl, rfl⟩)
  | _ =>
    rw [hk] at h
    cases h

/-! ## Linked packages -/

theorem Settled.visible_formed (h : Settled cached settled a) (hp : cached p) (hn : a.Visible p n) :
    a.Formed (a.kind n) := by
  rcases Session.settled_or_method h hp hn with hs | hm
  · exact h.formed n hs
  · obtain ⟨method, hm⟩ := Option.isSome_iff_exists.1 hm
    rw [method?_eq_some.1 hm]
    trivial

/-- A contract that is seen of a linked package is flattened, so its bases are contracts. -/
theorem Settled.visible_bases {decl : Contract} {base : NodeId} (h : Settled cached settled a)
    (hp : cached p) (hn : a.Visible p n) (hk : a.kind n = .contract decl)
    (hb : base ∈ decl.bases.toList) : ∃ path t contract, a.kind base = .typeRef ⟨path, some t⟩ ∧
      a.Means base t ∧ a.kind t = .contract contract := by
  have hs : settled n := (Session.settled_or_method h hp hn).resolve_right fun hm => by
    obtain ⟨method, hm⟩ := Option.isSome_iff_exists.1 hm
    rw [method?_eq_some.1 hm] at hk
    cases hk
  obtain ⟨q, hq, hcached⟩ := h.home n hs
  have hflat := h.flat q n decl hcached ((h.listed q hcached).complete n hq (by rw [hk]; rfl)) hk
  have hformed := h.formed n hs
  rw [hk] at hformed
  obtain ⟨path, t, hkb, ht⟩ := hformed hflat base hb
  obtain ⟨contract, hc⟩ := Option.isSome_iff_exists.1 ht
  have hsb : settled base := h.closed.part hs (by
    rw [hk]
    exact List.mem_append_left _ hb)
  obtain ⟨path', t', hkb', hm⟩ := h.bound base _ hsb hkb
  rw [hkb] at hkb'
  cases hkb'
  exact ⟨path, t, contract, hkb, hm, contract?_eq_some.1 hc⟩

theorem Settled.wellFormed (h : Settled cached settled a) (hp : cached p) : a.WellFormed p where
  types := (h.listed p hp).perm
  disjoint := (h.listed p hp).perm.nodup_iff.1 (nodup_typesOf (h.listed p hp).keyed)
  keyed entry he := ((h.listed p hp).keyed entry he).symm
  declared t ht := declaration_of_level ((h.listed p hp).declared t ht)
  enums n decl hn hk := by
    have hf := h.visible_formed hp hn
    rw [hk] at hf
    exact hf.1.wellFormed hf.2
  tables n decl hn hk := by
    have hf := h.visible_formed hp hn
    rw [hk] at hf
    exact TableFit.wellFormed hf
  arrays n length element hn hk := by
    have hf := h.visible_formed hp hn
    rw [hk] at hf
    exact ⟨hf.1, Nat.le_of_lt_succ length.toNat_lt, isElement_of_isType hf.2.1 hf.2.2⟩
  lists n element hn hk := by
    have hf := h.visible_formed hp hn
    rw [hk] at hf
    exact isElement_of_isType hf.1 hf.2
  maps n key value hn hk := by
    have hf := h.visible_formed hp hn
    rw [hk] at hf
    exact ⟨typeRef_of_level hf.1, typeRef_of_level hf.2⟩
  bases n decl hn hk base hb := h.visible_bases hp hn hk hb

end Arena

/-- In every session, whatever calls have led to it, every linked package is well formed. -/
theorem linked_wellFormed (s : Session) (name : String) (p : NodeId) (hs : s.Reachable)
    (hp : s.package? name = some p) : s.arena.WellFormed p := by
  obtain ⟨settled, hsettled⟩ := hs.sound.settled
  exact hsettled.wellFormed (Catalogue.caches_iff.2 ⟨name, hp⟩)

theorem linked_wellFormed_small : ∃ t : Session, t.Reachable ∧
    t.package? Prelude.packageName = some 0 ∧ t.arena.WellFormed 0 := by
  obtain ⟨t, ht, -⟩ := Session.Small.compile_ok
  obtain ⟨hreachable, hpackage⟩ := Session.reachable_of_ok ht
  exact ⟨t, hreachable, hpackage, linked_wellFormed t _ 0 hreachable hpackage⟩

end SchemaLang
