import SchemaLang.Proofs.Session.Ordered

/-!
# What holds of a session

A session compiles packages inside one another. While a package is read, packages that it imports
are compiled to their end, and any of these may fail in its turn. Two things carry through all of it.

* `Session.Sound`: the linked packages are settled and ordered by their imports, packages are called
  what their nodes are called, and no package that is being compiled is linked.
* `Session.Advances`: a session that has gone on keeps every node and every linked package. Where no
  package was linked meanwhile the catalogue is the same, which is what the comparison of sizes that
  guards a rollback relies on.
-/

namespace SchemaLang

open Arena

/-- The package is linked, under some name. -/
def Catalogue.Caches (catalogue : Catalogue) (package : NodeId) : Prop :=
  package ∈ catalogue.loaded.values

namespace Catalogue

variable {catalogue : Catalogue} {name : String} {p q : NodeId}

theorem caches_iff : catalogue.Caches q ↔ ∃ name : String, catalogue.loaded[name]? = some q :=
  mem_values_iff

theorem caches_add (h : catalogue.loaded[name]? = none) :
    (catalogue.add name p).Caches q ↔ q = p ∨ catalogue.Caches q :=
  (mem_values_insert h).trans or_comm

@[simp] theorem loaded_enter (catalogue : Catalogue) (name : String) (p : NodeId) :
    (catalogue.enter name p).loaded = catalogue.loaded := rfl

@[simp] theorem loading_enter (catalogue : Catalogue) (name : String) (p : NodeId) :
    (catalogue.enter name p).loading = catalogue.loading ++ [(name, p)] := rfl

@[simp] theorem loaded_leave (catalogue : Catalogue) :
    catalogue.leave.loaded = catalogue.loaded := rfl

@[simp] theorem loading_add (catalogue : Catalogue) (name : String) (p : NodeId) :
    (catalogue.add name p).loading = catalogue.loading := rfl

theorem loading_leave {loading : List (String × NodeId)}
    (h : catalogue.loading = loading ++ [(name, p)]) : catalogue.leave.loading = loading := by
  unfold leave
  rw [h, List.dropLast_concat]

theorem getElem?_add (other : String) : (catalogue.add name p).loaded[other]? =
    if name = other then some p else catalogue.loaded[other]? := by
  simp only [add, Std.TreeMap.getElem?_insert, Std.LawfulEqCmp.compare_eq_iff_eq]

theorem size_add (h : catalogue.loaded[name]? = none) :
    (catalogue.add name p).loaded.size = catalogue.loaded.size + 1 := by
  have hn : catalogue.loaded.contains name = false := by
    rw [Std.TreeMap.contains_eq_isSome_getElem?, h]
    rfl
  unfold add
  rw [Std.TreeMap.size_insert, hn]
  rfl

theorem cycle?_eq_none (h : catalogue.cycle? name = none) :
    ∀ entry ∈ catalogue.loading, entry.1 ≠ name := by
  intro entry he hname
  unfold cycle? at h
  have hmem : (catalogue.loading.map (·.1)).contains name = true :=
    List.contains_iff_mem.2 (List.mem_map.2 ⟨entry, he, hname⟩)
  rw [if_pos hmem] at h
  cases h

end Catalogue

namespace Session

variable {s t u : Session}

/-! ## Sound sessions -/

/-- The linked packages are settled and ordered, and no package that is being compiled is linked. -/
structure Sound (session : Session) : Prop where
  anchored : Anchored session.1
  settled : ∃ settled, Settled session.2.Caches settled session.1
  ordered : Ordered session.2.Caches session.1
  named : ∀ (name : String) (q : NodeId), session.2.loaded[name]? = some q →
    session.1.name q = name
  loading : ∀ entry ∈ session.2.loading, session.2.loaded[entry.1]? = none ∧
    ¬ session.2.Caches entry.2 ∧ entry.2 < session.1.size ∧ session.1.name entry.2 = entry.1

theorem sound_empty : Sound empty where
  anchored n := anchored_of_size_le (Nat.zero_le n)
  settled := by
    have hnot : ∀ q, ¬ empty.2.Caches q := by
      intro q hq
      obtain ⟨name, hname⟩ := Catalogue.caches_iff.1 hq
      cases hname
    exact ⟨fun _ => False, fun q hq => absurd hq (hnot q), nofun, nofun,
      fun _ q _ hq => absurd hq (hnot q), nofun, fun q _ _ hq => absurd hq (hnot q), nofun, nofun,
      nofun, fun q hq => absurd hq (hnot q)⟩
  ordered := by
    have hnot : ∀ q, ¬ empty.2.Caches q := by
      intro q hq
      obtain ⟨name, hname⟩ := Catalogue.caches_iff.1 hq
      cases hname
    exact ⟨fun p _ hp => absurd hp (hnot p), fun p hp => absurd hp (hnot p)⟩
  named _ _ h := by cases h
  loading := nofun

/-- A linked package is a node of the session, and a package. -/
theorem Sound.linked {q : Nat} (h : Sound s) (hq : s.2.Caches q) :
    q < s.1.size ∧ ∃ decl, s.1.kind q = .package decl := by
  obtain ⟨settled, hs⟩ := h.settled
  obtain ⟨-, decl, hd⟩ := hs.package q hq
  exact ⟨lt_size_of_home (home_of_package hd), decl, hd⟩

theorem Sound.not_caches_size (h : Sound s) : ¬ s.2.Caches s.1.size := fun hq =>
  Nat.lt_irrefl _ (h.linked hq).1

/-! ## Sessions that go on -/

/-- The second session keeps what the first one has. -/
structure Advances (s t : Session) : Prop where
  keeps : s.1.Extends t.1
  loaded : ∀ (name : String) (q : NodeId), s.2.loaded[name]? = some q → t.2.loaded[name]? = some q
  grows : t.2.loaded = s.2.loaded ∨ s.2.loaded.size < t.2.loaded.size
  homes : ∀ n q : Nat, s.1.size ≤ n → t.1.home n = some q → s.1.size ≤ q ∨ t.2.Caches q

theorem Advances.refl (s : Session) : Advances s s where
  keeps := .refl _
  loaded _ _ := id
  grows := Or.inl rfl
  homes _ _ hn hq := absurd (lt_size_of_home hq) (Nat.not_lt.2 hn)

theorem Advances.caches {q : NodeId} (h : Advances s t) (hq : s.2.Caches q) : t.2.Caches q := by
  obtain ⟨name, hname⟩ := Catalogue.caches_iff.1 hq
  exact Catalogue.caches_iff.2 ⟨name, h.loaded name q hname⟩

theorem Advances.trans (h : Advances s t) (h' : Advances t u) (ht : Anchored t.1) :
    Advances s u where
  keeps := h.keeps.trans h'.keeps
  loaded name q hq := h'.loaded name q (h.loaded name q hq)
  grows := by
    rcases h.grows with he | hlt
    · rw [← he]
      exact h'.grows
    · rcases h'.grows with he' | hlt'
      · rw [he']
        exact Or.inr hlt
      · exact Or.inr (Nat.lt_trans hlt hlt')
  homes n q hn hq := by
    rcases Nat.lt_or_ge n t.1.size with hlt | hge
    · rw [ht.home_eq h'.keeps hlt] at hq
      exact (h.homes n q hn hq).imp id h'.caches
    · exact (h'.homes n q hge hq).imp (Nat.le_trans h.keeps.size_le) id

/-- A step within a package that is new keeps what was there before. -/
theorem Advances.within {b : Arena} (h : Advances s t) (hs : Anchored s.1)
    (hw : Within s.1.size t.2.Caches t.1 b) : Advances s (b, t.2) where
  keeps := by
    refine ⟨Nat.le_trans h.keeps.size_le hw.size_le, fun n hn => ?_⟩
    rw [hw.frame n (Nat.lt_of_lt_of_le hn h.keeps.size_le), h.keeps.node_eq n hn]
    -- an older node belongs to an older package
    intro he
    rw [hs.home_eq h.keeps hn] at he
    exact Nat.lt_irrefl _ ((hs n).home_lt _ he)
  loaded := h.loaded
  grows := h.grows
  homes n q hn hq := by
    rcases Nat.lt_or_ge n t.1.size with hlt | hge
    · rw [hw.homes n hlt] at hq
      exact h.homes n q hn hq
    · rcases (hw.fresh n hge (lt_size_of_home hq)).2 with he | ⟨-, q', he, hserved⟩
      · rw [hq] at he
        exact Or.inl (Nat.le_of_eq (Option.some.inj he).symm)
      · rw [hq] at he
        exact Or.inr (Option.some.inj he ▸ hserved)

end Session

end SchemaLang
