import SchemaLang.Proofs.Link.Linking

/-!
# Imports between packages

A package needs the packages that its imports stand for. The linked packages are ordered by their
imports: whatever one of them needs is linked as well, and no chain of imports goes on for ever, so
that none comes back to where it starts. A package enters the session after all that it needs, which
keeps the order.
-/

namespace SchemaLang.Arena

variable {a b : Arena} {p q : Nat} {cached served : NodeId → Prop}

/-- An import of the package `p` stands for the package `q`. -/
def Needs (a : Arena) (p q : NodeId) : Prop :=
  ∃ n, a.home n = some p ∧ a.kind n = .packageRef q

/-- The cached packages are closed under imports, and no chain of imports from one of them goes on
for ever. -/
structure Ordered (cached : NodeId → Prop) (a : Arena) : Prop where
  closed : ∀ p q : Nat, cached p → a.Needs p q → cached q
  founded : ∀ p : Nat, cached p → Acc (fun q p => a.Needs p q) p

/-- A step within a package that is not cached leaves the needs of cached packages alone. -/
theorem Within.needs (h : Within p cached a b) (hp : ¬ cached p) {r : Nat} (hr : cached r)
    (hq : b.Needs r q) : a.Needs r q := by
  obtain ⟨n, hn, hk⟩ := hq
  have hne : r ≠ p := fun e => hp (e ▸ hr)
  rcases Nat.lt_or_ge n a.size with hlt | hge
  · rw [h.homes n hlt] at hn
    refine ⟨n, hn, ?_⟩
    have hnode := h.frame n hlt fun e => hne (Option.some.inj (hn.symm.trans e))
    unfold kind at hk ⊢
    rwa [← hnode]
  · rcases (h.fresh n hge (lt_size_of_home hn)).2 with he | ⟨hm, -⟩
    · exact absurd (Option.some.inj (hn.symm.trans he)) hne
    · rw [method?, hk] at hm
      cases hm

theorem Ordered.within (h : Ordered cached a) (hw : Within p cached a b) (hp : ¬ cached p) :
    Ordered cached b where
  closed r q hr hq := h.closed r q hr (hw.needs hp hr hq)
  founded r hr := by
    have hacc := h.founded r hr
    induction hacc with
    | intro r _ ih =>
      refine .intro r fun q hq => ?_
      have hq' := hw.needs hp hr hq
      exact ih q hq' (h.closed r q hr hq')

/-- A package enters after all that it needs. -/
theorem Ordered.add (h : Ordered cached a) (hp : ∀ q, a.Needs p q → cached q) :
    Ordered (fun q => q = p ∨ cached q) a where
  closed r q hr hq := by
    rcases hr with rfl | hr
    · exact Or.inr (hp q hq)
    · exact Or.inr (h.closed r q hr hq)
  founded r hr := by
    rcases hr with rfl | hr
    · exact .intro r fun q hq => h.founded q (hp q hq)
    · exact h.founded r hr

/-- What the scripts of a package import was served by the host. -/
theorem Gathered.needs (h : Gathered p served a) (hq : a.Needs p q) : served q := by
  obtain ⟨n, hn, hk⟩ := hq
  obtain ⟨s, hs, ho⟩ := h.own_of_level hn (by rw [hk]; exact (by decide : 5 < 7))
  have hfit := (h.forest s hs).fit n ho
  rw [hk] at hfit
  exact hfit.2

/-- Of the packages that are served, those that the package needs are enough. -/
theorem Gathered.reserve {served' : NodeId → Prop} (h : Gathered p served a) (ha : Anchored a)
    (hs : ∀ q, a.Needs p q → served' q) : Gathered p served' a where
  isPackage := h.isPackage
  bare := h.bare
  distinct := h.distinct
  forest s hmem := (h.forest s hmem).reserve fun n q hn hk =>
    hs q ⟨n, (h.forest s hmem).home_of_own ha hn, hk⟩
  parent := h.parent
  whole := h.whole
  types := h.types
  keyed := h.keyed
  filled := h.filled

/-- Linking a package changes nothing about what it needs. -/
theorem Links.needs (h : Links p cached a b) {r : Nat} (hr : b.Needs r q) : a.Needs r q := by
  obtain ⟨n, hn, hk⟩ := hr
  have hk' := (h.imports n q).1 hk
  refine ⟨n, ?_, hk'⟩
  rw [← hn, h.homes n (lt_size_of_kind (by rw [hk']; exact (by decide : 5 ≠ 1)))]

end SchemaLang.Arena
