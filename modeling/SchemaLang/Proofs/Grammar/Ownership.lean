import SchemaLang.Proofs.Arena.Walk
import SchemaLang.Proofs.Grammar.Packages

/-!
# The tree of a script

A script that was read is one tree. A walk from it visits the script and the nodes that were read
from it, each of them once, and the parent of a node is the one node that owns it
(`Arena.Forest.isTree`).
-/

namespace SchemaLang.Arena

open Relation

variable {a : Arena} {c m n p s : Nat} {served : NodeId → Prop} {loose : List NodeId}

/-- The script and what was read from it are a tree, where every node has its place once, and
attributes have theirs among attributes. -/
structure IsTree (a : Arena) (script : NodeId) : Prop where
  nodup : (a.walk script).Nodup
  mem_walk : ∀ n, n ∈ a.walk script ↔ n = script ∨ a.Own script n
  parent : ∀ m ∈ a.walk script, ∀ n ∈ a.children m, (a.node n).parent = some m
  once : ∀ m ∈ a.walk script, (a.children m).Nodup
  owner : ∀ n, a.Own script n → ∃! m, m ∈ a.walk script ∧ n ∈ a.children m
  carrier : ∀ n, a.Own script n → (a.attr? n).isSome →
    ∃! m, m ∈ a.walk script ∧ n ∈ (a.node m).attrs

theorem rank_lt (h : n < a.size) : a.rank n < 9 * a.size := by
  have hl := NodeKind.level_le (a.kind n)
  unfold rank
  calc (a.kind n).level * a.size + n
      < (a.kind n).level * a.size + a.size := Nat.add_lt_add_left h _
    _ ≤ 8 * a.size + a.size := Nat.add_le_add_right (Nat.mul_le_mul_right _ hl) _
    _ = 9 * a.size := by omega

/-- What a node owns beside its attributes is a type, a literal or a list of arguments, a member, or
a slot, where the node is a method. -/
theorem Fit.part {kind : NodeKind} (h : Fit served a kind) (hc : c ∈ kind.parts) :
    (a.kind c).isType = true ∨ (a.kind c).level ≤ 2 ∨ (a.kind c).level = 5 ∨
      (a.kind c).level = 4 ∧ ∃ decl, kind = .method decl := by
  cases kind with
  | package decl => exact h.elim
  | script decl => exact h.elim
  | enum decl =>
    obtain ⟨entry, he, rfl⟩ := List.mem_map.1 hc
    obtain ⟨-, value, hk, -⟩ := h.values entry he
    rw [hk]
    exact Or.inr (Or.inr (Or.inl rfl))
  | table decl =>
    obtain ⟨field, hk⟩ := h.kind_field hc
    rw [hk]
    exact Or.inr (Or.inr (Or.inl rfl))
  | field decl | param decl => exact Or.inl (List.mem_singleton.1 hc ▸ h)
  | list decl => exact Or.inl (List.mem_singleton.1 hc ▸ h.1)
  | contract decl =>
    rcases List.mem_append.1 hc with hc | hc
    · exact Or.inl (NodeKind.isType_of_level (h.bases c hc))
    · obtain ⟨method, hm⟩ := Option.isSome_iff_exists.1 (h.isMethod hc)
      rw [method?_eq_some.1 hm]
      exact Or.inr (Or.inr (Or.inl rfl))
  | method decl => exact Or.inr (Or.inr (Or.inr ⟨h c hc, decl, rfl⟩))
  | attr decl =>
    rcases List.mem_cons.1 hc with rfl | hc
    · exact Or.inl (NodeKind.isType_of_level h.1)
    · exact Or.inr (Or.inl (Nat.le_of_eq (h.2 c (Option.mem_toList.1 hc))))
  | args items | namedArgs items => exact Or.inr (Or.inl (Nat.le_succ_of_le (h c hc).2))
  | array length element => exact Or.inl (List.mem_singleton.1 hc ▸ h.2.1)
  | map key value =>
    rcases List.mem_cons.1 hc with rfl | hc
    · exact Or.inl (NodeKind.isType_of_level h.1)
    · exact Or.inl (NodeKind.isType_of_level (List.mem_singleton.1 hc ▸ h.2))
  | union left right =>
    rcases List.mem_cons.1 hc with rfl | hc
    · exact Or.inr (Or.inl (Nat.le_succ_of_le h.1.2))
    · exact Or.inr (Or.inl (Nat.le_succ_of_le (List.mem_singleton.1 hc ▸ h.2.2)))
  | packageRef _ | typeRef _ | enumValue _ | string _ | int _ | float _ | bool _ => cases hc

theorem Fit.attr?_of_part {kind : NodeKind} (h : Fit served a kind) (hc : c ∈ kind.parts) :
    a.attr? c = none := by
  refine Option.eq_none_iff_forall_ne_some.2 fun decl hd => ?_
  have hpart := h.part hc
  rw [attr?_eq_some.1 hd] at hpart
  rcases hpart with htype | hl | hl | ⟨hl, -⟩
  · cases htype
  · exact absurd hl (by decide : ¬ 3 ≤ 2)
  · cases hl
  · cases hl

/-- Only methods own slots. -/
theorem Fit.method_of_slot {kind : NodeKind} (h : Fit served a kind) (hc : c ∈ kind.parts)
    (hl : (a.kind c).level = 4) : ∃ decl, kind = .method decl := by
  rcases h.part hc with htype | hle | hl' | ⟨-, hm⟩
  · have := NodeKind.level_of_isType htype
    omega
  · omega
  · omega
  · exact hm

namespace Forest

theorem descends (h : Forest p s served a []) : a.Descends a.rank (a.Owner s) where
  lt_size _ hn := h.owner_lt_size hn
  down m n hm hn := by
    obtain ⟨hown, hunder⟩ := h.child m n hm hn
    exact ⟨Or.inr hown, hunder.rank_lt hown.lt_size⟩

/-- Every node of a script can be reached from it: going up raises the rank, so it ends at the
script. -/
theorem reaches (h : Forest p s served a []) (hn : a.Own s n) : a.Reaches s n := by
  induction hk : 9 * a.size - a.rank n using Nat.strong_induction_on generalizing n with
  | _ k ih =>
    subst hk
    rcases h.covered n hn with hw | ⟨m, hm, hc⟩
    · cases hw
    · refine ReflTransGen.tail ?_ hc
      rcases hm with rfl | hm
      · exact .refl
      · have hlt := (h.child m n (Or.inr hm) hc).2.rank_lt hn.lt_size
        have hm' := rank_lt hm.lt_size
        exact ih _ (by omega) hm rfl

theorem mem_walk_iff (h : Forest p s served a []) : n ∈ a.walk s ↔ a.Owner s n := by
  constructor
  · exact fun hn => h.descends.inside_of_reaches (Or.inl rfl) (reaches_of_mem_walk hn)
  · rintro (rfl | hn)
    · exact h.descends.mem_walk_of_reaches (Or.inl rfl) .refl
    · exact h.descends.mem_walk_of_reaches (Or.inl rfl) (h.reaches hn)

theorem owner_eq {m' : Nat} (h : Forest p s served a loose) (hm : a.Owner s m) (hm' : a.Owner s m')
    (hn : n ∈ a.children m) (hn' : n ∈ a.children m') : m = m' := by
  have ht := h.tied m n hm hn
  rw [h.tied m' n hm' hn'] at ht
  exact (Option.some.inj ht).symm

theorem isSingle (h : Forest p s served a []) : a.Single (a.Owner s) where
  once := h.single
  owner_eq _ _ _ hm hm' hn hn' := h.owner_eq hm hm' hn hn'

/-- An attribute that a node owns is on it. -/
theorem mem_attrs (h : Forest p s served a loose) (hm : a.Owner s m) (hn : n ∈ a.children m)
    (ha : (a.attr? n).isSome) : n ∈ (a.node m).attrs := by
  obtain ⟨decl, hd⟩ := Option.isSome_iff_exists.1 ha
  rcases List.mem_append.1 hn with hn' | hn'
  · exact Array.mem_toList_iff.1 hn'
  · exfalso
    have ho := (h.child m n hm hn).1
    rcases hm with rfl | hm
    · obtain ⟨script, hs, hfit⟩ := h.isScript
      have hparts : n ∈ (a.kind m).parts := hn'
      rw [hs] at hparts
      rcases List.mem_append.1 hparts with hi | ht
      · obtain ⟨q, hq⟩ := Option.isSome_iff_exists.1 (hfit.imports n hi)
        rw [packageRef?_eq_some, attr?_eq_some.1 hd] at hq
        cases hq
      · have hl := (h.registered n (hfit.types n ht) ho).1
        rw [attr?_eq_some.1 hd] at hl
        cases hl
    · rw [(h.fit m hm).attr?_of_part hn'] at hd
      cases hd

/-- A slot is listed by a method. -/
theorem method_of_slot (h : Forest p s served a []) (hn : a.Own s n) (hl : (a.kind n).level = 4) :
    ∃ m decl, a.Owner s m ∧ a.kind m = .method decl ∧
      n ∈ decl.params.toList ++ decl.results.toList := by
  rcases h.covered n hn with hw | ⟨m, hm, hc⟩
  · cases hw
  · rcases List.mem_append.1 hc with ha | hp
    · have hattr := (h.dressed m n hm (Array.mem_toList_iff.1 ha)).1
      obtain ⟨decl, hd⟩ := Option.isSome_iff_exists.1 hattr
      rw [attr?_eq_some.1 hd] at hl
      cases hl
    · rcases hm with rfl | hm
      · obtain ⟨script, hs, hfit⟩ := h.isScript
        have hparts : n ∈ (a.kind m).parts := hp
        rw [hs] at hparts
        rcases List.mem_append.1 hparts with hi | ht
        · obtain ⟨q, hq⟩ := Option.isSome_iff_exists.1 (hfit.imports n hi)
          rw [packageRef?_eq_some.1 hq] at hl
          cases hl
        · rw [(h.registered n (hfit.types n ht) hn).1] at hl
          cases hl
      · obtain ⟨decl, hd⟩ := (h.fit m hm).method_of_slot hp hl
        have hparts : n ∈ (a.kind m).parts := hp
        rw [hd] at hparts
        exact ⟨m, decl, Or.inr hm, hd, hparts⟩

/-- A script that was read is a tree. -/
theorem isTree (h : Forest p s served a []) : a.IsTree s where
  nodup := h.descends.nodup_walk h.isSingle (Or.inl rfl)
  mem_walk _ := h.mem_walk_iff
  parent m hm n hn := h.tied m n (h.mem_walk_iff.1 hm) hn
  once m hm := h.single m (h.mem_walk_iff.1 hm)
  owner n hn := by
    rcases h.covered n hn with hw | ⟨m, hm, hc⟩
    · cases hw
    · exact ⟨m, ⟨h.mem_walk_iff.2 hm, hc⟩, fun m' hm' =>
        h.owner_eq (h.mem_walk_iff.1 hm'.1) hm hm'.2 hc⟩
  carrier n hn ha := by
    rcases h.covered n hn with hw | ⟨m, hm, hc⟩
    · cases hw
    · refine ⟨m, ⟨h.mem_walk_iff.2 hm, h.mem_attrs hm hc ha⟩, fun m' hm' => ?_⟩
      exact h.owner_eq (h.mem_walk_iff.1 hm'.1) hm
        (List.mem_append_left _ (Array.mem_toList_iff.2 hm'.2)) hc

end Forest

end SchemaLang.Arena
