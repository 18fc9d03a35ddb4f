import SchemaLang.Outline
import SchemaLang.Proofs.Arena.Home
import SchemaLang.Proofs.Arena.Walk

/-!
# How deep a node is

The depth of a node is found by going up, while a walk goes down. Where the parents lead up to a package
(`Arena.AtDepth`), the count comes to an end there and says how many steps that takes
(`AtDepth.depth_eq`).

* `Arena.Traverses`: a walk with the distances that it visits the nodes at.
* `Descends.traverses`: the walk as it is computed visits these nodes in this order.
* `Traverses.forall`: what is passed on to children holds of all nodes that are visited.
-/

namespace SchemaLang.Arena

variable {a b : Arena} {n m d e root : Nat}

/-! ## The way up -/

/-- The links to parents lead from the node to a package in this number of steps, and end there. -/
inductive AtDepth (a : Arena) : NodeId → Nat → Prop where
  | top {n : NodeId} {decl : Package} (isPackage : a.kind n = .package decl)
    (root : (a.node n).parent = none) : AtDepth a n 0
  | up {n owner : NodeId} {d : Nat} (parent : (a.node n).parent = some owner)
    (above : AtDepth a owner d) : AtDepth a n (d + 1)

theorem lt_size_of_parent (h : (a.node n).parent = some m) : n < a.size := by
  refine Nat.lt_of_not_le fun hn => ?_
  rw [node_of_size_le hn] at h
  cases h

namespace AtDepth

theorem unique (h : a.AtDepth n d) (h' : a.AtDepth n e) : d = e := by
  induction h generalizing e with
  | top _ hroot =>
    cases h' with
    | top => rfl
    | up hparent => cases hroot.symm.trans hparent
  | up hparent _ ih =>
    cases h' with
    | top _ hroot => cases hroot.symm.trans hparent
    | up hparent' habove =>
      cases hparent.symm.trans hparent'
      rw [ih habove]

theorem lt_size (h : a.AtDepth n d) : n < a.size := by
  cases h with
  | top hkind => exact lt_size_of_home (home_of_package hkind)
  | up hparent => exact lt_size_of_parent hparent

theorem depthWithin_eq (h : a.AtDepth n d) : ∀ {fuel : Nat}, d ≤ fuel → a.depthWithin fuel n = d := by
  induction h with
  | top _ hroot =>
    rintro ⟨_ | fuel⟩ _
    · rfl
    · unfold depthWithin
      rw [hroot]
  | up hparent _ ih =>
    rintro ⟨_ | fuel⟩ hle
    · omega
    · unfold depthWithin
      rw [hparent]
      exact congrArg (· + 1) (ih (Nat.le_of_succ_le_succ hle))

/-- The nodes on the way up are different, so there are no more steps than nodes. -/
theorem exists_finset (h : a.AtDepth n d) : ∃ way : Finset Nat, way.card = d + 1 ∧
    ∀ m ∈ way, m < a.size ∧ ∃ e ≤ d, a.AtDepth m e := by
  induction h with
  | @top n decl hkind hroot =>
    have hn : a.AtDepth n 0 := .top hkind hroot
    refine ⟨{n}, rfl, fun m hm => ?_⟩
    rw [Finset.mem_singleton.1 hm]
    exact ⟨hn.lt_size, 0, Nat.le_refl _, hn⟩
  | @up n owner d hparent habove ih =>
    obtain ⟨way, hcard, hway⟩ := ih
    have hn : a.AtDepth n (d + 1) := .up hparent habove
    have hnew : n ∉ way := fun hmem => by
      obtain ⟨-, e, he, hdepth⟩ := hway n hmem
      have := hdepth.unique hn
      omega
    refine ⟨insert n way, by rw [Finset.card_insert_of_notMem hnew, hcard], fun m hm => ?_⟩
    rcases Finset.mem_insert.1 hm with rfl | hm
    · exact ⟨hn.lt_size, d + 1, Nat.le_refl _, hn⟩
    · obtain ⟨hlt, e, he, hdepth⟩ := hway m hm
      exact ⟨hlt, e, Nat.le_succ_of_le he, hdepth⟩

theorem depth_lt (h : a.AtDepth n d) : d < a.size := by
  obtain ⟨way, hcard, hway⟩ := h.exists_finset
  have hsub : way ⊆ Finset.range a.size := fun m hm => Finset.mem_range.2 (hway m hm).1
  have hle := Finset.card_le_card hsub
  rw [hcard, Finset.card_range] at hle
  exact hle

/-- The count of the steps is right. -/
theorem depth_eq (h : a.AtDepth n d) : a.depth n = d :=
  h.depthWithin_eq (Nat.le_of_lt h.depth_lt)

/-- The way up stays where the parents of nodes of some kinds do, and these have parents of such kinds. -/
theorem congr {held : NodeId → Prop} (hup : ∀ m owner : Nat, held m → (a.node m).parent = some owner →
      held owner)
    (hparent : ∀ m, held m → (b.node m).parent = (a.node m).parent)
    (hkind : ∀ m decl, held m → a.kind m = .package decl → ∃ decl', b.kind m = .package decl')
    (h : a.AtDepth n d) (hn : held n) : b.AtDepth n d := by
  induction h with
  | top hk hroot =>
    obtain ⟨decl, hk'⟩ := hkind _ _ hn hk
    exact .top hk' ((hparent _ hn).trans hroot)
  | up hup' _ ih => exact .up ((hparent _ hn).trans hup') (ih (hup _ _ hn hup'))

end AtDepth

/-! ## The way down, with distances -/

/-- The nodes that are visited from siblings at a distance, each with its own distance: each node comes
before those below it, and these come before its siblings. -/
inductive Traverses (a : Arena) : Nat → List NodeId → List (NodeId × Nat) → Prop where
  | nil {d : Nat} : Traverses a d [] []
  | cons {d : Nat} {n : NodeId} {siblings : List NodeId} {below after : List (NodeId × Nat)}
    (down : Traverses a (d + 1) (a.children n) below) (next : Traverses a d siblings after) :
    Traverses a d (n :: siblings) ((n, d) :: (below ++ after))

/-- What is passed on from a node to its children holds of all nodes that are visited. -/
theorem Traverses.forall {P : NodeId → Nat → Prop} {nodes : List NodeId} {visits : List (NodeId × Nat)}
    (h : a.Traverses d nodes visits) (hnodes : ∀ n ∈ nodes, P n d)
    (hdown : ∀ n d, P n d → ∀ child ∈ a.children n, P child (d + 1)) :
    ∀ visit ∈ visits, P visit.1 visit.2 := by
  induction h with
  | nil => exact List.forall_mem_nil _
  | @cons d n siblings below after _ _ ih ih' =>
    have hn := hnodes n List.mem_cons_self
    refine List.forall_mem_cons.2 ⟨hn, List.forall_mem_append.2 ⟨ih fun child hc => hdown n d hn child hc,
      ih' fun m hm => hnodes m (List.mem_cons_of_mem _ hm)⟩⟩

/-- The walk as it is computed visits the nodes in this order. -/
theorem Descends.traverses {rank : NodeId → Nat} {inside : NodeId → Prop} (h : a.Descends rank inside)
    (hroot : inside root) : ∃ visits, a.Traverses 0 [root] visits ∧ visits.map Prod.fst = a.walk root := by
  have hbelow : ∀ (depth d : Nat) (nodes : List NodeId), (∀ n ∈ nodes, inside n ∧
      a.height rank n < depth) → ∃ visits, a.Traverses d nodes visits ∧
        visits.map Prod.fst = nodes.flatMap (a.preorder depth) := by
    intro depth
    induction depth with
    | zero =>
      rintro d (_ | ⟨n, siblings⟩) hnodes
      · exact ⟨[], .nil, rfl⟩
      · exact absurd (hnodes n List.mem_cons_self).2 (Nat.not_lt_zero _)
    | succ depth ih =>
      intro d nodes
      induction nodes with
      | nil => exact fun _ => ⟨[], .nil, rfl⟩
      | cons n siblings ihs =>
        intro hnodes
        obtain ⟨hn, hlt⟩ := hnodes n List.mem_cons_self
        obtain ⟨after, hafter, hmapAfter⟩ := ihs fun m hm => hnodes m (List.mem_cons_of_mem _ hm)
        obtain ⟨below, hdown, hmapBelow⟩ := ih (d + 1) (a.children n) fun child hc => by
          obtain ⟨hin, hrank⟩ := h.down n child hn hc
          have := height_lt_height (h.lt_size child hin) hrank
          exact ⟨hin, by omega⟩
        refine ⟨_, .cons hdown hafter, ?_⟩
        rw [List.map_cons, List.map_append, hmapBelow, hmapAfter, List.flatMap_cons]
        rfl
  obtain ⟨visits, hvisits, hmap⟩ := hbelow (a.size + 1) 0 [root] fun n hn => by
    rw [List.mem_singleton.1 hn]
    exact ⟨hroot, Nat.lt_succ_of_lt (height_lt_size rank (h.lt_size root hroot))⟩
  refine ⟨visits, hvisits, ?_⟩
  rw [hmap, (h.founded hroot).walk_eq, List.flatMap_singleton, order]

end SchemaLang.Arena
