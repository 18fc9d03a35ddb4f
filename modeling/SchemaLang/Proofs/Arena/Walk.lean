import Mathlib.Data.Finset.Card
import Mathlib.Logic.Relation
import Mathlib.Order.WellFounded
import SchemaLang.Proofs.Arena.Nodes
import SchemaLang.Proofs.Outcome

/-!
# What a walk visits

A walk visits only nodes that can be reached by going down (`reaches_of_mem_walk`). Where no way down goes
on for ever (`Arena.Founded`), it has no node of the arena twice, and so ends before it has more of them
than there are (`Founded.descend`). The count is the length of the list of nodes in order then, and the
walk ends because its stack is empty: it visits a node, and then what is below its children
(`Founded.walk_unfold`).

This is so where every step down lowers a rank (`Descends.founded`). Where, moreover, no node is owned
twice, no node is visited before one that it is below (`pairwise_walk`), so each of them is visited once
(`nodup_walk`).
-/

namespace SchemaLang.Arena

open Relation

variable {a : Arena} {n m root : Nat}

/-- The first node owns the second one. -/
def Child (arena : Arena) (owner node : NodeId) : Prop :=
  node ∈ arena.children owner

/-- The second node is the first one or below it. -/
def Reaches (arena : Arena) (root node : NodeId) : Prop :=
  ReflTransGen arena.Child root node

/-! ## Only nodes below -/

theorem mem_walkOnto {visited : List NodeId} : ∀ {fuel : Nat} {stack : List NodeId},
    n ∈ a.walkOnto visited fuel stack → n ∈ visited ∨ ∃ top ∈ stack, a.Reaches top n := by
  intro fuel
  induction fuel generalizing visited with
  | zero =>
    intro stack h
    exact Or.inl (List.mem_reverse.1 h)
  | succ fuel ih =>
    intro stack h
    cases stack with
    | nil => exact Or.inl (List.mem_reverse.1 h)
    | cons top rest =>
      rcases ih h with hv | ⟨x, hx, hreach⟩
      · rcases List.mem_cons.1 hv with rfl | hv
        · exact Or.inr ⟨n, List.mem_cons_self .., .refl⟩
        · exact Or.inl hv
      · rcases List.mem_append.1 hx with hx | hx
        · exact Or.inr ⟨top, List.mem_cons_self .., .head hx hreach⟩
        · exact Or.inr ⟨x, List.mem_cons_of_mem _ hx, hreach⟩

theorem reaches_of_mem_walk (h : n ∈ a.walk root) : a.Reaches root n := by
  unfold walk at h
  rcases mem_walkOnto h with hv | ⟨top, ht, hreach⟩
  · cases hv
  · rw [List.mem_singleton] at ht
    exact ht ▸ hreach

/-! ## The order of a walk -/

/-- A walk visits what is below a stack in the order of every listing that has each node before the
nodes below its children. -/
theorem walkOnto_eq {inside : NodeId → Prop} {list : NodeId → List NodeId}
    (hdown : ∀ node child, inside node → a.Child node child → inside child)
    (hlist : ∀ node, inside node → list node = node :: (a.children node).flatMap list) :
    ∀ (fuel : Nat) (visited stack : List NodeId), (∀ top ∈ stack, inside top) →
      fuel = (stack.flatMap list).length →
      a.walkOnto visited fuel stack = visited.reverse ++ stack.flatMap list := by
  intro fuel
  induction fuel with
  | zero =>
    intro visited stack _ hf
    rw [List.length_eq_zero_iff.1 hf.symm, List.append_nil]
    rfl
  | succ fuel ih =>
    intro visited stack hs hf
    cases stack with
    | nil =>
      rw [List.flatMap_nil, List.append_nil]
      rfl
    | cons top rest =>
      have htop := hs top (List.mem_cons_self ..)
      have hstack : (top :: rest).flatMap list = top :: (a.children top ++ rest).flatMap list := by
        rw [List.flatMap_cons, hlist top htop, List.flatMap_append, List.cons_append]
      rw [hstack, List.length_cons] at hf
      have hnext := ih (top :: visited) (a.children top ++ rest) ?_ (Nat.succ.inj hf)
      · rw [hstack]
        unfold walkOnto
        rw [hnext, List.reverse_cons, List.append_assoc, List.singleton_append]
      · intro x hx
        rcases List.mem_append.1 hx with hx | hx
        · exact hdown top x htop hx
        · exact hs x (List.mem_cons_of_mem _ hx)

/-- The nodes on the ways down from a node, each way cut off after `depth` nodes. -/
def preorder (arena : Arena) : Nat → NodeId → List NodeId
  | 0, _ => []
  | depth + 1, id => id :: (arena.children id).flatMap (arena.preorder depth)

theorem countWithin_eq (a : Arena) : ∀ (depth : Nat) (id : NodeId),
    a.countWithin depth id = (a.preorder depth id).length
  | 0, _ => rfl
  | depth + 1, id => by
    have hsum : ∀ children : List NodeId,
        children.foldr (fun child count => a.countWithin depth child + count) 1 =
          (children.flatMap (a.preorder depth)).length + 1 := by
      intro children
      induction children with
      | nil => rfl
      | cons child rest ih =>
        rw [List.foldr_cons, ih, countWithin_eq a depth child, List.flatMap_cons,
          List.length_append]
        omega
    unfold countWithin preorder
    rw [hsum, List.length_cons]

/-! ## Ways down that end -/

/-- A number beyond the arena owns nothing. -/
theorem lt_size_of_child (hc : a.Child n m) : n < a.size := by
  refine Nat.lt_of_not_le fun hn => ?_
  unfold Child children at hc
  rw [node_of_size_le hn] at hc
  cases hc

/-- No way down from the node goes on for ever. -/
def Founded (arena : Arena) (id : NodeId) : Prop :=
  ¬ ∃ way : Nat → NodeId, way 0 = id ∧ ∀ i, arena.Child (way i) (way (i + 1))

theorem founded_iff_acc : a.Founded n ↔ Acc (fun child owner => a.Child owner child) n := by
  have hways : ¬ Acc (fun child owner => a.Child owner child) n ↔
      ∃ way : Nat → NodeId, way 0 = n ∧ ∀ i, a.Child (way i) (way (i + 1)) :=
    not_acc_iff_exists_descending_chain
  exact not_iff_comm.1 hways

/-- The nodes below and including `id`, each before those below its children. Ways down are cut off behind
more nodes than the arena has. -/
def order (arena : Arena) (id : NodeId) : List NodeId :=
  arena.preorder (arena.size + 1) id

namespace Founded

theorem child (h : a.Founded n) (hc : a.Child n m) : a.Founded m :=
  founded_iff_acc.2 ((founded_iff_acc.1 h).inv hc)

/-- What holds at a depth whenever it holds at the children, one less deep, holds at any depth that is
larger than the arena. -/
theorem descend {motive : Nat → NodeId → Prop}
    (step : ∀ depth n, a.Founded n → (∀ c ∈ a.children n, motive depth c) → motive (depth + 1) n)
    (h : a.Founded n) {depth : Nat} (hdepth : a.size < depth) : motive depth n := by
  -- the way down so far has the nodes `above`, and comes to a new one with each step
  have hways : ∀ (depth : Nat) (above : Finset NodeId) (n : NodeId), a.Founded n →
      (∀ m ∈ above, m < a.size ∧ TransGen a.Child m n) → a.size + 1 ≤ above.card + depth →
      motive depth n := by
    intro depth
    induction depth with
    | zero =>
      intro above n _ habove hcard
      have hsub : above ⊆ Finset.range a.size := fun m hm => Finset.mem_range.2 (habove m hm).1
      have hle := Finset.card_le_card hsub
      rw [Finset.card_range] at hle
      omega
    | succ depth ih =>
      intro above n hn habove hcard
      have hnew : n ∉ above := fun hmem =>
        not_transGen_of_acc (founded_iff_acc.1 hn) n .refl (habove n hmem).2
      refine step depth n hn fun c hc => ih (insert n above) c (hn.child hc) (fun m hm => ?_) ?_
      · rcases Finset.mem_insert.1 hm with rfl | hm
        · exact ⟨lt_size_of_child hc, .single hc⟩
        · exact ⟨(habove m hm).1, (habove m hm).2.tail hc⟩
      · rw [Finset.card_insert_of_notMem hnew]
        omega
  refine hways depth ∅ n h (fun m hm => absurd hm (Finset.notMem_empty m)) ?_
  rw [Finset.card_empty]
  omega

/-- A node comes before what is below its children. -/
theorem order_eq (h : a.Founded n) : a.order n = n :: (a.children n).flatMap a.order := by
  have hdeeper : a.preorder (a.size + 1 + 1) n = a.preorder (a.size + 1) n :=
    h.descend (motive := fun depth n => a.preorder (depth + 1) n = a.preorder depth n)
      (fun _ n _ ih => congrArg (n :: ·) (List.flatMap_congr ih)) (Nat.lt_succ_self a.size)
  exact hdeeper.symm

/-- The walk visits the nodes in this order. -/
theorem walk_eq (h : a.Founded n) : a.walk n = a.order n := by
  have hcount : a.countWithin (a.size + 1) n = ([n].flatMap a.order).length := by
    rw [countWithin_eq, List.flatMap_singleton, order]
  rw [walk, walkOnto_eq (fun _ _ => child) (fun _ => order_eq) _ [] [n] ?_ hcount,
    List.flatMap_singleton]
  · rfl
  · intro top htop
    rwa [List.mem_singleton.1 htop]

/-- The walk of a node is the node and the walks of its children. -/
theorem walk_unfold (h : a.Founded n) : a.walk n = n :: (a.children n).flatMap a.walk := by
  rw [h.walk_eq, h.order_eq, List.flatMap_congr fun c hc => (h.child hc).walk_eq]

/-- Every node below is visited. -/
theorem mem_walk_of_reaches (h : a.Founded root) (hreach : a.Reaches root n) : n ∈ a.walk root := by
  induction hreach using ReflTransGen.head_induction_on with
  | refl =>
    rw [h.walk_unfold]
    exact List.mem_cons_self
  | head hc _ ih =>
    rw [h.walk_unfold]
    exact List.mem_cons_of_mem _ (List.mem_flatMap.2 ⟨_, hc, ih (h.child hc)⟩)

end Founded

/-! ## Ranks -/

/-- The nodes whose ways down get lower all the time, down to nodes of the arena. -/
structure Descends (arena : Arena) (rank : NodeId → Nat) (inside : NodeId → Prop) : Prop where
  lt_size : ∀ node, inside node → node < arena.size
  down : ∀ node child, inside node → arena.Child node child → inside child ∧ rank child < rank node

/-- No node owns another one twice, and no two nodes own the same one. -/
structure Single (arena : Arena) (inside : NodeId → Prop) : Prop where
  once : ∀ owner, inside owner → (arena.children owner).Nodup
  owner_eq : ∀ owner other node, inside owner → inside other → arena.Child owner node →
    arena.Child other node → owner = other

/-- The number of nodes of lower rank, which bounds the ways down. -/
def height (arena : Arena) (rank : NodeId → Nat) (node : NodeId) : Nat :=
  ((Finset.range arena.size).filter fun other => rank other < rank node).card

variable {rank : NodeId → Nat} {inside : NodeId → Prop}

theorem height_lt_size (rank : NodeId → Nat) (h : n < a.size) : a.height rank n < a.size := by
  have hsub : ((Finset.range a.size).filter fun other => rank other < rank n) ⊂
      Finset.range a.size :=
    Finset.filter_ssubset.2 ⟨n, Finset.mem_range.2 h, Nat.lt_irrefl _⟩
  have hlt := Finset.card_lt_card hsub
  rwa [Finset.card_range] at hlt

theorem height_lt_height (h : m < a.size) (hr : rank m < rank n) :
    a.height rank m < a.height rank n := by
  refine Finset.card_lt_card ⟨fun x hx => ?_, fun hsub => ?_⟩
  · rw [Finset.mem_filter] at hx ⊢
    exact ⟨hx.1, Nat.lt_trans hx.2 hr⟩
  · have hm := hsub (Finset.mem_filter.2 ⟨Finset.mem_range.2 h, hr⟩)
    exact Nat.lt_irrefl _ (Finset.mem_filter.1 hm).2

namespace Descends

/-- Where every step down lowers a rank, every way down ends. -/
theorem founded (h : a.Descends rank inside) (hn : inside n) : a.Founded n := by
  rw [founded_iff_acc]
  induction hrank : rank n using Nat.strong_induction_on generalizing n with
  | _ r ih =>
    refine ⟨n, fun child hchild => ?_⟩
    obtain ⟨hin, hlt⟩ := h.down n child hn hchild
    exact ih (rank child) (hrank ▸ hlt) hin rfl

theorem inside_of_reaches (h : a.Descends rank inside) (hn : inside root)
    (hreach : a.Reaches root n) : inside n := by
  induction hreach with
  | refl => exact hn
  | tail _ hc ih => exact (h.down _ _ ih hc).1

theorem mem_walk_of_reaches (h : a.Descends rank inside) (hn : inside root)
    (hreach : a.Reaches root n) : n ∈ a.walk root :=
  (h.founded hn).mem_walk_of_reaches hreach

/-! ## No node twice -/

theorem reaches_of_mem_preorder : ∀ {depth n : Nat}, m ∈ a.preorder depth n → a.Reaches n m
  | 0, _, h => by cases h
  | depth + 1, n, h => by
    unfold preorder at h
    rcases List.mem_cons.1 h with rfl | h
    · exact .refl
    · obtain ⟨child, hc, hm⟩ := List.mem_flatMap.1 h
      exact .head hc (reaches_of_mem_preorder hm)

theorem rank_le (h : a.Descends rank inside) (hn : inside root) (hreach : a.Reaches root n) :
    rank n ≤ rank root := by
  induction hreach with
  | refl => exact Nat.le_refl _
  | tail hreach hc ih =>
    exact Nat.le_trans (Nat.le_of_lt (h.down _ _ (h.inside_of_reaches hn hreach) hc).2) ih

section

variable (h : a.Descends rank inside) (hs : a.Single inside)

include h hs

/-- Of two nodes above the same node one is above the other. -/
theorem comparable {x y : Nat} (hx : inside x) (hy : inside y) (hxn : a.Reaches x n)
    (hyn : a.Reaches y n) : a.Reaches x y ∨ a.Reaches y x := by
  induction hxn with
  | refl => exact Or.inr hyn
  | @tail m n hxm hmn ih =>
    cases hyn with
    | refl => exact Or.inl (.tail hxm hmn)
    | @tail m' _ hym hmn' =>
      have he := hs.owner_eq m m' n (h.inside_of_reaches hx hxm) (h.inside_of_reaches hy hym) hmn hmn'
      exact ih (he ▸ hym)

/-- What a node owns is not below something else that it owns. -/
theorem not_reaches_sibling {x y : Nat} (hn : inside n) (hx : a.Child n x) (hy : a.Child n y)
    (hne : x ≠ y) : ¬ a.Reaches x y := by
  intro hreach
  obtain ⟨hin, hlt⟩ := h.down n x hn hx
  cases hreach with
  | refl => exact hne rfl
  | @tail m _ hxm hmy =>
    have he := hs.owner_eq n m y hn (h.inside_of_reaches hin hxm) hy hmy
    have hle := h.rank_le hin hxm
    rw [← he] at hle
    omega

/-- No node comes before one that it is below. -/
theorem pairwise_preorder : ∀ (depth n : Nat), inside n →
    (a.preorder depth n).Pairwise fun x y => ¬ a.Reaches y x
  | 0, _, _ => .nil
  | depth + 1, n, hn => by
    unfold preorder
    refine List.pairwise_cons.2 ⟨fun m hmem hreach => ?_,
      List.pairwise_flatMap.2 ⟨fun child hc => ?_, ?_⟩⟩
    · obtain ⟨child, hc, hm⟩ := List.mem_flatMap.1 hmem
      obtain ⟨hin, hlt⟩ := h.down n child hn hc
      have hchild := reaches_of_mem_preorder hm
      have hle := h.rank_le hin hchild
      have hback := h.rank_le (h.inside_of_reaches hin hchild) hreach
      omega
    · exact pairwise_preorder depth child (h.down n child hn hc).1
    · refine (hs.once n hn).imp_of_mem fun {x y} hx hy hne => ?_
      intro m hmx k hky hreach
      rcases h.comparable hs (h.down n x hn hx).1 (h.down n y hn hy).1
        (reaches_of_mem_preorder hmx) ((reaches_of_mem_preorder hky).trans hreach) with hxy | hyx
      · exact h.not_reaches_sibling hs hn hx hy hne hxy
      · exact h.not_reaches_sibling hs hn hy hx hne.symm hyx

theorem pairwise_walk (hn : inside root) : (a.walk root).Pairwise fun x y => ¬ a.Reaches y x := by
  rw [(h.founded hn).walk_eq]
  exact pairwise_preorder h hs _ _ hn

theorem nodup_walk (hn : inside root) : (a.walk root).Nodup := by
  refine (h.pairwise_walk hs hn).imp fun {x y} hnot => ?_
  rintro rfl
  exact hnot .refl

end

end Descends

end SchemaLang.Arena
