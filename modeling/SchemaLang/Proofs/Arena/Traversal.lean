import SchemaLang.Proofs.Arena.Walk

/-!
# The walk is the recursive traversal

The walk with a stack keeps the nodes that it has yet to visit there (`Arena.visitAll`). The recursive traversal
visits a node and then all that is below its children, one child after the other (`Arena.traverse`).
Both are cut off here after the rounds that they are given, and where a way down goes on for ever they are
cut off after any number of them.

Where no way down from a node does (`Arena.Founded`), neither is cut off, and both visit the nodes that the
walk of the arena visits, in the same order (`Founded.traverse_eq`, `Founded.visitAll_eq`).
-/

namespace SchemaLang.Arena

variable {a : Arena} {n : NodeId}

/-! ## Visiting -/

/-- Visits the node at the end of the stack and puts the nodes that it owns there, the first one last,
until the stack is empty. It is cut off where this takes more rounds. -/
def visitAll (arena : Arena) : Nat → List NodeId → List NodeId → Option (List NodeId)
  | 0, _, _ => none
  | rounds + 1, visited, stack =>
    match stack.getLast? with
    | none => some visited
    | some id => arena.visitAll rounds (visited ++ [id]) (stack.dropLast ++ (arena.children id).reverse)

/-- A node, and then what is below its children, one child after the other. It is cut off at a node that
is deeper. -/
def traverse (arena : Arena) : Nat → NodeId → Option (List NodeId)
  | 0, _ => none
  | depth + 1, id => do
    let below ← (arena.children id).mapM (arena.traverse depth)
    pure (id :: below.flatten)

theorem visitAll_nil (rounds : Nat) (visited : List NodeId) :
    a.visitAll (rounds + 1) visited [] = some visited :=
  rfl

theorem visitAll_concat (rounds : Nat) (visited stack : List NodeId) :
    a.visitAll (rounds + 1) visited (stack ++ [n]) =
      a.visitAll rounds (visited ++ [n]) (stack ++ (a.children n).reverse) := by
  rw [visitAll, List.getLast?_concat]
  dsimp only
  rw [List.dropLast_concat]

/-! ## Where no way down goes on for ever -/

/-- The traversals below several nodes that are not cut off. -/
theorem mapM_traverse {depth : Nat} {ids : List NodeId}
    (h : ∀ id ∈ ids, a.traverse depth id = some (a.walk id)) :
    ids.mapM (a.traverse depth) = some (ids.map a.walk) := by
  induction ids with
  | nil => rfl
  | cons id ids ih =>
    rw [List.forall_mem_cons] at h
    rw [List.mapM_cons, h.1, ih h.2]
    rfl

namespace Founded

/-- The traversal is not cut off. -/
theorem traverse_eq (h : a.Founded n) {depth : Nat} (hdepth : a.size < depth) :
    a.traverse depth n = some (a.walk n) :=
  h.descend (motive := fun depth n => a.traverse depth n = some (a.walk n))
    (fun _ n hn ih => by
      rw [traverse, mapM_traverse ih, hn.walk_unfold, List.flatMap_def]
      rfl) hdepth

/-- On top of a stack, a node is visited together with all that is below it, in a round each. -/
theorem visitAll_concat (h : a.Founded n) : ∀ rounds visited stack,
    a.visitAll ((a.walk n).length + rounds) visited (stack ++ [n]) =
      a.visitAll rounds (visited ++ a.walk n) stack := by
  induction founded_iff_acc.1 h with
  | intro n _ ih =>
    -- the children stand on the stack the other way round
    have hbelow : ∀ ids : List NodeId, (∀ c ∈ ids, a.Child n c) → ∀ rounds visited stack,
        a.visitAll ((ids.flatMap a.walk).length + rounds) visited (stack ++ ids.reverse) =
          a.visitAll rounds (visited ++ ids.flatMap a.walk) stack := by
      intro ids
      induction ids with
      | nil => intro _ rounds visited stack; simp
      | cons c ids ihs =>
        intro hids rounds visited stack
        rw [List.forall_mem_cons] at hids
        rw [List.reverse_cons, ← List.append_assoc, List.flatMap_cons, List.length_append,
          Nat.add_assoc, ih c hids.1 (h.child hids.1), ihs hids.2, List.append_assoc]
    intro rounds visited stack
    rw [h.walk_unfold, List.length_cons, Nat.add_right_comm, Arena.visitAll_concat,
      hbelow _ (fun _ => id), List.append_assoc, List.singleton_append]

/-- The walk with a stack is not cut off. -/
theorem visitAll_eq (h : a.Founded n) {rounds : Nat} (hrounds : (a.walk n).length < rounds) :
    a.visitAll rounds [] [n] = some (a.walk n) := by
  obtain ⟨spare, rfl⟩ := Nat.exists_eq_add_of_lt hrounds
  have hvisit := h.visitAll_concat (spare + 1) [] []
  rwa [List.nil_append, List.nil_append, visitAll_nil, ← Nat.add_assoc] at hvisit

end Founded

end SchemaLang.Arena
