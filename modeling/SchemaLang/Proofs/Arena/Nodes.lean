import SchemaLang.Arena.Build

/-!
# What one operation does to one node

Every operation that builds a tree is made of two: adding a node at the end, and changing a node in
place. This module says for both what each number reads as afterwards, so that later proofs look at
an arena only through `Arena.size` and `Arena.node`.

* `node_push`, `node_update`: the node of every number after one operation.
* `Arena.ext_node`: two arenas of one size with the same nodes are equal.
* `Arena.Extends`: an arena that keeps every node of another one.
-/

namespace SchemaLang

variable {a b c : Arena} {n m : Nat}

namespace Node

@[simp] theorem mapKind_kind (f : NodeKind → NodeKind) (x : Node) :
    (x.mapKind f).kind = f x.kind := rfl

@[simp] theorem mapKind_name (f : NodeKind → NodeKind) (x : Node) :
    (x.mapKind f).name = x.name := rfl

@[simp] theorem mapKind_parent (f : NodeKind → NodeKind) (x : Node) :
    (x.mapKind f).parent = x.parent := rfl

@[simp] theorem mapKind_script (f : NodeKind → NodeKind) (x : Node) :
    (x.mapKind f).script = x.script := rfl

@[simp] theorem mapKind_attrs (f : NodeKind → NodeKind) (x : Node) :
    (x.mapKind f).attrs = x.attrs := rfl

@[simp] theorem mapKind_comments (f : NodeKind → NodeKind) (x : Node) :
    (x.mapKind f).comments = x.comments := rfl

theorem mapKind_eq (f : NodeKind → NodeKind) (x : Node) :
    x.mapKind f = { x with kind := f x.kind } := rfl

end Node

namespace Arena

/-! ## Reading -/

theorem node_of_size_le (h : a.size ≤ n) : a.node n = default := by
  unfold node size at *
  have h' : ¬ n < a.nodes.size := by omega
  simp [Array.getD, h']

theorem kind_of_size_le (h : a.size ≤ n) : a.kind n = .bool false := by
  unfold kind
  rw [node_of_size_le h]
  rfl

theorem node_eq_getElem (h : n < a.nodes.size) : a.node n = a.nodes[n] := by
  unfold node
  simp [Array.getD, h]

/-- A number beyond the arena has no script. -/
theorem lt_size_of_script {s : Nat} (h : (a.node n).script = some s) : n < a.size := by
  rcases Nat.lt_or_ge n a.size with hn | hn
  · exact hn
  · rw [node_of_size_le hn] at h
    cases h

theorem ext_node (hs : a.size = b.size) (hn : ∀ n, n < a.size → a.node n = b.node n) : a = b := by
  obtain ⟨xs⟩ := a
  obtain ⟨ys⟩ := b
  have hsize : xs.size = ys.size := hs
  congr 1
  refine Array.ext hsize fun i hi hj => ?_
  have h := hn i hi
  rwa [node_eq_getElem (a := ⟨xs⟩) hi, node_eq_getElem (a := ⟨ys⟩) hj] at h

/-! ## Nodes of one kind -/

theorem package?_eq_some {decl : Package} :
    a.package? n = some decl ↔ a.kind n = .package decl := by
  unfold package?
  split <;> simp_all

theorem script?_eq_some {decl : Script} : a.script? n = some decl ↔ a.kind n = .script decl := by
  unfold script?
  split <;> simp_all

theorem packageRef?_eq_some {package : NodeId} :
    a.packageRef? n = some package ↔ a.kind n = .packageRef package := by
  unfold packageRef?
  split <;> simp_all

theorem reference?_eq_some {reference : Reference} :
    a.reference? n = some reference ↔ a.kind n = .typeRef reference := by
  unfold reference?
  split <;> simp_all

theorem enum?_eq_some {decl : Enumeration} : a.enum? n = some decl ↔ a.kind n = .enum decl := by
  unfold enum?
  split <;> simp_all

theorem contract?_eq_some {decl : Contract} :
    a.contract? n = some decl ↔ a.kind n = .contract decl := by
  unfold contract?
  split <;> simp_all

theorem method?_eq_some {decl : Method} : a.method? n = some decl ↔ a.kind n = .method decl := by
  unfold method?
  split <;> simp_all

theorem table?_eq_some {decl : Table} : a.table? n = some decl ↔ a.kind n = .table decl := by
  unfold table?
  split <;> simp_all

theorem field?_eq_some {decl : Member} : a.field? n = some decl ↔ a.kind n = .field decl := by
  unfold field?
  split <;> simp_all

theorem enumValue?_eq_some {value : Int64} :
    a.enumValue? n = some value ↔ a.kind n = .enumValue value := by
  unfold enumValue?
  split <;> simp_all

theorem attr?_eq_some {decl : Attribute} : a.attr? n = some decl ↔ a.kind n = .attr decl := by
  unfold attr?
  split <;> simp_all

theorem namedArgs?_eq_some {items : Registry} :
    a.namedArgs? n = some items ↔ a.kind n = .namedArgs items := by
  unfold namedArgs?
  split <;> simp_all

/-! ## Adding a node -/

@[simp] theorem fst_push (a : Arena) (x : Node) : (a.push x).1 = a.size := rfl

@[simp] theorem size_push (a : Arena) (x : Node) : (a.push x).2.size = a.size + 1 :=
  Array.size_push x

theorem node_push (a : Arena) (x : Node) (n : Nat) :
    (a.push x).2.node n = if n = a.size then x else a.node n := by
  obtain ⟨xs⟩ := a
  unfold push node size
  by_cases h : n = xs.size
  · subst h
    simp [Array.getD]
  · rw [if_neg h]
    by_cases hl : n < xs.size
    · have hl' : n < xs.size + 1 := by omega
      simp [Array.getD, hl, hl', Array.getElem_push]
    · have hl' : ¬ n < xs.size + 1 := by omega
      simp [Array.getD, hl, hl']

@[simp] theorem fst_alloc (a : Arena) (name : String) (script : Option NodeId)
    (position : Position) (kind : NodeKind) :
    (a.alloc name script position kind).1 = a.size := rfl

@[simp] theorem size_alloc (a : Arena) (name : String) (script : Option NodeId)
    (position : Position) (kind : NodeKind) :
    (a.alloc name script position kind).2.size = a.size + 1 :=
  size_push a _

theorem node_alloc (a : Arena) (name : String) (script : Option NodeId)
    (position : Position) (kind : NodeKind) (n : Nat) :
    (a.alloc name script position kind).2.node n =
      if n = a.size then .detached name script position kind else a.node n :=
  node_push a _ n

theorem kind_alloc_self (a : Arena) (name : String) (script : Option NodeId) (position : Position)
    (kind : NodeKind) : (a.alloc name script position kind).2.kind a.size = kind := by
  simp [Arena.kind, node_alloc, Node.detached]

theorem name_alloc_self (a : Arena) (name : String) (script : Option NodeId) (position : Position)
    (kind : NodeKind) : (a.alloc name script position kind).2.name a.size = name := by
  simp [Arena.name, node_alloc, Node.detached]

theorem kind_alloc_of_lt {name : String} {script : Option NodeId} {position : Position}
    {kind : NodeKind} (h : n < a.size) :
    (a.alloc name script position kind).2.kind n = a.kind n := by
  unfold Arena.kind
  rw [node_alloc, if_neg (Nat.ne_of_lt h)]

theorem name_alloc_of_lt {name : String} {script : Option NodeId} {position : Position}
    {kind : NodeKind} (h : n < a.size) :
    (a.alloc name script position kind).2.name n = a.name n := by
  unfold Arena.name
  rw [node_alloc, if_neg (Nat.ne_of_lt h)]

/-! ## Changing a node -/

@[simp] theorem size_update (a : Arena) (m : Nat) (f : Node → Node) :
    (a.update m f).size = a.size :=
  Array.size_modify

theorem node_update (a : Arena) (m : Nat) (f : Node → Node) (n : Nat) :
    (a.update m f).node n = if n = m ∧ n < a.size then f (a.node n) else a.node n := by
  obtain ⟨xs⟩ := a
  unfold update node size
  by_cases hl : n < xs.size
  · by_cases h : n = m
    · subst h
      simp [Array.getD, hl, Array.getElem_modify]
    · have h' : ¬ m = n := fun e => h e.symm
      simp [Array.getD, hl, Array.getElem_modify, h, h']
  · simp [Array.getD, hl]

theorem node_update_self (h : n < a.size) (f : Node → Node) :
    (a.update n f).node n = f (a.node n) := by
  rw [node_update, if_pos ⟨rfl, h⟩]

theorem node_update_ne (h : n ≠ m) (f : Node → Node) : (a.update m f).node n = a.node n := by
  rw [node_update, if_neg fun e => h e.1]

@[simp] theorem size_updateKind (a : Arena) (m : Nat) (f : NodeKind → NodeKind) :
    (a.updateKind m f).size = a.size :=
  size_update a m _

theorem node_updateKind (a : Arena) (m : Nat) (f : NodeKind → NodeKind) (n : Nat) :
    (a.updateKind m f).node n =
      if n = m ∧ n < a.size then (a.node n).mapKind f else a.node n :=
  node_update a m _ n

theorem kind_updateKind (a : Arena) (m : Nat) (f : NodeKind → NodeKind) (n : Nat) :
    (a.updateKind m f).kind n = if n = m ∧ n < a.size then f (a.kind n) else a.kind n := by
  unfold kind
  rw [node_updateKind]
  split <;> rfl

theorem name_updateKind (a : Arena) (m : Nat) (f : NodeKind → NodeKind) (n : Nat) :
    (a.updateKind m f).name n = a.name n := by
  unfold name
  rw [node_updateKind]
  split <;> rfl

@[simp] theorem size_adopt (a : Arena) (parent child : Nat) :
    (a.adopt parent child).size = a.size :=
  size_update a child _

theorem node_adopt (a : Arena) (parent child n : Nat) :
    (a.adopt parent child).node n =
      if n = child ∧ n < a.size then (a.node n).withParent parent else a.node n :=
  node_update a child _ n

theorem kind_adopt (a : Arena) (m n x : Nat) : (a.adopt m n).kind x = a.kind x := by
  unfold kind
  rw [node_adopt]
  split <;> rfl

theorem name_adopt (a : Arena) (m n x : Nat) : (a.adopt m n).name x = a.name x := by
  unfold name
  rw [node_adopt]
  split <;> rfl

theorem size_truncate (a : Arena) (count : Nat) :
    (a.truncate count).size = min count a.size := by
  unfold truncate size
  simp

theorem node_truncate (h : n < m) : (a.truncate m).node n = a.node n := by
  obtain ⟨xs⟩ := a
  unfold truncate node
  by_cases hl : n < xs.size
  · have hm : n < min m xs.size := by omega
    simp [Array.getD, hl, hm]
  · have hm : ¬ n < min m xs.size := by omega
    simp [Array.getD, hl, hm]

/-! ## Keeping every node -/

/-- Every node of the first arena is in the second one, unchanged. -/
structure Extends (a b : Arena) : Prop where
  size_le : a.size ≤ b.size
  node_eq : ∀ n, n < a.size → b.node n = a.node n

namespace Extends

theorem refl (a : Arena) : a.Extends a := ⟨Nat.le_refl _, fun _ _ => rfl⟩

theorem trans (h : a.Extends b) (h' : b.Extends c) : a.Extends c where
  size_le := Nat.le_trans h.size_le h'.size_le
  node_eq n hn := by rw [h'.node_eq n (Nat.lt_of_lt_of_le hn h.size_le), h.node_eq n hn]

theorem push (a : Arena) (x : Node) : a.Extends (a.push x).2 where
  size_le := by simp
  node_eq n hn := by rw [node_push, if_neg (by omega)]

/-- Dropping the nodes that were added gives the arena back. -/
theorem truncate_eq (h : a.Extends b) : b.truncate a.size = a := by
  have hs : (b.truncate a.size).size = a.size := by
    rw [size_truncate, Nat.min_eq_left h.size_le]
  refine ext_node hs fun n hn => ?_
  rw [hs] at hn
  rw [node_truncate hn, h.node_eq n hn]

end Extends

end Arena

end SchemaLang
