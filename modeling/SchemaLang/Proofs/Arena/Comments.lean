import Mathlib.Data.List.Nodup
import SchemaLang.Arena.Build
import SchemaLang.Proofs.Arena.Growth

/-!
# The comments of a script

Where the comments of a script are: on the script and on the nodes that were read from it
(`Arena.bound`). Building nodes binds none of them (`Arena.Adds`, `Arena.bound_of_adds`); binding
comments to a node adds these and no others (`Arena.bound_bindComments_perm`).
-/

namespace SchemaLang.Arena

variable {a b c : Arena} {s m n : Nat}

/-! ## Building -/

/-- Older nodes stay in their place and keep their comments, and new nodes of the script have none. -/
structure Adds (script : NodeId) (a b : Arena) : Prop where
  size_le : a.size ≤ b.size
  script_eq : ∀ n : Nat, n < a.size → (b.node n).script = (a.node n).script
  position_eq : ∀ n : Nat, n < a.size → b.position n = a.position n
  comments_eq : ∀ n : Nat, n < a.size → (b.node n).comments = (a.node n).comments
  bare : ∀ n : Nat, a.size ≤ n → b.Own script n → (b.node n).comments = []

namespace Adds

theorem refl (s : NodeId) (a : Arena) : a.Adds s a where
  size_le := Nat.le_refl _
  script_eq _ _ := rfl
  position_eq _ _ := rfl
  comments_eq _ _ := rfl
  bare _ hn ho := absurd ho.lt_size (Nat.not_lt.2 hn)

theorem trans (h : a.Adds s b) (h' : b.Adds s c) : a.Adds s c where
  size_le := Nat.le_trans h.size_le h'.size_le
  script_eq n hn := (h'.script_eq n (Nat.lt_of_lt_of_le hn h.size_le)).trans (h.script_eq n hn)
  position_eq n hn := (h'.position_eq n (Nat.lt_of_lt_of_le hn h.size_le)).trans (h.position_eq n hn)
  comments_eq n hn := (h'.comments_eq n (Nat.lt_of_lt_of_le hn h.size_le)).trans (h.comments_eq n hn)
  bare n hn ho := by
    rcases Nat.lt_or_ge n b.size with hlt | hge
    · rw [h'.comments_eq n hlt]
      exact h.bare n hn ((h'.script_eq n hlt).symm.trans ho)
    · exact h'.bare n hge ho

theorem alloc (s : NodeId) (a : Arena) (name : String) (script : Option NodeId)
    (position : Position) (kind : NodeKind) :
    a.Adds s (a.alloc name script position kind).2 where
  size_le := by simp
  script_eq n hn := by rw [node_alloc, if_neg (Nat.ne_of_lt hn)]
  position_eq n hn := by rw [Arena.position, node_alloc, if_neg (Nat.ne_of_lt hn), Arena.position]
  comments_eq n hn := by rw [node_alloc, if_neg (Nat.ne_of_lt hn)]
  bare n hn ho := by
    have hlt := ho.lt_size
    rw [size_alloc] at hlt
    rw [node_alloc, if_pos (by omega)]
    rfl

/-- A change that leaves a node its place and its comments. -/
theorem update {f : Node → Node} (s : NodeId) (a : Arena) (m : Nat)
    (hs : ∀ x, (f x).script = x.script) (hp : ∀ x, (f x).position = x.position)
    (hc : ∀ x, (f x).comments = x.comments) : a.Adds s (a.update m f) where
  size_le := by simp
  script_eq n _ := by
    rw [node_update]
    split
    · exact hs _
    · rfl
  position_eq n _ := by
    simp only [Arena.position, node_update]
    split
    · exact hp _
    · rfl
  comments_eq n _ := by
    rw [node_update]
    split
    · exact hc _
    · rfl
  bare n hn ho := by
    have hlt := ho.lt_size
    rw [size_update] at hlt
    exact absurd hlt (Nat.not_lt.2 hn)

theorem adopt (s : NodeId) (a : Arena) (parent child : NodeId) : a.Adds s (a.adopt parent child) :=
  update s a child (fun _ => rfl) (fun _ => rfl) fun _ => rfl

theorem updateKind (s : NodeId) (a : Arena) (m : Nat) (f : NodeKind → NodeKind) :
    a.Adds s (a.updateKind m f) :=
  update s a m (fun _ => rfl) (fun _ => rfl) fun _ => rfl

theorem addAttr (s : NodeId) (a : Arena) (node attr : NodeId) : a.Adds s (a.addAttr node attr) :=
  (update (f := fun carrier => { carrier with
    attrs := if carrier.attrs.contains attr then carrier.attrs else carrier.attrs.push attr })
    s a node (fun _ => rfl) (fun _ => rfl) fun _ => rfl).trans (adopt ..)

theorem addAttrs (s node : NodeId) : ∀ (attrs : List NodeId) (a : Arena),
    a.Adds s (attrs.foldl (fun arena attr => arena.addAttr node attr) a)
  | [], a => refl s a
  | attr :: rest, a => (addAttr s a node attr).trans (addAttrs s node rest _)

end Adds

section

variable (s : NodeId) (a : Arena)

theorem adds_declareType (script type : NodeId) : a.Adds s (a.declareType script type).2 := by
  unfold declareType
  split
  · exact .refl ..
  · dsimp only
    split
    · exact .refl ..
    · exact ((Adds.updateKind ..).trans (.updateKind ..)).trans (.adopt ..)

theorem adds_newPackageRef (script : NodeId) (name : String) (package : NodeId)
    (position : Position) : a.Adds s (a.newPackageRef script name package position).2 := by
  unfold newPackageRef
  split
  · exact .refl ..
  · exact ((Adds.alloc ..).trans (.adopt ..)).trans (.updateKind ..)

theorem adds_newEnumValue (enum : NodeId) (name : String) (value : Int64) (position : Position) :
    a.Adds s (a.newEnumValue enum name value position).2 := by
  unfold newEnumValue
  split
  · exact .refl ..
  · exact ((Adds.alloc ..).trans (.adopt ..)).trans (.updateKind ..)

theorem adds_newField (table : NodeId) (name : String) (type : NodeId) (position : Position) :
    a.Adds s (a.newField table name type position).2 := by
  unfold newField
  split
  · exact .refl ..
  · exact (((Adds.alloc ..).trans (.adopt ..)).trans (.adopt ..)).trans (.updateKind ..)

theorem adds_addBase (contract base : NodeId) : a.Adds s (a.addBase contract base).2 := by
  unfold addBase
  split
  · exact .refl ..
  · exact (Adds.adopt ..).trans (.updateKind ..)

theorem adds_newMethod (contract : NodeId) (name : String) (position : Position) :
    a.Adds s (a.newMethod contract name position).2 := by
  unfold newMethod
  split
  · exact .refl ..
  · split
    · exact .refl ..
    · exact ((Adds.alloc ..).trans (.adopt ..)).trans (.updateKind ..)

theorem adds_newSlot (method : NodeId) (place : UInt16) (type : NodeId) (position : Position) :
    a.Adds s (a.newSlot method place type position).2 :=
  ((Adds.alloc ..).trans (.adopt ..)).trans (.adopt ..)

theorem adds_newParam (method type : NodeId) (position : Position) :
    a.Adds s (a.newParam method type position).2 :=
  (adds_newSlot ..).trans (.updateKind ..)

theorem adds_newResult (method type : NodeId) (position : Position) :
    a.Adds s (a.newResult method type position).2 :=
  (adds_newSlot ..).trans (.updateKind ..)

theorem adds_newAttr (script type : NodeId) (position : Position) :
    a.Adds s (a.newAttr script type position).2 :=
  (Adds.alloc ..).trans (.adopt ..)

theorem adds_setAttrArgs (attr args : NodeId) : a.Adds s (a.setAttrArgs attr args) :=
  (Adds.adopt ..).trans (.updateKind ..)

theorem adds_pushArg (args item : NodeId) : a.Adds s (a.pushArg args item) :=
  (Adds.adopt ..).trans (.updateKind ..)

theorem adds_insertNamedArg (args : NodeId) (name : String) (item : NodeId) :
    a.Adds s (a.insertNamedArg args name item).2 := by
  unfold insertNamedArg
  split
  · exact .refl ..
  · exact (Adds.adopt ..).trans (.updateKind ..)

theorem adds_newArray (script : NodeId) (length : UInt16) (element : NodeId) (position : Position) :
    a.Adds s (a.newArray script length element position).2 :=
  (Adds.alloc ..).trans (.adopt ..)

theorem adds_newList (script element : NodeId) (position : Position) :
    a.Adds s (a.newList script element position).2 :=
  (Adds.alloc ..).trans (.adopt ..)

theorem adds_newMap (script key value : NodeId) (position : Position) :
    a.Adds s (a.newMap script key value position).2 :=
  ((Adds.alloc ..).trans (.adopt ..)).trans (.adopt ..)

theorem adds_newUnion (script left right : NodeId) (position : Position) :
    a.Adds s (a.newUnion script left right position).2 :=
  ((Adds.alloc ..).trans (.adopt ..)).trans (.adopt ..)

end

/-! ## Bound comments -/

/-- The comments of a node, if it is the script or was read from it. -/
def commentsIn (a : Arena) (script n : NodeId) : List Comment :=
  if n = script ∨ (a.node n).script = some script then (a.node n).comments else []

/-- The comments that are bound to a script and the nodes that were read from it. -/
def bound (a : Arena) (script : NodeId) : List Comment :=
  (List.range a.size).flatMap (a.commentsIn script)

theorem bound_of_adds (h : a.Adds s b) (hs : s < a.size) : b.bound s = a.bound s := by
  obtain ⟨count, hcount⟩ := Nat.exists_eq_add_of_le h.size_le
  have hold : ∀ n ∈ List.range a.size, b.commentsIn s n = a.commentsIn s n := by
    intro n hn
    have hlt := List.mem_range.1 hn
    unfold commentsIn
    rw [h.script_eq n hlt, h.comments_eq n hlt]
  have hnew : ∀ n ∈ (List.range count).map (a.size + ·), b.commentsIn s n = [] := by
    intro n hn
    obtain ⟨offset, -, rfl⟩ := List.mem_map.1 hn
    unfold commentsIn
    split
    · rename_i howner
      have hne : a.size + offset ≠ s := by omega
      exact h.bare _ (Nat.le_add_right ..) (howner.resolve_left hne)
    · rfl
  unfold bound
  rw [hcount, List.range_add, List.flatMap_append, List.flatMap_congr hold,
    List.flatMap_eq_nil_iff.2 hnew, List.append_nil]

/-- Where one of several lists grows, so does the whole. -/
theorem flatMap_append_perm {α β : Type} {f g : α → List β} {more : List β} {x : α} :
    ∀ {xs : List α}, xs.Nodup → x ∈ xs → g x = f x ++ more → (∀ y ∈ xs, y ≠ x → g y = f y) →
      (xs.flatMap g).Perm (xs.flatMap f ++ more) := by
  intro xs hnodup hx hgx hg
  obtain ⟨front, back, rfl⟩ := List.append_of_mem hx
  rw [List.nodup_middle, List.nodup_cons, List.mem_append, not_or] at hnodup
  have hfront : front.flatMap g = front.flatMap f := List.flatMap_congr fun y hy =>
    hg y (List.mem_append_left _ hy) fun he => hnodup.1.1 (he ▸ hy)
  have hback : back.flatMap g = back.flatMap f := List.flatMap_congr fun y hy =>
    hg y (List.mem_append_right _ (List.mem_cons_of_mem _ hy)) fun he => hnodup.1.2 (he ▸ hy)
  rw [List.flatMap_append, List.flatMap_append, List.flatMap_cons, List.flatMap_cons, hgx, hfront,
    hback, List.append_assoc, List.append_assoc, List.append_assoc]
  exact (List.perm_append_comm.append_left _).append_left _

theorem bound_bindComments_perm (ho : a.Owner s m) (hm : m < a.size) (comments : List Comment) :
    ((a.bindComments m comments).bound s).Perm (a.bound s ++ comments) := by
  unfold bound bindComments
  rw [size_update]
  refine flatMap_append_perm List.nodup_range (List.mem_range.2 hm) ?_ fun n _ hn => ?_
  · unfold commentsIn
    rw [node_update_self hm]
    have howner : m = s ∨ (a.node m).script = some s := ho
    dsimp only
    rw [if_pos howner, if_pos howner]
  · unfold commentsIn
    rw [node_update_ne hn]

end SchemaLang.Arena
