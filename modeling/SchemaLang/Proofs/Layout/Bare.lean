import SchemaLang.Proofs.Arena.Nodes

/-!
# Arenas without their layout

What the layout of a source decides of a node is its position and the comments bound to it. A bare
node has neither, and two arenas are alike when they are the same without them. No query of an arena
other than for positions sees the difference (the lemmas `_bare`), and an operation on the bare
arena, with no position given, is the operation on the arena with its result made bare (the lemmas
`bare_`). So alike arenas stay alike.
-/

namespace SchemaLang

/-- The node without its position and its comments. -/
def Node.bare (node : Node) : Node :=
  { node with position := .unknown, comments := [] }

namespace Node

@[simp] theorem kind_bare (x : Node) : x.bare.kind = x.kind := rfl

@[simp] theorem name_bare (x : Node) : x.bare.name = x.name := rfl

@[simp] theorem script_bare (x : Node) : x.bare.script = x.script := rfl

@[simp] theorem attrs_bare (x : Node) : x.bare.attrs = x.attrs := rfl

@[simp] theorem children_bare (x : Node) : x.bare.children = x.children := rfl

end Node

namespace Arena

/-- The arena without positions and comments. -/
def bare (arena : Arena) : Arena :=
  ⟨arena.nodes.map Node.bare⟩

/-- The arenas are equal node by node, but for positions and comments. -/
def Alike (a b : Arena) : Prop :=
  a.bare = b.bare

variable {a b : Arena}

/-! ## Queries -/

section

variable (a : Arena) (n : NodeId)

@[simp] theorem size_bare : a.bare.size = a.size :=
  Array.size_map ..

@[simp] theorem node_bare : a.bare.node n = (a.node n).bare := by
  rcases Nat.lt_or_ge n a.size with h | h
  · have h' : n < a.bare.nodes.size := by
      rw [← size, size_bare]
      exact h
    rw [node_eq_getElem h', node_eq_getElem h]
    exact Array.getElem_map ..
  · rw [node_of_size_le h, node_of_size_le (by rwa [size_bare])]
    rfl

@[simp] theorem bare_bare : a.bare.bare = a.bare :=
  ext_node (by simp) fun _ _ => by simp only [node_bare]; rfl

@[simp] theorem kind_bare : a.bare.kind n = a.kind n := by
  simp [kind]

@[simp] theorem name_bare : a.bare.name n = a.name n := by
  simp [name]

@[simp] theorem children_bare : a.bare.children n = a.children n := by
  simp [children]

@[simp] theorem package?_bare : a.bare.package? n = a.package? n := by
  simp [package?]

@[simp] theorem script?_bare : a.bare.script? n = a.script? n := by
  simp [script?]

@[simp] theorem packageRef?_bare : a.bare.packageRef? n = a.packageRef? n := by
  simp [packageRef?]

@[simp] theorem reference?_bare : a.bare.reference? n = a.reference? n := by
  simp [reference?]

@[simp] theorem enum?_bare : a.bare.enum? n = a.enum? n := by
  simp [enum?]

@[simp] theorem enumValue?_bare : a.bare.enumValue? n = a.enumValue? n := by
  simp [enumValue?]

@[simp] theorem table?_bare : a.bare.table? n = a.table? n := by
  simp [table?]

@[simp] theorem field?_bare : a.bare.field? n = a.field? n := by
  simp [field?]

@[simp] theorem contract?_bare : a.bare.contract? n = a.contract? n := by
  simp [contract?]

@[simp] theorem method?_bare : a.bare.method? n = a.method? n := by
  simp [method?]

@[simp] theorem attr?_bare : a.bare.attr? n = a.attr? n := by
  simp [attr?]

@[simp] theorem namedArgs?_bare : a.bare.namedArgs? n = a.namedArgs? n := by
  simp [namedArgs?]

@[simp] theorem fieldsOf_bare : a.bare.fieldsOf n = a.fieldsOf n := by
  simp [fieldsOf]

@[simp] theorem basesOf_bare : a.bare.basesOf n = a.basesOf n := by
  simp [basesOf]

@[simp] theorem methodCount_bare : a.bare.methodCount n = a.methodCount n := by
  simp [methodCount]

@[simp] theorem findMethod?_bare (name : String) :
    a.bare.findMethod? n name = a.findMethod? n name := by
  simp [findMethod?]

@[simp] theorem scriptOf_bare : a.bare.scriptOf n = a.scriptOf n := by
  simp [scriptOf]

@[simp] theorem packageOf_bare : a.bare.packageOf n = a.packageOf n := by
  have hwithin : ∀ fuel n, a.bare.packageWithin fuel n = a.packageWithin fuel n := by
    intro fuel
    induction fuel with
    | zero => exact fun _ => rfl
    | succ fuel ih =>
      intro n
      simp only [packageWithin, kind_bare, node_bare, Node.script_bare, funext ih]
  rw [packageOf, packageOf, size_bare, hwithin]

end

theorem walk_bare (a : Arena) (n : NodeId) : a.bare.walk n = a.walk n := by
  have hcount : ∀ depth n, a.bare.countWithin depth n = a.countWithin depth n := by
    intro depth
    induction depth with
    | zero => exact fun _ => rfl
    | succ depth ih =>
      intro n
      simp only [countWithin, children_bare, ih]
  have hwalk : ∀ fuel visited stack,
      a.bare.walkOnto visited fuel stack = a.walkOnto visited fuel stack := by
    intro fuel
    induction fuel with
    | zero => exact fun _ _ => rfl
    | succ fuel ih =>
      intro visited stack
      cases stack with
      | nil => rfl
      | cons n stack => simp only [walkOnto, children_bare, ih]
  rw [walk, walk, hwalk, size_bare, hcount]

/-! ## Operations -/

/-- The result of an operation with the arena made bare. -/
def bareResult {α : Type} (result : α × Arena) : α × Arena :=
  (result.1, result.2.bare)

section

variable (a : Arena) (n m : NodeId) (name : String) (position : Position)

theorem bare_push (x : Node) : bareResult (a.push x) = a.bare.push x.bare := by
  obtain ⟨xs⟩ := a
  simp [bareResult, push, bare]

theorem bare_alloc (script : Option NodeId) (kind : NodeKind) :
    bareResult (a.alloc name script position kind) = a.bare.alloc name script .unknown kind :=
  bare_push a _

@[simp] theorem bare_alloc_snd (script : Option NodeId) (kind : NodeKind) :
    (a.alloc name script position kind).2.bare = (a.bare.alloc name script .unknown kind).2 :=
  congrArg Prod.snd (bare_alloc ..)

theorem bare_update {f : Node → Node} (h : ∀ x, (f x).bare = f x.bare) :
    (a.update n f).bare = a.bare.update n f := by
  refine ext_node (by simp) fun m _ => ?_
  rw [node_bare, node_update, node_update, node_bare, size_bare]
  split
  · exact h _
  · rfl

@[simp] theorem bare_updateKind (f : NodeKind → NodeKind) :
    (a.updateKind n f).bare = a.bare.updateKind n f :=
  bare_update a n fun _ => rfl

@[simp] theorem bare_adopt : (a.adopt n m).bare = a.bare.adopt n m :=
  bare_update a m fun _ => rfl

@[simp] theorem bare_bindComments (comments : List Comment) :
    (a.bindComments n comments).bare = a.bare := by
  refine ext_node (by simp [bindComments]) fun m _ => ?_
  rw [node_bare, node_bare, bindComments, node_update]
  split <;> rfl

@[simp] theorem bare_addAttr : (a.addAttr n m).bare = a.bare.addAttr n m := by
  unfold addAttr
  dsimp only
  rw [bare_adopt, bare_update]
  exact fun _ => rfl

@[simp] theorem bare_insertMethod : (a.insertMethod n name m).bare = a.bare.insertMethod n name m :=
  bare_updateKind ..

end

/-! ### Results -/

section

variable (a : Arena) (n m : NodeId) (name : String) (position : Position)

theorem bare_newPackage : bareResult (a.newPackage name) = a.bare.newPackage name :=
  bare_alloc ..

theorem bare_newScript (path : Option Path) :
    bareResult (a.newScript n name path) = bareResult (a.bare.newScript n name path) := by
  simp only [newScript, package?_bare]
  split <;> simp [bareResult]

theorem bare_declareType : bareResult (a.declareType n m) = a.bare.declareType n m := by
  simp only [declareType, packageOf_bare, package?_bare, name_bare]
  split
  · rfl
  · split <;> simp [bareResult]

theorem bare_newPackageRef :
    bareResult (a.newPackageRef n name m position) = a.bare.newPackageRef n name m .unknown := by
  simp only [newPackageRef, script?_bare]
  split <;> simp [bareResult]

theorem bare_newEnumValue (value : Int64) :
    bareResult (a.newEnumValue n name value position) =
      a.bare.newEnumValue n name value .unknown := by
  simp only [newEnumValue, enum?_bare, node_bare, Node.script_bare]
  split <;> simp [bareResult]

theorem bare_newField :
    bareResult (a.newField n name m position) = a.bare.newField n name m .unknown := by
  simp only [newField, fieldsOf_bare, name_bare, node_bare, Node.script_bare]
  split <;> simp [bareResult]

theorem bare_addBase : bareResult (a.addBase n m) = a.bare.addBase n m := by
  simp only [addBase, basesOf_bare, name_bare]
  split <;> simp [bareResult]

theorem bare_newMethod :
    bareResult (a.newMethod n name position) = a.bare.newMethod n name .unknown := by
  simp only [newMethod, contract?_bare, findMethod?_bare, methodCount_bare, node_bare,
    Node.script_bare]
  split
  · rfl
  · split <;> simp [bareResult]

theorem bare_newSlot (place : UInt16) :
    bareResult (a.newSlot n place m position) = a.bare.newSlot n place m .unknown := by
  simp [bareResult, newSlot]

theorem bare_newParam : bareResult (a.newParam n m position) = a.bare.newParam n m .unknown := by
  have hslot := fun place => bare_newSlot a n m position place
  simp only [bareResult] at hslot
  simp [bareResult, newParam, ← hslot]

theorem bare_newResult :
    bareResult (a.newResult n m position) = a.bare.newResult n m .unknown := by
  have hslot := fun place => bare_newSlot a n m position place
  simp only [bareResult] at hslot
  simp [bareResult, newResult, ← hslot]

theorem bare_newAttr : bareResult (a.newAttr n m position) = a.bare.newAttr n m .unknown := by
  simp [bareResult, newAttr]

theorem bare_setAttrArgs : (a.setAttrArgs n m).bare = a.bare.setAttrArgs n m := by
  simp [setAttrArgs]

theorem bare_pushArg : (a.pushArg n m).bare = a.bare.pushArg n m := by
  simp [pushArg]

theorem bare_insertNamedArg :
    bareResult (a.insertNamedArg n name m) = a.bare.insertNamedArg n name m := by
  simp only [insertNamedArg, namedArgs?_bare]
  split <;> simp [bareResult]

theorem bare_newArray (length : UInt16) :
    bareResult (a.newArray n length m position) = a.bare.newArray n length m .unknown := by
  simp [bareResult, newArray]

theorem bare_newList : bareResult (a.newList n m position) = a.bare.newList n m .unknown := by
  simp [bareResult, newList]

theorem bare_newMap (value : NodeId) :
    bareResult (a.newMap n m value position) = a.bare.newMap n m value .unknown := by
  simp [bareResult, newMap]

theorem bare_newUnion (right : NodeId) :
    bareResult (a.newUnion n m right position) = a.bare.newUnion n m right .unknown := by
  simp [bareResult, newUnion]

end

end Arena

end SchemaLang
