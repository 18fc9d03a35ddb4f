import Mathlib.Logic.Relation
import SchemaLang.Arena.Build
import SchemaLang.Proofs.Arena.Nodes
import SchemaLang.Proofs.Text.Lines

/-!
# What is done to an arena

Reading, linking and compiling build an arena by few kinds of edits (`Arena.Edit`): a node is added, a node
is copied, or one node is changed. An edit says what may be written on a new node, and how the kind of a
node may change; the links between nodes are none of its business. What every edit keeps, any number of them
keeps (`Edits.keep`).

* `Arena.Inscribed`: what is written on a new node.
* `Arena.Revises`: how the kind of a node changes.
* `edits_newEnum`, `edits_copyMethod` and so on: each operation is made of edits.
-/

namespace SchemaLang.Arena

open Text

variable {a b c : Arena} {n m : NodeId}

/-! ## Edits -/

/-- The node is the slot for a place of a list of parameters or results. Places have 16 bits. -/
def IsSlot (a : Arena) (n : NodeId) (place : Nat) : Prop :=
  ∃ type, a.kind n = .param ⟨UInt16.ofNat place, type⟩

/-- Each slot of a list is the one for its place. -/
def Numbered (a : Arena) (slots : Array NodeId) : Prop :=
  ∀ (i : Nat) (h : i < slots.size), a.IsSlot slots[i] i

/-- What is written on a node: names and labels that stand on one line, and the numbers of slots. Packages
and scripts are called what files and users say. -/
def Inscribed (a : Arena) (name : String) : NodeKind → Prop
  | .package _ | .script _ => True
  | .packageRef package => Unbroken name ∧ package < a.size ∧ Unbroken (a.name package)
  | .typeRef reference => Unbroken name ∧ ∀ part ∈ reference.path, Unbroken part
  | .enumValue _ => IsWord name
  | .method decl => Unbroken name ∧ a.Numbered decl.params ∧ a.Numbered decl.results
  | .param decl => name = "arg" ++ toString decl.id.toNat
  | .namedArgs items => Unbroken name ∧ ∀ label ∈ items.names, Unbroken label
  | _ => Unbroken name

/-- How the kind of a node changes. -/
inductive Revises (a : Arena) : NodeKind → NodeKind → Prop
  | same (kind : NodeKind) : Revises a kind kind
  | package (decl decl' : Package) : Revises a (.package decl) (.package decl')
  | script (decl decl' : Script) : Revises a (.script decl) (.script decl')
  | enum (decl decl' : Enumeration) : Revises a (.enum decl) (.enum decl')
  | table (decl decl' : Table) : Revises a (.table decl) (.table decl')
  | contract (decl decl' : Contract) : Revises a (.contract decl) (.contract decl')
  | attr (decl decl' : Attribute) : Revises a (.attr decl) (.attr decl')
  | args (items items' : Array NodeId) : Revises a (.args items) (.args items')
  | label {label : String} (h : Unbroken label) (items : Registry) (item : NodeId) :
    Revises a (.namedArgs items) (.namedArgs (items.insert label item))
  | bind (path : List String) (target target' : Option NodeId) :
    Revises a (.typeRef ⟨path, target⟩) (.typeRef ⟨path, target'⟩)
  | number (number number' : UInt16) (params results : Array NodeId) :
    Revises a (.method ⟨number, params, results⟩) (.method ⟨number', params, results⟩)
  | param {slot : NodeId} {params : Array NodeId} (h : a.IsSlot slot params.size) (number : UInt16)
    (results : Array NodeId) :
    Revises a (.method ⟨number, params, results⟩) (.method ⟨number, params.push slot, results⟩)
  | result {slot : NodeId} {results : Array NodeId} (h : a.IsSlot slot results.size) (number : UInt16)
    (params : Array NodeId) :
    Revises a (.method ⟨number, params, results⟩) (.method ⟨number, params, results.push slot⟩)

theorem numbered_empty (a : Arena) : a.Numbered #[] :=
  fun _ h => absurd h (Nat.not_lt_zero _)

/-- One change of an arena. -/
inductive Edit : Arena → Arena → Prop
  | add (a : Arena) (name : String) (script : Option NodeId) (position : Position) (kind : NodeKind)
    (h : a.Inscribed name kind) : Edit a (a.alloc name script position kind).2
  | copy (a : Arena) (n : NodeId) {node : Node} (called : node.name = a.name n)
    (h : a.Revises (a.kind n) node.kind) : Edit a (a.push node).2
  | change (a : Arena) (n : NodeId) {f : Node → Node} (called : (f (a.node n)).name = a.name n)
    (h : a.Revises (a.kind n) (f (a.node n)).kind) : Edit a (a.update n f)

/-- Any number of changes. -/
def Edits : Arena → Arena → Prop :=
  Relation.ReflTransGen Edit

instance : IsPreorder Arena Edits :=
  inferInstanceAs (IsPreorder Arena (Relation.ReflTransGen Edit))

namespace Edits

theorem refl (a : Arena) : a.Edits a :=
  Relation.ReflTransGen.refl

theorem trans (h : a.Edits b) (h' : b.Edits c) : a.Edits c :=
  Relation.ReflTransGen.trans h h'

/-- What every edit keeps holds after any number of them. -/
theorem keep {I : Arena → Prop} (hI : ∀ a b, Edit a b → I a → I b) (h : a.Edits b) (ha : I a) : I b := by
  induction h with
  | refl => exact ha
  | tail _ hedit ih => exact hI _ _ hedit ih

theorem alloc (name : String) (script : Option NodeId) (position : Position) (kind : NodeKind)
    (h : a.Inscribed name kind) : a.Edits (a.alloc name script position kind).2 :=
  .single (.add a name script position kind h)

/-- Links, comments, attributes and extras do not matter. -/
theorem update (n : NodeId) {f : Node → Node} (hname : ∀ x, (f x).name = x.name)
    (hkind : ∀ x, (f x).kind = x.kind) : a.Edits (a.update n f) :=
  .single (.change a n (hname _) (hkind (a.node n) ▸ .same _))

theorem updateKind {f : NodeKind → NodeKind} (h : ∀ kind, a.kind n = kind → a.Revises kind (f kind)) :
    a.Edits (a.updateKind n f) :=
  .single (.change a n rfl (h _ rfl))

theorem adopt (a : Arena) (parent child : NodeId) : a.Edits (a.adopt parent child) :=
  update child (fun _ => rfl) fun _ => rfl

theorem addAttr (a : Arena) (node attr : NodeId) : a.Edits (a.addAttr node attr) :=
  (update (f := fun carrier => { carrier with
    attrs := if carrier.attrs.contains attr then carrier.attrs else carrier.attrs.push attr })
    node (fun _ => rfl) fun _ => rfl).trans (adopt ..)

theorem addAttrs (node : NodeId) : ∀ (attrs : List NodeId) (a : Arena),
    a.Edits (attrs.foldl (fun arena attr => arena.addAttr node attr) a)
  | [], a => refl a
  | attr :: rest, a => (addAttr a node attr).trans (addAttrs node rest _)

theorem removeAttr (a : Arena) (node attr : NodeId) : a.Edits (a.removeAttr node attr).2 :=
  update node (fun _ => rfl) fun _ => rfl

theorem bindComments (a : Arena) (node : NodeId) (comments : List Comment) :
    a.Edits (a.bindComments node comments) :=
  update node (fun _ => rfl) fun _ => rfl

end Edits

/-! ## Packages and scripts -/

section

variable (a : Arena) {name : String}

theorem edits_newPackage (name : String) : a.Edits (a.newPackage name).2 :=
  .alloc name none .unknown (.package _) trivial

theorem edits_newScript (package : NodeId) (name : String) (path : Option Path) :
    a.Edits (a.newScript package name path).2 := by
  unfold newScript
  split
  · exact .refl a
  · refine ((Edits.alloc name none _ (.script _) trivial).trans (.adopt ..)).trans (.updateKind ?_)
    intro kind _
    split
    · exact .package ..
    · exact .same _

theorem edits_declareType (script type : NodeId) : a.Edits (a.declareType script type).2 := by
  unfold declareType
  split
  · exact .refl a
  · dsimp only
    split
    · exact .refl a
    · refine ((Edits.updateKind ?_).trans (.updateKind ?_)).trans (.adopt ..)
      · intro kind _
        split
        · exact .package ..
        · exact .same _
      · intro kind _
        split
        · exact .script ..
        · exact .same _

theorem edits_newPackageRef {package : NodeId} (script : NodeId) (position : Position)
    (h : Unbroken name) (hlt : package < a.size) (hp : Unbroken (a.name package)) :
    a.Edits (a.newPackageRef script name package position).2 := by
  unfold newPackageRef
  split
  · exact .refl a
  · refine ((Edits.alloc name _ position (.packageRef package) ⟨h, hlt, hp⟩).trans
      (.adopt ..)).trans (.updateKind ?_)
    intro kind _
    split
    · exact .script ..
    · exact .same _

/-! ## References -/

theorem edits_newTypeRef {path : List String} (script : NodeId) (position : Position)
    (h : ∀ part ∈ path, Unbroken part) : a.Edits (a.newTypeRef script path position).2 :=
  .alloc _ _ position (.typeRef ⟨path, none⟩) ⟨unbroken_intercalate (by decide) h, h⟩

theorem edits_resolve (reference target : NodeId) : a.Edits (a.resolve reference target).2 := by
  unfold resolve
  split
  · refine .updateKind ?_
    intro kind _
    split
    · exact .bind ..
    · exact .same _
  · exact .refl a

/-! ## Declarations -/

theorem edits_newEnum (script : NodeId) (base : EnumBase) (position : Position) (h : Unbroken name) :
    a.Edits (a.newEnum script name base position).2 :=
  .alloc name _ position (.enum _) h

theorem edits_newEnumValue (enum : NodeId) (value : Int64) (position : Position) (h : IsWord name) :
    a.Edits (a.newEnumValue enum name value position).2 := by
  unfold newEnumValue
  split
  · exact .refl a
  · refine ((Edits.alloc name _ position (.enumValue value) h).trans
      (.adopt ..)).trans (.updateKind ?_)
    intro kind _
    split
    · exact .enum ..
    · exact .same _

theorem edits_setError (enum : NodeId) (value : Bool) : a.Edits (a.setError enum value) := by
  refine .updateKind ?_
  intro kind _
  split
  · exact .enum ..
  · exact .same _

theorem edits_newTable (script : NodeId) (position : Position) (h : Unbroken name) :
    a.Edits (a.newTable script name position).2 :=
  .alloc name _ position (.table _) h

theorem edits_newField (table type : NodeId) (position : Position) (h : Unbroken name) :
    a.Edits (a.newField table name type position).2 := by
  unfold newField
  split
  · exact .refl a
  · refine (((Edits.alloc name _ position (.field _) h).trans (.adopt ..)).trans
      (.adopt ..)).trans (.updateKind ?_)
    intro kind _
    split
    · exact .table ..
    · exact .same _

theorem edits_setStruct (table : NodeId) (value : Bool) : a.Edits (a.setStruct table value) := by
  refine .updateKind ?_
  intro kind _
  split
  · exact .table ..
  · exact .same _

theorem edits_newContract (script : NodeId) (position : Position) (h : Unbroken name) :
    a.Edits (a.newContract script name position).2 :=
  .alloc name _ position (.contract _) h

theorem edits_addBase (contract base : NodeId) : a.Edits (a.addBase contract base).2 := by
  unfold addBase
  split
  · exact .refl a
  · refine (Edits.adopt ..).trans (.updateKind ?_)
    intro kind _
    split
    · exact .contract ..
    · exact .same _

theorem edits_insertMethod (contract : NodeId) (name : String) (method : NodeId) :
    a.Edits (a.insertMethod contract name method) := by
  refine .updateKind ?_
  intro kind _
  split
  · exact .contract ..
  · exact .same _

theorem edits_setFlattened (contract : NodeId) : a.Edits (a.setFlattened contract) := by
  refine .updateKind ?_
  intro kind _
  split
  · exact .contract ..
  · exact .same _

/-! ## Methods -/

theorem edits_newMethod (contract : NodeId) (position : Position) (h : Unbroken name) :
    a.Edits (a.newMethod contract name position).2 := by
  unfold newMethod
  split
  · exact .refl a
  split
  · exact .refl a
  · exact ((Edits.alloc name _ position (.method _)
      ⟨h, numbered_empty a, numbered_empty a⟩).trans (.adopt ..)).trans (edits_insertMethod ..)

theorem edits_setMethodId (method : NodeId) (number : UInt16) :
    a.Edits (a.setMethodId method number) := by
  refine .updateKind ?_
  intro kind _
  split
  · exact .number ..
  · exact .same _

theorem edits_copyMethod (method contract : NodeId) (number : UInt16) :
    a.Edits (a.copyMethod method contract number).2 := by
  refine Edits.trans ?_ (edits_insertMethod _ contract _ a.size)
  refine .single (.copy a method rfl ?_)
  rw [Node.mapKind_kind]
  show a.Revises (a.kind method) _
  dsimp only
  split
  · rename_i id params results hkind
    rw [show a.kind method = .method ⟨id, params, results⟩ from hkind]
    exact .number ..
  · exact .same _

theorem edits_newSlot (method : NodeId) (place : UInt16) (type : NodeId) (position : Position) :
    a.Edits (a.newSlot method place type position).2 :=
  ((Edits.alloc _ _ position (.param ⟨place, type⟩) rfl).trans (.adopt ..)).trans (.adopt ..)

theorem kind_newSlot (method : NodeId) (place : UInt16) (type : NodeId) (position : Position) (n : Nat) :
    (a.newSlot method place type position).2.kind n =
      if n = a.size then .param ⟨place, type⟩ else a.kind n := by
  unfold newSlot
  dsimp only
  rw [kind_adopt, kind_adopt]
  unfold kind
  rw [node_alloc]
  split <;> rfl

/-- A new slot is the one for its place. -/
theorem isSlot_newSlot (method : NodeId) (place : Nat) (type : NodeId) (position : Position) :
    (a.newSlot method (UInt16.ofNat place) type position).2.IsSlot a.size place :=
  ⟨type, by rw [kind_newSlot, if_pos rfl]⟩

/-- A method that has a new slot below it is as it was before. -/
theorem method?_of_newSlot {method type : NodeId} {place : UInt16} {position : Position}
    {decl : Method} (h : (a.newSlot method place type position).2.kind method = .method decl) :
    a.method? method = some decl := by
  rw [kind_newSlot] at h
  split at h
  · cases h
  · exact method?_eq_some.2 h

/-- The new slot is for the next place of the list it is entered in. -/
theorem edits_newParam (method type : NodeId) (position : Position) :
    a.Edits (a.newParam method type position).2 := by
  unfold newParam
  dsimp only
  refine (edits_newSlot ..).trans (.updateKind fun kind hkind => ?_)
  cases kind <;> try exact .same _
  have hmethod := method?_of_newSlot a hkind
  rw [hmethod]
  exact .param (isSlot_newSlot ..) ..

theorem edits_newResult (method type : NodeId) (position : Position) :
    a.Edits (a.newResult method type position).2 := by
  unfold newResult
  dsimp only
  refine (edits_newSlot ..).trans (.updateKind fun kind hkind => ?_)
  cases kind <;> try exact .same _
  have hmethod := method?_of_newSlot a hkind
  rw [hmethod]
  exact .result (isSlot_newSlot ..) ..

/-! ## Attributes, arguments and types -/

theorem edits_newAttr (script : NodeId) {type : NodeId} (position : Position)
    (h : Unbroken (a.name type)) : a.Edits (a.newAttr script type position).2 :=
  (Edits.alloc _ _ position (.attr _) h).trans (.adopt ..)

theorem edits_setAttrArgs (attr args : NodeId) : a.Edits (a.setAttrArgs attr args) := by
  refine (Edits.adopt ..).trans (.updateKind fun kind _ => ?_)
  split
  · exact .attr ..
  · exact .same _

theorem edits_newArgs (script : NodeId) (position : Position) :
    a.Edits (a.newArgs script position).2 :=
  .alloc "" _ position (.args _) (by decide : Unbroken "")

theorem edits_pushArg (args item : NodeId) : a.Edits (a.pushArg args item) := by
  refine (Edits.adopt ..).trans (.updateKind fun kind _ => ?_)
  split
  · exact .args ..
  · exact .same _

theorem edits_newNamedArgs (script : NodeId) (position : Position) :
    a.Edits (a.newNamedArgs script position).2 :=
  .alloc "" _ position (.namedArgs _) ⟨by decide, fun _ h => by cases h⟩

theorem edits_insertNamedArg (args item : NodeId) (h : Unbroken name) :
    a.Edits (a.insertNamedArg args name item).2 := by
  unfold insertNamedArg
  split
  · exact .refl a
  · refine (Edits.adopt ..).trans (.updateKind fun kind _ => ?_)
    split
    · exact .label h ..
    · exact .same _

theorem edits_newArray (script : NodeId) (length : UInt16) (element : NodeId) (position : Position) :
    a.Edits (a.newArray script length element position).2 :=
  (Edits.alloc "" _ position (.array ..) (by decide : Unbroken "")).trans (.adopt ..)

theorem edits_newList (script element : NodeId) (position : Position) :
    a.Edits (a.newList script element position).2 :=
  (Edits.alloc "" _ position (.list _) (by decide : Unbroken "")).trans (.adopt ..)

theorem edits_newMap (script key value : NodeId) (position : Position) :
    a.Edits (a.newMap script key value position).2 :=
  ((Edits.alloc "" _ position (.map ..) (by decide : Unbroken "")).trans (.adopt ..)).trans
    (.adopt ..)

theorem edits_newUnion (script left right : NodeId) (position : Position) :
    a.Edits (a.newUnion script left right position).2 :=
  ((Edits.alloc "" _ position (.union ..) (by decide : Unbroken "")).trans (.adopt ..)).trans
    (.adopt ..)

/-- A literal has no name. -/
theorem edits_literal (script : NodeId) (position : Position) {kind : NodeKind}
    (h : a.Inscribed "" kind) : a.Edits (a.alloc "" (some script) position kind).2 :=
  .alloc "" _ position _ h

end

end SchemaLang.Arena
