import Mathlib.Order.Defs.Unbundled
import SchemaLang.Proofs.Arena.Nodes

/-!
# The numbers of a tree

Integers in arguments and the values of enums are the numbers of a tree. They are written when their
node is added, and never again: an operation on an arena adds one number or none
(`Arena.Reckons`).
-/

namespace SchemaLang

/-- The number that a node holds. -/
def NodeKind.number? : NodeKind → Option Int64
  | int value | enumValue value => some value
  | _ => none

namespace Arena

variable {S : Int64 → Prop} {a b c : Arena}

/-- Every number of the second arena is one of the first at its node, or satisfies `S`. -/
structure Reckons (S : Int64 → Prop) (a b : Arena) : Prop where
  number (n : NodeId) (value : Int64) (h : (b.kind n).number? = some value) :
    (a.kind n).number? = some value ∨ S value

instance : IsPreorder Arena (Reckons S) where
  refl _ := ⟨fun _ _ => Or.inl⟩
  trans _ _ _ h h' := ⟨fun n value hb => (h'.number n value hb).elim (h.number n value) Or.inr⟩

namespace Reckons

theorem trans (h : Reckons S a b) (h' : Reckons S b c) : Reckons S a c :=
  trans_of (Reckons S) h h'

theorem alloc (name : String) (script : Option NodeId) (position : Position) {kind : NodeKind}
    (h : ∀ value, kind.number? = some value → S value) :
    Reckons S a (a.alloc name script position kind).2 := by
  refine ⟨fun n value hn => ?_⟩
  unfold Arena.kind at hn
  rw [node_alloc] at hn
  split at hn
  · exact Or.inr (h value hn)
  · exact Or.inl hn

theorem update {f : Node → Node} (n : NodeId) (h : ∀ x, (f x).kind.number? = x.kind.number?) :
    Reckons S a (a.update n f) := by
  refine ⟨fun m value hm => ?_⟩
  unfold Arena.kind at hm
  rw [node_update] at hm
  split at hm
  · exact Or.inl ((h _).symm.trans hm)
  · exact Or.inl hm

theorem updateKind {f : NodeKind → NodeKind} (n : NodeId)
    (h : ∀ kind, (f kind).number? = kind.number?) : Reckons S a (a.updateKind n f) :=
  update n fun x => h x.kind

theorem adopt (parent child : NodeId) : Reckons S a (a.adopt parent child) :=
  update child fun _ => rfl

theorem addAttr (node attr : NodeId) : Reckons S a (a.addAttr node attr) :=
  (update (f := fun carrier => { carrier with
    attrs := if carrier.attrs.contains attr then carrier.attrs else carrier.attrs.push attr })
    node fun _ => rfl).trans (adopt ..)

theorem addAttrs (node : NodeId) : ∀ (attrs : List NodeId) (a : Arena),
    Reckons S a (attrs.foldl (fun arena attr => arena.addAttr node attr) a)
  | [], a => refl a
  | attr :: rest, _ => (addAttr node attr).trans (addAttrs node rest _)

theorem bindComments (node : NodeId) (comments : List Comment) :
    Reckons S a (a.bindComments node comments) :=
  update node fun _ => rfl

end Reckons

/-! ## Numbers -/

section

variable (a) {value : Int64} (h : S value)

include h

theorem reckons_newInt (script : NodeId) (position : Position) :
    Reckons S a (a.newInt script value position).2 :=
  .alloc _ _ _ (by rintro _ ⟨⟩; exact h)

theorem reckons_newEnumValue (enum : NodeId) (name : String) (position : Position) :
    Reckons S a (a.newEnumValue enum name value position).2 := by
  unfold newEnumValue
  split
  · exact refl a
  · refine ((Reckons.alloc _ _ _ (by rintro _ ⟨⟩; exact h)).trans (.adopt ..)).trans
      (.updateKind _ fun kind => ?_)
    cases kind <;> rfl

end

/-! ## The other operations -/

variable (a)

theorem reckons_declareType (script type : NodeId) :
    Reckons S a (a.declareType script type).2 := by
  unfold declareType
  split
  · exact refl a
  dsimp only
  split
  · exact refl a
  · refine ((Reckons.updateKind _ fun kind => ?_).trans (.updateKind _ fun kind => ?_)).trans
      (.adopt ..)
    · cases kind <;> rfl
    · cases kind <;> rfl

theorem reckons_newPackageRef (script package : NodeId) (name : String) (position : Position) :
    Reckons S a (a.newPackageRef script name package position).2 := by
  unfold newPackageRef
  split
  · exact refl a
  · refine ((Reckons.alloc _ _ _ nofun).trans (.adopt ..)).trans (.updateKind _ fun kind => ?_)
    cases kind <;> rfl

theorem reckons_newTypeRef (script : NodeId) (path : List String) (position : Position) :
    Reckons S a (a.newTypeRef script path position).2 :=
  .alloc _ _ _ nofun

theorem reckons_newField (table type : NodeId) (name : String) (position : Position) :
    Reckons S a (a.newField table name type position).2 := by
  unfold newField
  split
  · exact refl a
  · refine (((Reckons.alloc _ _ _ nofun).trans (.adopt ..)).trans (.adopt ..)).trans
      (.updateKind _ fun kind => ?_)
    cases kind <;> rfl

theorem reckons_addBase (contract base : NodeId) : Reckons S a (a.addBase contract base).2 := by
  unfold addBase
  split
  · exact refl a
  · refine (Reckons.adopt ..).trans (.updateKind _ fun kind => ?_)
    cases kind <;> rfl

theorem reckons_newMethod (contract : NodeId) (name : String) (position : Position) :
    Reckons S a (a.newMethod contract name position).2 := by
  unfold newMethod
  split
  · exact refl a
  split
  · exact refl a
  · refine ((Reckons.alloc _ _ _ nofun).trans (.adopt ..)).trans (.updateKind _ fun kind => ?_)
    cases kind <;> rfl

theorem reckons_newSlot (method : NodeId) (place : UInt16) (type : NodeId) (position : Position) :
    Reckons S a (a.newSlot method place type position).2 :=
  ((Reckons.alloc _ _ _ nofun).trans (.adopt ..)).trans (.adopt ..)

theorem reckons_newParam (method type : NodeId) (position : Position) :
    Reckons S a (a.newParam method type position).2 := by
  refine (reckons_newSlot a method _ type position).trans (.updateKind _ fun kind => ?_)
  cases kind <;> rfl

theorem reckons_newResult (method type : NodeId) (position : Position) :
    Reckons S a (a.newResult method type position).2 := by
  refine (reckons_newSlot a method _ type position).trans (.updateKind _ fun kind => ?_)
  cases kind <;> rfl

theorem reckons_newAttr (script type : NodeId) (position : Position) :
    Reckons S a (a.newAttr script type position).2 :=
  (Reckons.alloc _ _ _ nofun).trans (.adopt ..)

theorem reckons_setAttrArgs (attr args : NodeId) : Reckons S a (a.setAttrArgs attr args) := by
  refine (Reckons.adopt ..).trans (.updateKind _ fun kind => ?_)
  cases kind <;> rfl

theorem reckons_pushArg (args item : NodeId) : Reckons S a (a.pushArg args item) := by
  refine (Reckons.adopt ..).trans (.updateKind _ fun kind => ?_)
  cases kind <;> rfl

theorem reckons_insertNamedArg (args : NodeId) (name : String) (item : NodeId) :
    Reckons S a (a.insertNamedArg args name item).2 := by
  unfold insertNamedArg
  split
  · exact refl a
  · refine (Reckons.adopt ..).trans (.updateKind _ fun kind => ?_)
    cases kind <;> rfl

/-- A node that owns one other node. -/
theorem reckons_owner {kind : NodeKind} (script part : NodeId) (position : Position)
    (h : kind.number? = none) :
    Reckons S a ((a.alloc "" (some script) position kind).2.adopt a.size part) :=
  (Reckons.alloc _ _ _ fun _ hv => by rw [h] at hv; cases hv).trans (.adopt ..)

end Arena

end SchemaLang
