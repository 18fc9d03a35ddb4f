import SchemaLang.Link
import SchemaLang.Proofs.Arena.Edits
import SchemaLang.Proofs.Step

/-!
# Linking edits the arena

Whatever the state that it is run from, each pass of linking is made of edits, whether it fails or not.
-/

namespace SchemaLang.Link

open Arena

variable {α β : Type} {m : Link α}

/-- The step edits the arena. -/
def Edits (m : Link α) : Prop :=
  ∀ a : Arena, Leads Arena.Edits m a fun _ _ => True

theorem Edits.bind {f : α → Link β} (h : Edits m) (hf : ∀ x, Edits (f x)) : Edits (m >>= f) :=
  fun a => (h a).bind fun x b _ _ => hf x b

theorem Edits.forM {f : α → Link Unit} (h : ∀ x, Edits (f x)) (xs : List α) : Edits (xs.forM f) :=
  fun a => Leads.forM (I := fun _ _ => True) (fun x _ b _ => h x b) xs a trivial

/-! ## References and attributes -/

theorem edits_bindReference (id : NodeId) : Edits (bindReference id) := by
  intro a
  unfold bindReference Leads
  dsimp only
  cases a.lookup id with
  | error failure => exact .refl a
  | ok target => exact ⟨edits_resolve a id target, trivial⟩

theorem edits_bindReferences (package : NodeId) : Edits (bindReferences package) :=
  fun a => Edits.forM edits_bindReference _ a

theorem edits_placeAttr (vocabulary : Vocabulary) (node : NodeId) (site : Site) (attr : NodeId) :
    Edits (placeAttr vocabulary node site attr) := by
  intro a
  unfold placeAttr Leads
  dsimp only
  cases a.usageMask vocabulary attr with
  | error failure => exact .refl a
  | ok mask =>
    dsimp only
    by_cases hpermits : vocabulary.permits mask site = true
    · rw [if_pos hpermits]
      exact ⟨.refl a, trivial⟩
    · rw [if_neg hpermits]
      cases a.destination? vocabulary node site mask with
      | none => exact .refl a
      | some destination =>
        exact ⟨(Arena.Edits.removeAttr a node attr).trans (.addAttr _ destination attr), trivial⟩

theorem edits_tag (vocabulary : Vocabulary) (node : NodeId) (site : Site) :
    Edits (tag vocabulary node site) := by
  intro a
  cases site with
  | table => exact ⟨edits_setStruct a node _, trivial⟩
  | enum => exact ⟨edits_setError a node _, trivial⟩
  | _ => exact ⟨.refl a, trivial⟩

theorem edits_placeSite (vocabulary : Vocabulary) (entry : NodeId × Site) :
    Edits (placeSite vocabulary entry) :=
  (edits_tag vocabulary entry.1 entry.2).bind fun site a =>
    Edits.forM (edits_placeAttr vocabulary entry.1 site) _ a

theorem edits_placeAttributes (package builtin : NodeId) : Edits (placeAttributes package builtin) := by
  intro a
  unfold placeAttributes Leads
  dsimp only
  cases a.package? package with
  | none => exact ⟨.refl a, trivial⟩
  | some decl =>
    dsimp only
    by_cases hempty : decl.scripts.isEmpty = true
    · rw [if_pos hempty]
      exact ⟨.refl a, trivial⟩
    · rw [if_neg hempty]
      cases Vocabulary.ofPackage a builtin with
      | error failure => exact .refl a
      | ok vocabulary => exact Edits.forM (edits_placeSite vocabulary) (a.sites package) a

/-! ## Contracts -/

variable (add : Adder) (contract : NodeId)

theorem edits_shiftMethods (distance : UInt16) : ∀ methods : List NodeId,
    Edits (shiftMethods add distance methods)
  | [] => fun a => ⟨.refl a, trivial⟩
  | method :: rest => fun a => by
    unfold shiftMethods
    cases hn : add (a.methodId method) distance with
    | error failure => exact .of_error (e := failure) (by simp only [hn]) (.refl a)
    | ok number =>
      exact .follow (by simp only [hn]) (edits_setMethodId a method number)
        (edits_shiftMethods distance rest _)

theorem edits_inheritMethod (offset : UInt16) (entry : String × NodeId) :
    Edits (inheritMethod add contract offset entry) := by
  intro a
  unfold inheritMethod Leads
  dsimp only
  cases a.findMethod? contract entry.1 with
  | some existing => exact .refl a
  | none =>
    dsimp only
    cases add (a.methodId entry.2) offset with
    | error failure => exact .refl a
    | ok number => exact ⟨edits_copyMethod a entry.2 contract number, trivial⟩

theorem edits_inheritMethods : ∀ (bases : List NodeId) (offset : UInt16),
    Edits (inheritMethods add contract offset bases)
  | [], _ => fun a => ⟨.refl a, trivial⟩
  | base :: rest, offset => fun a => by
    have hbase := Edits.forM (edits_inheritMethod add contract offset) (a.methodsOf base) a
    unfold inheritMethods
    cases hm : (a.methodsOf base).forM (inheritMethod add contract offset) a with
    | error failure b => exact .of_error (e := failure) (by simp only [hm]) (hbase.error hm)
    | ok x b =>
      cases hn : add offset (UInt16.ofNat (a.methodsOf base).length) with
      | error failure => exact .of_error (e := failure) (by simp only [hm, hn]) (hbase.ok hm).1
      | ok offset =>
        exact .follow (by simp only [hm, hn]) (hbase.ok hm).1 (edits_inheritMethods rest offset b)

theorem edits_inheritAll (bases : List NodeId) : Edits (inheritAll add contract bases) := by
  intro a
  have hsteps : Edits (do
      shiftMethods add (UInt16.ofNat (a.methodTotal bases)) ((a.methodsOf contract).map (·.2))
      inheritMethods add contract 0 bases
      modify fun arena => arena.setFlattened contract) :=
    (edits_shiftMethods add _ _).bind fun _ => (edits_inheritMethods add contract bases 0).bind
      fun _ b => ⟨edits_setFlattened b contract, trivial⟩
  unfold inheritAll Leads
  dsimp only
  by_cases hmany : 65535 < a.methodTotal bases + (a.methodsOf contract).length
  · rw [if_pos hmany]
    exact .refl a
  · rw [if_neg hmany]
    exact hsteps a

theorem edits_flatten : ∀ (fuel : Nat) (active : List NodeId) (contract : NodeId),
    Edits (flatten add fuel active contract)
  | 0, _, _ => fun a => ⟨.refl a, trivial⟩
  | fuel + 1, active, contract => fun a => by
    unfold flatten Leads
    dsimp only
    cases a.contract? contract with
    | none => exact ⟨.refl a, trivial⟩
    | some decl =>
      dsimp only
      by_cases hflat : decl.flattened = true
      · rw [if_pos hflat]
        exact ⟨.refl a, trivial⟩
      rw [if_neg hflat]
      by_cases hactive : active.contains contract = true
      · rw [if_pos hactive]
        exact .refl a
      rw [if_neg hactive]
      cases a.baseTargets decl.bases.toList with
      | error failure => exact .refl a
      | ok bases =>
        exact (Edits.forM (edits_flatten fuel (active ++ [contract])) bases).bind
          (fun _ => edits_inheritAll add contract bases) a

theorem edits_flattenContracts (package : NodeId) : Edits (flattenContracts package) := by
  intro a
  unfold flattenContracts flattenContractsWith Leads
  dsimp only
  cases a.package? package with
  | none => exact ⟨.refl a, trivial⟩
  | some decl => exact Edits.forM (edits_flatten .wrapping _ []) decl.types.nodes a

/-- Linking a package edits the arena. -/
theorem edits_package (id : NodeId) (builtin : Option NodeId) : Edits (package id builtin) :=
  (edits_bindReferences id).bind fun _ => (edits_placeAttributes id _).bind fun _ =>
    edits_flattenContracts id

end SchemaLang.Link
