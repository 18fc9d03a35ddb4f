import Mathlib.Data.List.Perm.Basic
import Mathlib.Data.List.Sort
import Mathlib.Logic.Relation
import SchemaLang.Link.Inheritance
import SchemaLang.Proofs.Arena.Nodes

/-!
# The methods that a contract has in the end

The flat list of a contract is said here without the pass that computes it: the flat lists of its
bases one after the other, in the order of declaration, and then its own methods. A contract that
was flattened before, as those of imported packages are, contributes its methods in the order of
their ids.

* `Arena.Flat`: the relation between a contract and its flat list, by recursion over the bases.
* `Arena.InheritanceAcyclic`: no way up from a contract leads back to itself.
* `Arena.ReadyToFlatten`: what reading leaves behind. Own methods are numbered in the order of
  declaration, and a base from elsewhere is flattened.

A contract with a flat list cannot inherit from itself (`Flat.acyclic`), and it has one flat list
only (`Flat.unique`).
-/

namespace SchemaLang.Arena

open Relation

variable {a b : Arena} {c d n : Nat}

/-! ## The relation between contracts -/

/-- What a reference is bound to. -/
def boundTo (arena : Arena) (reference : NodeId) : Option NodeId :=
  (arena.reference? reference).bind (·.target)

/-- A base of the first contract is bound to the second node. -/
def Inherits (arena : Arena) (contract base : NodeId) : Prop :=
  ∃ reference ∈ (arena.basesOf contract).toList, arena.boundTo reference = some base

/-- All bases of a contract are bound to contracts. -/
def BasesResolve (arena : Arena) (contract : NodeId) : Prop :=
  ∀ reference ∈ (arena.basesOf contract).toList,
    ∃ base, arena.boundTo reference = some base ∧ (arena.contract? base).isSome

/-- No cycle of the inheritance relation can be reached from the contract. -/
def InheritanceAcyclic (arena : Arena) (contract : NodeId) : Prop :=
  ∀ other, ReflTransGen arena.Inherits contract other → ¬ TransGen arena.Inherits other other

theorem InheritanceAcyclic.of_bases
    (h : ∀ base, a.Inherits c base → a.InheritanceAcyclic base) : a.InheritanceAcyclic c := by
  intro other hreach hcycle
  rcases ReflTransGen.cases_head hreach with rfl | ⟨base, hb, hrest⟩
  · -- A cycle through the contract itself passes through one of its bases.
    obtain ⟨base, hb, hback⟩ := TransGen.head'_iff.1 hcycle
    exact h base hb c hback hcycle
  · exact h base hb other hrest hcycle

/-! ## Methods by number -/

/-- The methods of a contract with their ids, in the order of entry. -/
def numbering (arena : Arena) (contract : NodeId) : List (String × Nat) :=
  (arena.methodsOf contract).map fun entry => (entry.1, (arena.methodId entry.2).toNat)

/-- The methods of a contract with their ids, in the order of the ids. -/
def methodsById (arena : Arena) (contract : NodeId) : List (String × Nat) :=
  (arena.numbering contract).mergeSort fun x y => decide (x.2 ≤ y.2)

/-- The flat list of a contract. -/
inductive Flat (arena : Arena) : NodeId → List String → Prop
  /-- A contract that is flattened has it already. -/
  | flattened {contract : NodeId} {decl : Contract} (hc : arena.contract? contract = some decl)
      (hf : decl.flattened = true) :
      Flat arena contract ((arena.methodsById contract).map (·.1))
  /-- Otherwise the flat lists of the bases come first, then the contract's own methods. -/
  | declared {contract : NodeId} {decl : Contract} (parts : List (NodeId × List String))
      (hc : arena.contract? contract = some decl) (hf : decl.flattened = false)
      (hb : decl.bases.toList.map arena.boundTo = parts.map fun part => some part.1)
      (hp : ∀ part ∈ parts, Flat arena part.1 part.2) :
      Flat arena contract (parts.flatMap (·.2) ++ decl.methods.names)

/-! ## What the pass starts from -/

/-- The methods of a contract are method nodes below it, entered under their names. -/
def MethodsOwned (arena : Arena) (contract : NodeId) : Prop :=
  ∀ entry ∈ arena.methodsOf contract, entry.2 < arena.size ∧ (arena.method? entry.2).isSome ∧
    arena.name entry.2 = entry.1 ∧ (arena.node entry.2).parent = some contract

/-- A contract as it is read: its own methods are numbered in the order of declaration. -/
structure DeclaredContract (arena : Arena) (contract : NodeId) : Prop where
  decl : ∃ decl, arena.contract? contract = some decl ∧ decl.flattened = false
  owned : arena.MethodsOwned contract
  numbered : ∀ i entry, (arena.methodsOf contract)[i]? = some entry →
    arena.methodId entry.2 = UInt16.ofNat i

/-- A contract that was flattened before: its methods have the ids below their number. -/
structure FlattenedContract (arena : Arena) (contract : NodeId) : Prop where
  decl : ∃ decl, arena.contract? contract = some decl ∧ decl.flattened = true
  owned : arena.MethodsOwned contract
  dense : (arena.methodsById contract).map (·.2) = List.range (arena.methodsOf contract).length
  short : (arena.methodsOf contract).length ≤ 65535
  acyclic : arena.InheritanceAcyclic contract

/-- The contracts of a package are as they were read, and a base that is no contract of the package
was flattened before. -/
structure ReadyToFlatten (arena : Arena) (types : Registry) : Prop where
  declared : ∀ contract ∈ types.nodes, (arena.contract? contract).isSome →
    arena.DeclaredContract contract
  imported : ∀ contract ∈ types.nodes, ∀ base, arena.Inherits contract base →
    (arena.contract? base).isSome → base ∉ types.nodes → arena.FlattenedContract base

/-! ## Flat lists -/

theorem basesOf_eq {decl : Contract} (h : a.contract? c = some decl) : a.basesOf c = decl.bases := by
  unfold basesOf
  rw [h]

theorem methodsOf_eq {decl : Contract} (h : a.contract? c = some decl) :
    a.methodsOf c = decl.methods.entries.toList := by
  unfold methodsOf
  rw [h]

theorem Flat.isContract {names : List String} (h : a.Flat c names) : (a.contract? c).isSome := by
  cases h with
  | flattened hc _ => rw [hc]; rfl
  | declared _ hc _ _ _ => rw [hc]; rfl

/-- The parts of a contract's flat list are those of the nodes it inherits from. -/
theorem inherits_of_mem_parts {decl : Contract} {parts : List (NodeId × List String)}
    (hc : a.contract? c = some decl)
    (hb : decl.bases.toList.map a.boundTo = parts.map fun part => some part.1)
    {part : NodeId × List String} (hp : part ∈ parts) : a.Inherits c part.1 := by
  have hm : some part.1 ∈ parts.map fun part => some part.1 :=
    List.mem_map.2 ⟨part, hp, rfl⟩
  rw [← hb] at hm
  obtain ⟨reference, hr, ht⟩ := List.mem_map.1 hm
  exact ⟨reference, by rw [basesOf_eq hc]; exact hr, ht⟩

theorem mem_parts_of_inherits {decl : Contract} {parts : List (NodeId × List String)}
    (hc : a.contract? c = some decl)
    (hb : decl.bases.toList.map a.boundTo = parts.map fun part => some part.1)
    {base : Nat} (h : a.Inherits c base) : ∃ part ∈ parts, part.1 = base := by
  obtain ⟨reference, hr, ht⟩ := h
  rw [basesOf_eq hc] at hr
  have hm : some base ∈ parts.map fun part => some part.1 := by
    rw [← hb, ← ht]
    exact List.mem_map.2 ⟨reference, hr, rfl⟩
  obtain ⟨part, hp, he⟩ := List.mem_map.1 hm
  exact ⟨part, hp, Option.some.inj he⟩

theorem Flat.basesResolve {names : List String} (h : a.Flat c names) {decl : Contract}
    (hc : a.contract? c = some decl) (hf : decl.flattened = false) : a.BasesResolve c := by
  cases h with
  | flattened hc' hf' =>
    rw [hc] at hc'
    cases hc'
    rw [hf] at hf'
    cases hf'
  | declared parts hc' _ hb hp =>
    intro reference hr
    rw [basesOf_eq hc'] at hr
    have hm : a.boundTo reference ∈ parts.map fun part => some part.1 := by
      rw [← hb]
      exact List.mem_map.2 ⟨reference, hr, rfl⟩
    obtain ⟨part, hpart, he⟩ := List.mem_map.1 hm
    exact ⟨part.1, he.symm, (hp part hpart).isContract⟩

/-- A flat list whose flattened ends reach no cycle leaves no room for one. -/
theorem Flat.acyclic {names : List String} (h : a.Flat c names)
    (hend : ∀ other decl, ReflTransGen a.Inherits c other → a.contract? other = some decl →
      decl.flattened = true → a.InheritanceAcyclic other) : a.InheritanceAcyclic c := by
  induction h with
  | flattened hc hf => exact hend _ _ .refl hc hf
  | declared parts hc _ hb _ ih =>
    refine InheritanceAcyclic.of_bases fun base hi => ?_
    obtain ⟨part, hp, rfl⟩ := mem_parts_of_inherits hc hb hi
    exact ih part hp fun other decl hreach => hend other decl (.head hi hreach)

theorem parts_unique : ∀ {parts parts' : List (NodeId × List String)},
    (parts.map fun part => some part.1) = (parts'.map fun part => some part.1) →
    (∀ part ∈ parts, ∀ names, a.Flat part.1 names → part.2 = names) →
    (∀ part ∈ parts', a.Flat part.1 part.2) → parts = parts'
  | [], [], _, _, _ => rfl
  | (x, l) :: rest, (x', l') :: rest', he, hu, hp => by
    simp only [List.map_cons, List.cons.injEq, Option.some.injEq] at he
    obtain ⟨rfl, he⟩ := he
    have hl : l = l' := hu (x, l) (List.mem_cons_self ..) l' (hp (x, l') (List.mem_cons_self ..))
    rw [hl, parts_unique he (fun part h => hu part (List.mem_cons_of_mem _ h))
      fun part h => hp part (List.mem_cons_of_mem _ h)]

theorem Flat.unique {names names' : List String} (h : a.Flat c names) (h' : a.Flat c names') :
    names = names' := by
  induction h generalizing names' with
  | flattened hc hf =>
    cases h' with
    | flattened => rfl
    | declared _ hc' hf' => rw [hc] at hc'; cases hc'; rw [hf] at hf'; cases hf'
  | declared parts hc hf hb _ ih =>
    cases h' with
    | flattened hc' hf' => rw [hc] at hc'; cases hc'; rw [hf] at hf'; cases hf'
    | declared parts' hc' _ hb' hp' =>
      rw [hc] at hc'
      cases hc'
      rw [parts_unique (hb.symm.trans hb') (fun part hm names h => ih part hm h) hp']

end SchemaLang.Arena
