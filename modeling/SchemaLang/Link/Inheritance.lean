import SchemaLang.Link.References

/-!
# Flattening contracts

The third pass of linking gives every contract copies of the methods it inherits. The inherited
methods have the lowest ids, base by base in the order of declaration, and the contract's own
methods follow. A contract is flattened once, after its bases.
-/

namespace SchemaLang

namespace Arena

/-- The contracts that the base references of a contract are bound to. -/
def baseTargets (arena : Arena) : List NodeId → Except Diagnostic (List NodeId)
  | [] => .ok []
  | base :: rest =>
    match (arena.reference? base).bind (·.target) with
    | none => .error ⟨.unknownType (arena.name base), arena.position base⟩
    | some target =>
      if (arena.contract? target).isNone then
        .error ⟨.notAContract (arena.name base), arena.position base⟩
      else do
        let others ← arena.baseTargets rest
        pure (target :: others)

/-- The number of methods of some contracts together. -/
def methodTotal (arena : Arena) : List NodeId → Nat
  | [] => 0
  | contract :: rest => arena.methodCount contract + arena.methodTotal rest

/-- The methods of a contract, by name. -/
def methodsOf (arena : Arena) (contract : NodeId) : List (String × NodeId) :=
  match arena.contract? contract with
  | some decl => decl.methods.entries.toList
  | none => []

/-- The id of a method. -/
def methodId (arena : Arena) (method : NodeId) : UInt16 :=
  match arena.method? method with
  | some decl => decl.id
  | none => 0

end Arena

/-- How two ids are added. Ids have 16 bits, so a sum may not fit. -/
abbrev Adder := UInt16 → UInt16 → Except Diagnostic UInt16

/-- Adds modulo the number of ids. -/
def Adder.wrapping : Adder :=
  fun x y => .ok (x + y)

namespace Link

/-! ## One contract

Every sum of ids goes through `add`. -/

/-- Moves the ids of a contract's own methods up. -/
def shiftMethods (add : Adder) (distance : UInt16) : List NodeId → Link Unit
  | [] => pure ()
  | method :: rest =>
    fun arena =>
      match add (arena.methodId method) distance with
      | .error failure => .error failure arena
      | .ok number => shiftMethods add distance rest (arena.setMethodId method number)

/-- Copies one method of a base into a contract. -/
def inheritMethod (add : Adder) (contract : NodeId) (offset : UInt16) (entry : String × NodeId) :
    Link Unit :=
  fun arena =>
    match arena.findMethod? contract entry.1 with
    | some existing =>
      .error ⟨.inheritedDuplicate entry.1 (arena.position existing), arena.position entry.2⟩ arena
    | none =>
      match add (arena.methodId entry.2) offset with
      | .error failure => .error failure arena
      | .ok number => .ok () (arena.copyMethod entry.2 contract number).2

/-- Copies the methods of the bases into a contract, those of each base after those of the bases
before it. -/
def inheritMethods (add : Adder) (contract : NodeId) : UInt16 → List NodeId → Link Unit
  | _, [] => pure ()
  | offset, base :: rest =>
    fun arena =>
      let methods := arena.methodsOf base
      match methods.forM (inheritMethod add contract offset) arena with
      | .error failure arena => .error failure arena
      | .ok () arena =>
        match add offset (UInt16.ofNat methods.length) with
        | .error failure => .error failure arena
        | .ok offset => inheritMethods add contract offset rest arena

/-- Completes a contract whose bases are flattened. -/
def inheritAll (add : Adder) (contract : NodeId) (bases : List NodeId) : Link Unit :=
  fun arena =>
    let inherited := arena.methodTotal bases
    let own := arena.methodsOf contract
    if 65535 < inherited + own.length then
      .error ⟨.tooManyMethods, arena.position contract⟩ arena
    else
      (do
        shiftMethods add (UInt16.ofNat inherited) (own.map (·.2))
        inheritMethods add contract 0 bases
        modify fun arena => arena.setFlattened contract : Link Unit) arena

/-! ## All contracts -/

/-- Flattens a contract and the contracts it inherits from. `active` holds the contracts that wait
for this one, outermost first; `fuel` bounds their number. -/
def flatten (add : Adder) : Nat → List NodeId → NodeId → Link Unit
  | 0, _, _ => pure ()
  | fuel + 1, active, contract =>
    fun arena =>
      match arena.contract? contract with
      | none => .ok () arena
      | some decl =>
        if decl.flattened then .ok () arena
        else if active.contains contract then
          let chain := (active.dropWhile (· != contract) ++ [contract]).map arena.name
          .error ⟨.circularInheritance chain, arena.position contract⟩ arena
        else
          match arena.baseTargets decl.bases.toList with
          | .error failure => .error failure arena
          | .ok bases =>
            (do
              bases.forM (flatten add fuel (active ++ [contract]))
              inheritAll add contract bases : Link Unit) arena

/-- Flattens every contract of a package. No contract waits for itself, so there are never more
waiting contracts than nodes. -/
def flattenContractsWith (add : Adder) (package : NodeId) : Link Unit :=
  fun arena =>
    match arena.package? package with
    | none => .ok () arena
    | some decl => decl.types.nodes.forM (flatten add (arena.size + 1) []) arena

/-- Flattens every contract of a package, with ids that wrap around. -/
def flattenContracts (package : NodeId) : Link Unit :=
  flattenContractsWith .wrapping package

end Link

end SchemaLang
