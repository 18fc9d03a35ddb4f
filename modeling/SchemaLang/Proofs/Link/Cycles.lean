import SchemaLang.Proofs.Link.Finished
import SchemaLang.Proofs.Outcome

/-!
# Cycles of inheritance that linking reports

Flattening walks up from a contract to its bases, with the contracts that wait for one another in a
list. In whatever arena it runs, each of these inherits from the next one, so a contract that is
come upon while it waits is on a cycle, and the cycle is what the failure names.

* `Arena.Firm`: what flattening leaves alone, in any arena: names, references and bases.
* `Link.CircularBases`: a cycle of contracts that are reached from the types of a package.
* `Link.package_error_cases`: linking fails with a cycle of inheritance, or without reporting any cycle.
* `Link.phase_ne_of_package`: it never fails for what a provider does.
* `Arena.Gathered.circularBases`: in a package that was read, the contracts of the cycle are contracts
  of the package, so they have different names.
-/

namespace SchemaLang

open Arena Relation

/-- The cycle that a failure reports. -/
def Cause.cycle : Cause → Option (List String)
  | circularImport chain => some chain
  | circularInheritance chain => some chain
  | _ => none

/-- The failure reports no cycle. -/
def Diagnostic.Plain (failure : Diagnostic) : Prop :=
  failure.cause.cycle = none

/-- The cause lies in what a package declares, and not in a cycle or in the files. -/
def Cause.isLocal : Cause → Bool
  | circularImport _ | circularInheritance _ => false
  | cause => cause.phase != .driver

/-- The failure is about what a package declares. -/
def Diagnostic.Local (failure : Diagnostic) : Prop :=
  failure.cause.isLocal = true

variable {a b c : Arena} {failure : Diagnostic}

theorem Diagnostic.Local.plain (h : failure.Local) : failure.Plain := by
  obtain ⟨cause, position⟩ := failure
  cases cause <;> first | rfl | cases h

theorem Diagnostic.Local.phase_ne (h : failure.Local) : failure.cause.phase ≠ .driver := by
  obtain ⟨cause, position⟩ := failure
  cases cause <;> first | exact Phase.noConfusion | cases h

/-- What flattening leaves of a node as it is: what it refers to, and its bases. -/
def NodeKind.links : NodeKind → Option Reference × Array NodeId
  | typeRef reference => (some reference, #[])
  | contract decl => (none, decl.bases)
  | _ => (none, #[])

namespace Arena

/-! ## What flattening leaves alone -/

theorem reference?_eq_links (a : Arena) (n : Nat) : a.reference? n = (a.kind n).links.1 := by
  unfold reference?
  cases a.kind n <;> rfl

theorem basesOf_eq_links (a : Arena) (n : Nat) : a.basesOf n = (a.kind n).links.2 := by
  unfold basesOf contract?
  cases a.kind n <;> rfl

/-- Nodes keep their names and parents, references what they are bound to, and contracts their bases. New
nodes are below contracts. -/
structure Firm (a b : Arena) : Prop where
  size_le : a.size ≤ b.size
  name : ∀ n : Nat, n < a.size → b.name n = a.name n
  parent : ∀ n : Nat, n < a.size → (b.node n).parent = (a.node n).parent
  links : ∀ n : Nat, n < a.size → (b.kind n).links = (a.kind n).links
  contract : ∀ n : Nat, (a.contract? n).isSome → (b.contract? n).isSome
  fresh : ∀ n : Nat, a.size ≤ n → n < b.size →
    ∃ t, (b.node n).parent = some t ∧ (b.contract? t).isSome

instance : IsPreorder Arena Firm where
  refl _ := ⟨Nat.le_refl _, fun _ _ => rfl, fun _ _ => rfl, fun _ _ => rfl, fun _ => id,
    fun _ hn hn' => absurd hn' (Nat.not_lt.2 hn)⟩
  trans _ b _ h h' :=
    { size_le := Nat.le_trans h.size_le h'.size_le
      name := fun n hn => (h'.name n (Nat.lt_of_lt_of_le hn h.size_le)).trans (h.name n hn)
      parent := fun n hn => (h'.parent n (Nat.lt_of_lt_of_le hn h.size_le)).trans (h.parent n hn)
      links := fun n hn => (h'.links n (Nat.lt_of_lt_of_le hn h.size_le)).trans (h.links n hn)
      contract := fun n hn => h'.contract n (h.contract n hn)
      fresh := fun n hn hn' => by
        rcases Nat.lt_or_ge n b.size with hlt | hge
        · obtain ⟨t, hparent, ht⟩ := h.fresh n hn hlt
          exact ⟨t, (h'.parent n hlt).trans hparent, h'.contract t ht⟩
        · exact h'.fresh n hge hn' }

theorem lt_size_of_boundTo {n t : Nat} (h : a.boundTo n = some t) : n < a.size := by
  by_contra hn
  unfold boundTo reference? kind at h
  rw [node_of_size_le (Nat.le_of_not_lt hn)] at h
  cases h

theorem lt_size_of_inherits {x y : Nat} (h : a.Inherits x y) : x < a.size := by
  obtain ⟨decl, hd⟩ := Option.isSome_iff_exists.1 (isContract_of_inherits h)
  exact lt_size_of_contract hd

/-- Contracts go on inheriting from the same nodes. -/
theorem Firm.inherits {x y : Nat} (h : Firm a b) (hi : a.Inherits x y) : b.Inherits x y := by
  have hx := lt_size_of_inherits hi
  obtain ⟨reference, hmem, hbound⟩ := hi
  refine ⟨reference, ?_, ?_⟩
  · rwa [basesOf_eq_links, h.links x hx, ← basesOf_eq_links]
  · have hlt := lt_size_of_boundTo hbound
    unfold boundTo at *
    rwa [reference?_eq_links, h.links reference hlt, ← reference?_eq_links]

theorem firm_updateKind (a : Arena) (m : Nat) {f : NodeKind → NodeKind}
    (hlinks : ∀ kind, (f kind).links = kind.links)
    (hcontract : ∀ decl, ∃ decl', f (.contract decl) = .contract decl') :
    Firm a (a.updateKind m f) := by
  have hkind : ∀ n : Nat, (a.updateKind m f).kind n = f (a.kind n) ∨
      (a.updateKind m f).kind n = a.kind n := fun n => by
    unfold kind
    rw [node_updateKind]
    split
    · exact Or.inl rfl
    · exact Or.inr rfl
  refine ⟨Nat.le_of_eq (size_updateKind ..).symm, fun n _ => ?_, fun n _ => ?_, fun n _ => ?_,
    fun n hn => ?_, fun n hn hn' => ?_⟩
  · unfold name
    rw [node_updateKind]
    split <;> rfl
  · rw [node_updateKind]
    split <;> rfl
  · rcases hkind n with hk | hk
    · rw [hk, hlinks]
    · rw [hk]
  · obtain ⟨decl, hd⟩ := Option.isSome_iff_exists.1 hn
    rw [contract?_eq_some] at hd
    rcases hkind n with hk | hk
    · obtain ⟨decl', hd'⟩ := hcontract decl
      rw [contract?_eq_some.2 (hk.trans (by rw [hd, hd']))]
      rfl
    · rw [contract?_eq_some.2 (hk.trans hd)]
      rfl
  · rw [size_updateKind] at hn'
    exact absurd hn' (Nat.not_lt.2 hn)

theorem firm_push {x : Node} {contract : Nat} (hc : (a.contract? contract).isSome)
    (hx : x.parent = some contract) : Firm a (a.push x).2 := by
  have hnode : ∀ n : Nat, n < a.size → (a.push x).2.node n = a.node n := fun n hn => by
    rw [node_push, if_neg (Nat.ne_of_lt hn)]
  have hcontract : ∀ n : Nat, (a.contract? n).isSome → ((a.push x).2.contract? n).isSome := fun n hn => by
    obtain ⟨decl, hd⟩ := Option.isSome_iff_exists.1 hn
    rwa [contract?_congr (hnode n (lt_size_of_contract hd))]
  refine ⟨by rw [size_push]; exact Nat.le_succ _, fun n hn => ?_, fun n hn => by rw [hnode n hn],
    fun n hn => ?_, hcontract, fun n hn hn' => ⟨contract, ?_, hcontract _ hc⟩⟩
  · unfold name
    rw [hnode n hn]
  · unfold kind
    rw [hnode n hn]
  · rw [size_push] at hn'
    rw [node_push, if_pos (by omega), hx]

theorem firm_setMethodId (a : Arena) (m : Nat) (number : UInt16) : Firm a (a.setMethodId m number) :=
  firm_updateKind a m (fun kind => by cases kind <;> rfl) fun decl => ⟨decl, rfl⟩

theorem firm_setFlattened (a : Arena) (m : Nat) : Firm a (a.setFlattened m) :=
  firm_updateKind a m (fun kind => by cases kind <;> rfl) fun _ => ⟨_, rfl⟩

theorem firm_copyMethod {contract : Nat} (hc : (a.contract? contract).isSome) (m : Nat)
    (number : UInt16) : Firm a (a.copyMethod m contract number).2 := by
  refine trans_of Firm (firm_push hc ?_) (firm_updateKind _ contract (fun kind => by cases kind <;> rfl)
    fun _ => ⟨_, rfl⟩)
  exact rfl

end Arena

/-! ## Failures of what a package declares -/

theorem Arena.local_lookup {n : Nat} (h : a.lookup n = .error failure) : failure.Local := by
  unfold lookup at h
  dsimp only at h
  split at h
  · cases h
    rfl
  split at h
  · cases h
    rfl
  split at h
  · cases h
    rfl
  split at h
  · cases h
  · cases h
    rfl

theorem Arena.local_evalWithin : ∀ (fuel : Nat) (expr : Nat),
    a.evalWithin fuel expr = .error failure → failure.Local
  | 0, expr, h => by
    cases h
    rfl
  | fuel + 1, expr, h => by
    unfold evalWithin at h
    split at h
    · cases h
    · cases h
    · split at h
      · cases h
        rfl
      · split at h
        · cases h
        · cases h
          rfl
    · rename_i left right _
      rcases except_bind_eq_error.1 h with h | ⟨l, -, h⟩
      · exact local_evalWithin fuel left h
      rcases except_bind_eq_error.1 h with h | ⟨r, -, h⟩
      · exact local_evalWithin fuel right h
      · cases h
    · cases h
      rfl

theorem Arena.local_usageMask {vocabulary : Vocabulary} {attr : Nat}
    (h : a.usageMask vocabulary attr = .error failure) : failure.Local := by
  unfold usageMask at h
  dsimp only at h
  split at h
  · cases h
    rfl
  split at h
  · cases h
    rfl
  split at h
  · cases h
    rfl
  split at h
  · cases h
    rfl
  · exact local_evalWithin _ _ h

theorem Vocabulary.local_declared {types : Registry} {name : String}
    (h : declared types name = .error failure) : failure.Local := by
  unfold declared at h
  split at h
  · cases h
  · cases h
    rfl

theorem Vocabulary.local_siteBits {values : List (String × Int64)} : ∀ {sites : List Site},
    siteBits values sites = .error failure → failure.Local
  | [], h => by cases h
  | site :: rest, h => by
    unfold siteBits at h
    split at h
    · cases h
      rfl
    · rcases except_bind_eq_error.1 h with h | ⟨bits, -, h⟩
      · exact local_siteBits h
      · cases h

theorem Vocabulary.local_ofPackage {builtin : Nat} (h : ofPackage a builtin = .error failure) :
    failure.Local := by
  unfold ofPackage at h
  split at h
  · cases h
    rfl
  rcases except_bind_eq_error.1 h with h | ⟨sites, -, h⟩
  · exact local_declared h
  rcases except_bind_eq_error.1 h with h | ⟨bits, -, h⟩
  · exact local_siteBits h
  rcases except_bind_eq_error.1 h with h | ⟨usage, -, h⟩
  · exact local_declared h
  split at h
  · cases h
    rfl
  rcases except_bind_eq_error.1 h with h | ⟨structMarker, -, h⟩
  · exact local_declared h
  rcases except_bind_eq_error.1 h with h | ⟨errorMarker, -, h⟩
  · exact local_declared h
  · cases h

theorem Arena.local_baseTargets : ∀ {references : List NodeId},
    a.baseTargets references = .error failure → failure.Local
  | [], h => by cases h
  | reference :: rest, h => by
    unfold baseTargets at h
    split at h
    · cases h
      rfl
    split at h
    · cases h
      rfl
    · rcases except_bind_eq_error.1 h with h | ⟨targets, -, h⟩
      · exact local_baseTargets h
      · cases h

namespace Link

/-- The step fails for what the package declares, if at all. -/
def EndsLocally {α : Type} (m : Link α) : Prop :=
  ∀ a, Ends m a (fun _ _ => True) fun failure _ => failure.Local

theorem EndsLocally.forM {α : Type} {f : α → Link Unit} (h : ∀ x, EndsLocally (f x)) (xs : List α) :
    EndsLocally (xs.forM f) :=
  fun a => Ends.forM (I := fun _ _ => True) (fun x _ a _ => h x a) xs a trivial

theorem endsLocally_bindReference (n : Nat) : EndsLocally (bindReference n) := by
  intro a
  unfold Ends bindReference
  dsimp only
  split
  · trivial
  · rename_i hrun
    split at hrun
    · rename_i hlookup
      cases hrun
      exact local_lookup hlookup
    · cases hrun

theorem endsLocally_placeAttr (vocabulary : Vocabulary) (node : Nat) (site : Site) (attr : Nat) :
    EndsLocally (placeAttr vocabulary node site attr) := by
  intro a
  cases hm : a.usageMask vocabulary attr with
  | error failure =>
    have hrun : placeAttr vocabulary node site attr a = .error failure a := by
      unfold placeAttr
      simp only [hm]
    exact .of_error hrun (local_usageMask hm)
  | ok mask =>
    unfold Ends placeAttr
    simp only [hm]
    split
    · trivial
    · rename_i hrun
      split at hrun
      · cases hrun
      split at hrun
      · cases hrun
        rfl
      · cases hrun

theorem endsLocally_bindReferences (p : Nat) : EndsLocally (bindReferences p) :=
  fun a => EndsLocally.forM endsLocally_bindReference _ a

theorem endsLocally_placeSite (vocabulary : Vocabulary) (entry : NodeId × Site) :
    EndsLocally (placeSite vocabulary entry) := by
  intro a
  refine Ends.bind (P := fun _ _ => True) ?_ fun site b _ =>
    EndsLocally.forM (endsLocally_placeAttr vocabulary entry.1 site) _ b
  obtain ⟨node, site⟩ := entry
  cases site <;> trivial

theorem endsLocally_placeAttributes (p builtin : Nat) : EndsLocally (placeAttributes p builtin) := by
  intro a
  cases hp : a.package? p with
  | none =>
    have hrun : placeAttributes p builtin a = .ok () a := by
      unfold placeAttributes
      simp only [hp]
    exact .of_ok hrun trivial
  | some decl =>
    by_cases hempty : decl.scripts.isEmpty = true
    · have hrun : placeAttributes p builtin a = .ok () a := by
        unfold placeAttributes
        simp [hp, hempty]
      exact .of_ok hrun trivial
    cases hv : Vocabulary.ofPackage a builtin with
    | error failure =>
      have hrun : placeAttributes p builtin a = .error failure a := by
        unfold placeAttributes
        simp [hp, hempty, hv]
      exact .of_error hrun (Vocabulary.local_ofPackage hv)
    | ok vocabulary =>
      have hrun : placeAttributes p builtin a = (a.sites p).forM (placeSite vocabulary) a := by
        unfold placeAttributes
        simp [hp, hempty, hv]
      have hsites := EndsLocally.forM (endsLocally_placeSite vocabulary) (a.sites p) a
      unfold Ends at hsites ⊢
      rwa [hrun]

/-! ## One contract -/

/-- Completing a contract leaves the bases alone, and fails for what the package declares. -/
def Completes (contract : NodeId) (m : Link Unit) : Prop :=
  ∀ a : Arena, (a.contract? contract).isSome →
    Ends m a (fun _ b => Firm a b) fun failure b => failure.Local ∧ Firm a b

variable {contract : Nat}

theorem Completes.bind {m : Link Unit} {f : Unit → Link Unit} (h : Completes contract m)
    (hf : ∀ x, Completes contract (f x)) : Completes contract (m >>= f) := by
  intro a hc
  refine Ends.bind (P := fun _ b => Firm a b) ((h a hc).mono (fun _ _ => id) fun _ _ => id) ?_
  exact fun x b hb => (hf x b (hb.contract contract hc)).mono (fun _ _ hd => trans_of Firm hb hd)
    fun _ _ he => ⟨he.1, trans_of Firm hb he.2⟩

theorem completes_shiftMethods (distance : UInt16) : ∀ methods : List NodeId,
    Completes contract (shiftMethods .wrapping distance methods)
  | [] => fun a _ => refl a
  | method :: rest => fun a hc => by
    have hfirm := firm_setMethodId a method (a.methodId method + distance)
    exact (completes_shiftMethods distance rest _ (hfirm.contract contract hc)).mono
      (fun _ _ hb => trans_of Firm hfirm hb) fun _ _ he => ⟨he.1, trans_of Firm hfirm he.2⟩

theorem completes_inheritMethod (offset : UInt16) (entry : String × NodeId) :
    Completes contract (inheritMethod .wrapping contract offset entry) := by
  intro a hc
  unfold Ends inheritMethod
  cases a.findMethod? contract entry.1 with
  | some existing => exact ⟨rfl, refl a⟩
  | none => exact firm_copyMethod hc ..

theorem completes_forM {α : Type} {f : α → Link Unit} (h : ∀ x, Completes contract (f x)) :
    ∀ xs : List α, Completes contract (xs.forM f)
  | [] => fun a _ => refl a
  | x :: rest => (h x).bind fun _ => completes_forM h rest

theorem completes_inheritMethods : ∀ (bases : List NodeId) (offset : UInt16),
    Completes contract (inheritMethods .wrapping contract offset bases)
  | [], _ => fun a _ => refl a
  | base :: rest, offset => by
    intro a hc
    have hbase := completes_forM (completes_inheritMethod offset) (a.methodsOf base) a hc
    unfold Ends inheritMethods
    dsimp only
    cases hm : (a.methodsOf base).forM (inheritMethod .wrapping contract offset) a with
    | error failure b => exact hbase.error hm
    | ok _ b =>
      have hb := hbase.ok hm
      exact (completes_inheritMethods rest _ b (hb.contract contract hc)).mono
        (fun _ _ hd => trans_of Firm hb hd) fun _ _ he => ⟨he.1, trans_of Firm hb he.2⟩

theorem completes_inheritAll (bases : List NodeId) :
    Completes contract (inheritAll .wrapping contract bases) := by
  have hsteps : ∀ (distance : UInt16) (own : List NodeId), Completes contract (do
      shiftMethods .wrapping distance own
      inheritMethods .wrapping contract 0 bases
      modify fun arena => arena.setFlattened contract) := fun distance own =>
    (completes_shiftMethods distance own).bind fun _ =>
      (completes_inheritMethods bases 0).bind fun _ a _ => firm_setFlattened a contract
  intro a hc
  unfold Ends inheritAll
  dsimp only
  split
  · rename_i b hrun
    split at hrun
    · cases hrun
    · exact (hsteps _ _ a hc).ok hrun
  · rename_i failure b hrun
    split at hrun
    · cases hrun
      exact ⟨rfl, refl a⟩
    · exact (hsteps _ _ a hc).error hrun

/-! ## All contracts -/

/-- The contracts are a cycle of inheritance. Each of them is reached from one of the types. -/
structure CircularBases (b : Arena) (types contracts : List NodeId) : Prop where
  closes : Closes b.Inherits contracts
  reached : ∀ x ∈ contracts, ∃ start ∈ types, ReflTransGen b.Inherits start x

/-- The failure reports no cycle, or it names the contracts of a cycle. -/
def Reports (types : List NodeId) (failure : Diagnostic) (b : Arena) : Prop :=
  failure.Plain ∨ ∃ contracts, failure.cause = .circularInheritance (contracts.map b.name) ∧
    CircularBases b types contracts

/-- Linking fails for what packages declare, among which may be a cycle. -/
structure Stops (types : List NodeId) (failure : Diagnostic) (b : Arena) : Prop where
  reports : Reports types failure b
  phase_ne : failure.cause.phase ≠ .driver

theorem Stops.of_local {types : List NodeId} (h : failure.Local) : Stops types failure b :=
  ⟨Or.inl h.plain, h.phase_ne⟩

/-- The contracts in `active` wait for the contract: each of them inherits from the next one, and all of
them are reached from the types. -/
structure Waits (types : List NodeId) (a : Arena) (active : List NodeId) (contract : NodeId) : Prop where
  nodup : active.Nodup
  chain : (active ++ [contract]).IsChain a.Inherits
  reached : ∀ x ∈ active ++ [contract], ∃ start ∈ types, ReflTransGen a.Inherits start x

namespace Waits

variable {types active : List NodeId} {contract target : Nat}

theorem start (h : contract ∈ types) : Waits types a [] contract where
  nodup := List.nodup_nil
  chain := .singleton _
  reached x hx := ⟨contract, h, by rw [List.mem_singleton.1 hx]⟩

theorem firm (h : Waits types a active contract) (hf : Firm a b) : Waits types b active contract where
  nodup := h.nodup
  chain := h.chain.imp fun _ _ => hf.inherits
  reached x hx := by
    obtain ⟨start, hs, hto⟩ := h.reached x hx
    exact ⟨start, hs, ReflTransGen.mono (fun _ _ => hf.inherits) _ _ hto⟩

/-- The contract waits for one of its bases. -/
theorem base (h : Waits types a active contract) (hw : contract ∉ active)
    (hi : a.Inherits contract target) : Waits types a (active ++ [contract]) target where
  nodup := by
    refine List.nodup_append.2 ⟨h.nodup, List.nodup_singleton _, fun x hx y hy e => ?_⟩
    rw [List.mem_singleton] at hy
    exact hw (hy ▸ e ▸ hx)
  chain := by
    refine List.IsChain.append h.chain (.singleton _) fun x hx y hy => ?_
    rw [List.getLast?_concat] at hx
    cases hx
    cases hy
    exact hi
  reached x hx := by
    rcases List.mem_append.1 hx with hx | hx
    · exact h.reached x hx
    · obtain ⟨start, hs, hto⟩ := h.reached contract (List.mem_append_right _ List.mem_cons_self)
      exact ⟨start, hs, by rw [List.mem_singleton.1 hx]; exact hto.tail hi⟩

/-- A contract that waits for itself is on a cycle. -/
theorem circular (h : Waits types a active contract) (hw : contract ∈ active) :
    CircularBases a types (active.dropWhile (· != contract) ++ [contract]) where
  closes := closes_of_waiting hw h.nodup h.chain
  reached x hx := by
    refine h.reached x ?_
    rcases List.mem_append.1 hx with hx | hx
    · exact List.mem_append_left _ ((List.dropWhile_suffix _).subset hx)
    · exact List.mem_append_right _ hx

end Waits

theorem inherits_of_baseTargets {contract : Nat} {decl : Contract} {targets : List NodeId}
    (hd : a.contract? contract = some decl) (ht : a.baseTargets decl.bases.toList = .ok targets)
    {target : Nat} (hmem : target ∈ targets) : a.Inherits contract target := by
  rcases baseTargets_cases (a := a) decl.bases.toList with ⟨targets', ht', hm, -⟩ | ⟨_, ht', -⟩
  · cases ht.symm.trans ht'
    have hs : some target ∈ targets.map some := List.mem_map.2 ⟨target, hmem, rfl⟩
    rw [← hm, ← basesOf_eq hd] at hs
    exact List.mem_map.1 hs
  · cases ht.symm.trans ht'

/-- Walking up from a contract, by induction on the room that is left for contracts that wait. -/
theorem ends_flatten (types : List NodeId) : ∀ (fuel : Nat) (active : List NodeId) (contract : Nat)
    (a : Arena), Waits types a active contract →
    Ends (flatten .wrapping fuel active contract) a (fun _ b => Firm a b) (Stops types)
  | 0, _, _, a, _ => refl a
  | fuel + 1, active, contract, a, h => by
    cases hd : a.contract? contract with
    | none => exact .of_ok (flatten_of_none hd) (refl a)
    | some decl =>
      cases hf : decl.flattened with
      | true => exact .of_ok (flatten_of_flattened hd hf) (refl a)
      | false =>
        by_cases hw : contract ∈ active
        · exact .of_error (flatten_of_waiting hd hf hw)
            ⟨Or.inr ⟨_, rfl, h.circular hw⟩, Phase.noConfusion⟩
        cases ht : a.baseTargets decl.bases.toList with
        | error failure =>
          exact .of_error (flatten_of_unbound hd hf hw ht) (.of_local (local_baseTargets ht))
        | ok targets =>
          have hbases : Ends (targets.forM (flatten .wrapping fuel (active ++ [contract]))) a
              (fun _ b => Firm a b) (Stops types) := by
            refine (Ends.forM (I := fun rest b => (∀ target ∈ rest, target ∈ targets) ∧ Firm a b)
              (fun target rest b hb => ?_) targets a ⟨fun _ => id, refl a⟩).mono (fun _ _ hb => hb.2)
              fun _ _ => id
            obtain ⟨hrest, hfirm⟩ := hb
            have hi := inherits_of_baseTargets hd ht (hrest target List.mem_cons_self)
            exact (ends_flatten types fuel _ target b ((h.base hw hi).firm hfirm)).mono
              (fun _ _ hc => ⟨fun x hx => hrest x (List.mem_cons_of_mem _ hx), trans_of Firm hfirm hc⟩)
              fun _ _ => id
          have hcontract : (a.contract? contract).isSome := by
            rw [hd]
            rfl
          have hsteps := hbases.bind fun _ b hb =>
            (completes_inheritAll targets b (hb.contract contract hcontract)).mono
            (fun _ _ hc => trans_of Firm hb hc) fun _ _ he => (.of_local he.1 : Stops types _ _)
          unfold Ends at hsteps ⊢
          rwa [flatten_of_bound hd hf hw ht]

/-- The pass as a whole. -/
theorem ends_flattenContracts (p : Nat) :
    Ends (flattenContracts p) a (fun _ b => Firm a b) (Stops (a.typesOf p)) := by
  cases hp : a.package? p with
  | none =>
    have hrun : flattenContracts p a = .ok () a := by
      unfold flattenContracts flattenContractsWith
      simp only [hp]
    exact .of_ok hrun (refl a)
  | some decl =>
    have hrun : flattenContracts p a =
        decl.types.nodes.forM (flatten .wrapping (a.size + 1) []) a := by
      unfold flattenContracts flattenContractsWith
      simp only [hp]
    have htypes : a.typesOf p = decl.types.nodes := typesOf_eq (package?_eq_some.1 hp)
    have hloop : Ends (decl.types.nodes.forM (flatten .wrapping (a.size + 1) [])) a
        (fun _ b => Firm a b) (Stops (a.typesOf p)) := by
      refine (Ends.forM (I := fun rest b => (∀ contract ∈ rest, contract ∈ a.typesOf p) ∧ Firm a b)
        (fun contract rest b ⟨hrest, hb⟩ => ?_) _ a ⟨fun _ hc => htypes ▸ hc, refl a⟩).mono
        (fun _ _ hb => hb.2) fun _ _ => id
      exact (ends_flatten _ _ _ contract b (.start (hrest contract List.mem_cons_self))).mono
        (fun _ _ hc => ⟨fun x hx => hrest x (List.mem_cons_of_mem _ hx), trans_of Firm hb hc⟩)
        fun _ _ => id
    unfold Ends at hloop ⊢
    rwa [hrun]

/-- Linking fails with a cycle of inheritance, or without reporting any cycle. -/
theorem package_error_cases {p : Nat} {builtin : Option NodeId}
    (h : Link.package p builtin a = .error failure b) : failure.Plain ∨
      ∃ c c', bindReferences p a = .ok () c' ∧ placeAttributes p (builtin.getD p) c' = .ok () c ∧
        flattenContracts p c = .error failure b ∧ Reports (c.typesOf p) failure b := by
  rcases of_bind_error h with h | ⟨_, c', hbind, h⟩
  · exact Or.inl ((endsLocally_bindReferences p a).error h).plain
  rcases of_bind_error h with h | ⟨_, c, hplace, h⟩
  · exact Or.inl ((endsLocally_placeAttributes p _ c').error h).plain
  · exact Or.inr ⟨c, c', hbind, hplace, h, ((ends_flattenContracts p).error h).reports⟩

/-- Linking does not fail for what a provider does. -/
theorem phase_ne_of_package {p : Nat} {builtin : Option NodeId}
    (h : Link.package p builtin a = .error failure b) : failure.cause.phase ≠ .driver := by
  rcases of_bind_error h with h | ⟨_, c', -, h⟩
  · exact ((endsLocally_bindReferences p a).error h).phase_ne
  rcases of_bind_error h with h | ⟨_, c, -, h⟩
  · exact ((endsLocally_placeAttributes p _ c').error h).phase_ne
  · exact ((ends_flattenContracts p).error h).phase_ne

end Link

/-! ## Packages that were read -/

namespace Arena

variable {p : Nat} {cached settled : NodeId → Prop} {builtin : Option NodeId} {types : Registry}

/-- On the way up from a contract of the package, all that leads back to itself is in the package. -/
theorem ReadyToFlatten.mem_of_cycle (h : a.ReadyToFlatten types) {start x : Nat}
    (hs : start ∈ types.nodes) (hto : ReflTransGen a.Inherits start x)
    (hcycle : TransGen a.Inherits x x) : x ∈ types.nodes := by
  induction hto using ReflTransGen.head_induction_on with
  | refl => exact hs
  | @head y base hy hrest ih =>
    by_cases hb : base ∈ types.nodes
    · exact ih hb
    · -- the base is flattened, so it does not lead to a cycle
      have hcontract : (a.contract? base).isSome := by
        obtain ⟨next, hnext, -⟩ := TransGen.head'_iff.1 (hcycle.trans_right hrest)
        exact isContract_of_inherits hnext
      exact absurd hcycle ((h.imported y hs base hy hcontract hb).acyclic x hrest)

/-- The types of a package have different names. -/
theorem Gathered.name_injective (h : Gathered p cached a) {x y : Nat} (hx : x ∈ a.typesOf p)
    (hy : y ∈ a.typesOf p) (he : a.name x = a.name y) : x = y := by
  obtain ⟨decl, hd⟩ := h.isPackage
  obtain ⟨⟨name, _⟩, hex, rfl⟩ := mem_typesOf.1 hx
  obtain ⟨⟨other, _⟩, hey, rfl⟩ := mem_typesOf.1 hy
  have hname : name = other := (h.keyed _ hex).symm.trans (he.trans (h.keyed _ hey))
  rw [typeEntries_eq hd] at hex hey
  exact congrArg Prod.snd (List.inj_on_of_nodup_map decl.types.names_nodup hex hey hname)

/-- Where linking a package that was read reports a cycle, its contracts are contracts of the package. -/
theorem Gathered.circularBases (hg : Gathered p cached a) (ha : Anchored a)
    (hs : Settled cached settled a) (hp : ¬ cached p) (hf : Finished cached a)
    (hrun : Link.package p builtin a = .error failure b) : failure.Plain ∨
      ∃ contracts, failure.cause = .circularInheritance (contracts.map b.name) ∧
        Closes b.Inherits contracts ∧ ∀ x ∈ contracts, x ∈ a.typesOf p ∧ b.name x = a.name x := by
  rcases Link.package_error_cases hrun with hplain | ⟨c, c', hbind, hplace, hflatten, hreports⟩
  · exact Or.inl hplain
  refine hreports.imp id fun ⟨contracts, hcause, hcircular⟩ =>
    ⟨contracts, hcause, hcircular.closes, ?_⟩
  obtain ⟨hbinds, hframe, hbound⟩ := hg.binds_of_ok hbind
  obtain ⟨hr, hplacing⟩ := (Scene.leads_placeAttributes (hg.placing ha hs hp hbinds hframe hbound)
    (builtin.getD p)).ok hplace
  have hcopies := (Scene.leads_flattenContracts hplacing.toHolds).error hflatten
  have hw := (hg.within_binds ha hbinds hframe).trans (hr.trans hcopies.toRearranges).within
  obtain ⟨decl, hd, hready⟩ := hg.readyToFlatten ha hs hp hf hbind hplace
  obtain ⟨decl', hd'⟩ := hg.isPackage
  -- the passes leave the types of the package alone
  have hdc : c.kind p = .package decl' :=
    ((((hg.laid ha).binds hbinds).sheds hplace).toRetagged.kind_iff (by exact (by decide : 8 ≠ 6))).2
      (hbinds.package_iff.2 hd')
  cases hd.symm.trans (package?_eq_some.2 hdc)
  intro x hx
  obtain ⟨start, hstart, hto⟩ := hcircular.reached x hx
  have hcycle := hcircular.closes.transGen hx
  rw [hcopies.toRearranges.inherits_eq] at hto hcycle
  rw [typesOf_eq hdc] at hstart
  have hmem : x ∈ a.typesOf p := typesOf_eq hd' ▸ hready.mem_of_cycle hstart hto hcycle
  exact ⟨hmem, hw.name_eq x (lt_size_of_home (hg.type_home ha hmem))⟩

end Arena

end SchemaLang
