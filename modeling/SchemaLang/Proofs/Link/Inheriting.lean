import SchemaLang.Proofs.Link.FlatNames
import SchemaLang.Proofs.Step

/-!
# Completing one contract

What `Link.inheritAll` does to a contract whose bases are flattened already. Its own methods move up
by the number of the methods it inherits, the methods of the bases are copied below it, base by base,
and then it is marked.

* `Arena.CopiedTo`: the methods of one contract grew by copies, and nothing else changed. Two such
  steps make one (`CopiedTo.append`).
* `Link.CopiesAll`: a step that copies succeeds exactly when no name is taken twice, and it does the
  same with any exact addition of ids as with one that wraps around.
* `Link.Shifted`: the ids of some methods moved up.
* `Link.inheritAll_completed`: the contract ends with its flat list under dense ids, or the flat list
  has a name twice or too many names.
-/

namespace SchemaLang

namespace Registry

theorem entries_toList_insert {registry : Registry} {name : String} (node : NodeId)
    (h : registry.find? name = none) :
    (registry.insert name node).entries.toList = registry.entries.toList ++ [(name, node)] := by
  rw [entries_insert_of_find?_eq_none node h, Array.toList_push]

end Registry

open Relation

variable {a a' b : Arena} {c n : Nat}

namespace Arena

/-! ## Reading nodes through their kind -/

theorem lt_size_of_contract {decl : Contract} (h : a.contract? c = some decl) : c < a.size := by
  rcases Nat.lt_or_ge c a.size with hc | hc
  · exact hc
  · rw [contract?_eq_some] at h
    unfold kind at h
    rw [node_of_size_le hc] at h
    cases h

theorem kind_congr (h : a'.node n = a.node n) : a'.kind n = a.kind n := by
  unfold kind
  rw [h]

theorem contract?_congr (h : a'.node n = a.node n) : a'.contract? n = a.contract? n := by
  unfold contract?
  rw [kind_congr h]

theorem method?_congr (h : a'.node n = a.node n) : a'.method? n = a.method? n := by
  unfold method?
  rw [kind_congr h]

theorem methodId_congr (h : a'.node n = a.node n) : a'.methodId n = a.methodId n := by
  unfold methodId
  rw [method?_congr h]

theorem methodId_eq {old : UInt16} {params results : Array NodeId}
    (h : a.kind n = .method ⟨old, params, results⟩) : a.methodId n = old := by
  unfold methodId
  rw [method?_eq_some.2 h]

theorem method?_isSome {decl : Method} (h : a.kind n = .method decl) : (a.method? n).isSome := by
  rw [method?_eq_some.2 h]
  rfl

theorem methodsOf_congr (h : a'.node n = a.node n) : a'.methodsOf n = a.methodsOf n := by
  unfold methodsOf
  rw [contract?_congr h]

theorem findMethod?_eq {decl : Contract} (h : a.contract? c = some decl) (name : String) :
    a.findMethod? c name = decl.methods.find? name := by
  unfold findMethod?
  rw [h]
  rfl

theorem methodCount_eq (a : Arena) (c : Nat) : a.methodCount c = (a.methodsOf c).length := by
  unfold methodCount methodsOf
  cases a.contract? c <;> rfl

/-! ## One method -/

/-- The first node is a copy of the second one below a contract, under an id of its own. -/
structure IsCopy (x y : Node) (contract : NodeId) (number : Nat) : Prop where
  parent : x.parent = some contract
  name : x.name = y.name
  attrs : x.attrs = y.attrs
  comments : x.comments = y.comments
  slots : ∃ old new params results, y.kind = .method ⟨old, params, results⟩ ∧
    x.kind = .method ⟨new, params, results⟩ ∧ new.toNat = number

/-- A method that was copied: its name and node, the id of the copy, and the node of the copy. -/
structure Copying where
  name : String
  source : NodeId
  number : Nat
  node : NodeId

/-- The methods of a contract grew by copies, and nothing else changed. -/
structure CopiedTo (a a' : Arena) (contract : NodeId) (copies : List Copying) : Prop where
  size_le : a.size ≤ a'.size
  frame : ∀ n, n < a.size → n ≠ contract → a'.node n = a.node n
  fresh : ∀ n, a.size ≤ n → n < a'.size → ∃ decl, a'.kind n = .method decl
  entry : ∃ decl decl', a.contract? contract = some decl ∧
    a'.node contract = { a.node contract with kind := .contract decl' } ∧
    decl'.bases = decl.bases ∧ decl'.flattened = decl.flattened ∧
    decl'.methods.entries.toList =
      decl.methods.entries.toList ++ copies.map fun x => (x.name, x.node)
  copied : ∀ x ∈ copies, a.size ≤ x.node ∧ x.node < a'.size ∧
    IsCopy (a'.node x.node) (a.node x.source) contract x.number

namespace CopiedTo

variable {copies copies' : List Copying}

theorem nil {decl : Contract} (h : a.contract? c = some decl) : CopiedTo a a c [] where
  size_le := Nat.le_refl _
  frame _ _ _ := rfl
  fresh n hn hn' := by omega
  entry := ⟨decl, decl, h, by rw [← contract?_eq_some.1 h]; rfl, rfl, rfl, by simp⟩
  copied x hx := by cases hx

theorem append (h : CopiedTo a b c copies) (h' : CopiedTo b a' c copies')
    (hi : ∀ x ∈ copies', x.source < a.size ∧ x.source ≠ c) (hc : c < a.size) :
    CopiedTo a a' c (copies ++ copies') where
  size_le := Nat.le_trans h.size_le h'.size_le
  frame n hn hne := by
    rw [h'.frame n (Nat.lt_of_lt_of_le hn h.size_le) hne, h.frame n hn hne]
  fresh n hn hn' := by
    rcases Nat.lt_or_ge n b.size with hb | hb
    · obtain ⟨decl, hd⟩ := h.fresh n hn hb
      have hne : n ≠ c := by omega
      exact ⟨decl, by rw [kind_congr (h'.frame n hb hne), hd]⟩
    · exact h'.fresh n hb hn'
  entry := by
    obtain ⟨decl, decl₁, hd, hn₁, hb₁, hf₁, he₁⟩ := h.entry
    obtain ⟨decl₁', decl₂, hd', hn₂, hb₂, hf₂, he₂⟩ := h'.entry
    have heq : decl₁' = decl₁ := by
      rw [contract?_eq_some] at hd'
      unfold kind at hd'
      rw [hn₁] at hd'
      exact (NodeKind.contract.inj hd').symm
    subst heq
    refine ⟨decl, decl₂, hd, by rw [hn₂, hn₁], hb₂.trans hb₁, hf₂.trans hf₁, ?_⟩
    rw [he₂, he₁, List.append_assoc, List.map_append]
  copied x hx := by
    rcases List.mem_append.1 hx with hx | hx
    · obtain ⟨h₁, h₂, h₃⟩ := h.copied x hx
      have hne : x.node ≠ c := fun e => Nat.lt_irrefl _ (Nat.lt_of_lt_of_le (e ▸ hc) h₁)
      exact ⟨h₁, Nat.lt_of_lt_of_le h₂ h'.size_le, by rw [h'.frame _ h₂ hne]; exact h₃⟩
    · obtain ⟨h₁, h₂, h₃⟩ := h'.copied x hx
      obtain ⟨hs, hne⟩ := hi x hx
      exact ⟨Nat.le_trans h.size_le h₁, h₂, by rw [← h.frame _ hs hne]; exact h₃⟩

end CopiedTo

/-- Copying a method whose name is free. -/
theorem copiedTo_copyMethod {decl : Contract} {m : Nat} {name : String} {number : UInt16}
    (hc : a.contract? c = some decl) (hm : (a.method? m).isSome) (hn : a.name m = name)
    (hfree : decl.methods.find? name = none) :
    CopiedTo a (a.copyMethod m c number).2 c [⟨name, m, number.toNat, a.size⟩] := by
  have hlt := lt_size_of_contract hc
  have hkind := contract?_eq_some.1 hc
  obtain ⟨⟨old, params, results⟩, hmd⟩ := Option.isSome_iff_exists.1 hm
  have hmk := method?_eq_some.1 hmd
  unfold kind at hkind hmk
  let grown : Contract := ⟨decl.bases, decl.methods.insert name a.size, decl.flattened⟩
  have hnode : ∀ n : Nat, (a.copyMethod m c number).2.node n =
      if n = c ∧ n < a.size + 1 then { a.node c with kind := .contract grown }
      else if n = a.size then
        { a.node m with parent := some c, kind := .method ⟨number, params, results⟩ }
      else a.node n := by
    intro n
    unfold copyMethod insertMethod
    simp only [node_updateKind, size_push, node_push, Node.mapKind_eq]
    by_cases h : n = c
    · subst h
      have h1 : n < a.size + 1 := by omega
      have h2 : n ≠ a.size := by omega
      simp only [h1, h2, true_and, if_true, if_false, hkind]
      rw [show (a.node m).name = name from hn]
      rfl
    · simp only [h, false_and, if_false]
      by_cases h' : n = a.size
      · simp only [h', if_true, hmk]
      · simp only [h', if_false]
  have hsize : (a.copyMethod m c number).2.size = a.size + 1 := by
    unfold copyMethod insertMethod
    simp
  refine ⟨by omega, ?_, ?_, ⟨decl, grown, hc, ?_, rfl, rfl, ?_⟩, ?_⟩
  · intro n hn hne
    rw [hnode, if_neg fun h => hne h.1, if_neg (by omega)]
  · intro n hn hn'
    have hne : n ≠ c := by omega
    exact ⟨⟨number, params, results⟩, by
      unfold kind
      rw [hnode, if_neg fun h => hne h.1, if_pos (by omega)]⟩
  · rw [hnode, if_pos ⟨rfl, by omega⟩]
  · exact Registry.entries_toList_insert _ hfree
  · intro x hx
    rw [List.mem_singleton] at hx
    subst hx
    have hne : ¬ (a.size = c ∧ a.size < a.size + 1) := by omega
    refine ⟨Nat.le_refl _, by rw [hsize]; exact Nat.lt_succ_self _, ?_⟩
    simp only [hnode, if_neg hne, if_true]
    exact ⟨rfl, rfl, rfl, rfl, old, number, params, results, hmk, rfl, rfl⟩

end Arena

/-! ## The methods of some bases -/

/-- The sum of two ids is right wherever it fits 16 bits. -/
def Adder.Exact (add : Adder) : Prop :=
  ∀ x y : UInt16, x.toNat + y.toNat < 65536 → add x y = .ok (x + y)

theorem Adder.exact_wrapping : Adder.wrapping.Exact := fun _ _ _ => rfl

namespace Link

open Arena

variable {add : Adder}

/-- A step that copies the methods `items` into a contract that has `names` already: it succeeds
exactly when no name is taken twice. The step `plain` is the same step with ids that wrap around, and
the two do the same. -/
def CopiesAll (step plain : Link Unit) (a : Arena) (contract : NodeId) (names : List String)
    (items : List (String × NodeId × Nat)) : Prop :=
  step a = plain a ∧
  ((∃ a' copies, plain a = .ok () a' ∧ CopiedTo a a' contract copies ∧
    copies.map (fun x => (x.name, x.source, x.number)) = items ∧
    (names ++ items.map (·.1)).Nodup) ∨
  ∃ failure a', plain a = .error failure a' ∧ ¬ (names ++ items.map (·.1)).Nodup)

/-- A method that can be copied into a contract. -/
def Copyable (a : Arena) (contract : NodeId) (entry : String × NodeId) : Prop :=
  entry.2 < a.size ∧ entry.2 ≠ contract ∧ (a.method? entry.2).isSome ∧ a.name entry.2 = entry.1

theorem Copyable.copiedTo {copies : List Copying} {entry : String × NodeId}
    (h : Copyable a c entry) (hc : CopiedTo a b c copies) :
    Copyable b c entry ∧ b.methodId entry.2 = a.methodId entry.2 := by
  obtain ⟨h₁, h₂, h₃, h₄⟩ := h
  have hn := hc.frame _ h₁ h₂
  refine ⟨⟨Nat.lt_of_lt_of_le h₁ hc.size_le, h₂, ?_, ?_⟩, methodId_congr hn⟩
  · rw [method?_congr hn]
    exact h₃
  · unfold name at *
    rw [hn]
    exact h₄

theorem names_copiedTo {copies : List Copying} {decl decl' : Contract}
    (h : CopiedTo a b c copies) (hd : a.contract? c = some decl)
    (hd' : b.contract? c = some decl') :
    decl'.methods.names = decl.methods.names ++ copies.map (·.name) := by
  obtain ⟨e, e', he, hn, -, -, hentries⟩ := h.entry
  rw [hd] at he
  cases he
  rw [contract?_eq_some] at hd'
  unfold kind at hd'
  rw [hn] at hd'
  cases hd'
  unfold Registry.names
  rw [hentries, List.map_append, List.map_map]
  rfl

theorem contract_copiedTo {copies : List Copying} (h : CopiedTo a b c copies) :
    ∃ decl, b.contract? c = some decl := by
  obtain ⟨-, decl, -, hn, -⟩ := h.entry
  exact ⟨decl, contract?_eq_some.2 (by unfold kind; rw [hn])⟩

/-- A step that goes on with another one where it succeeds. -/
def Continues (whole step next : Link Unit) (a : Arena) : Prop :=
  (∀ b, step a = .ok () b → whole a = next b) ∧
    ∀ failure b, step a = .error failure b → whole a = .error failure b

/-- Two steps that copy, one after the other. -/
theorem CopiesAll.append {step plain whole plainWhole : Link Unit} (next plainNext : Link Unit)
    {decl : Contract} {items items' : List (String × NodeId × Nat)} (hd : a.contract? c = some decl)
    (hwhole : Continues whole step next a) (hplain : Continues plainWhole plain plainNext a)
    (hsource : ∀ item ∈ items', item.2.1 < a.size ∧ item.2.1 ≠ c)
    (h : CopiesAll step plain a c decl.methods.names items)
    (h' : ∀ b copies decl', CopiedTo a b c copies → b.contract? c = some decl' →
      CopiesAll next plainNext b c decl'.methods.names items') :
    CopiesAll whole plainWhole a c decl.methods.names (items ++ items') := by
  obtain ⟨heq, ⟨b, copies, hs, hcopied, hitems, hnodup⟩ | ⟨failure, b, hs, hdup⟩⟩ := h
  · obtain ⟨decl', hd'⟩ := contract_copiedTo hcopied
    have hnames : decl'.methods.names = decl.methods.names ++ items.map (·.1) := by
      rw [names_copiedTo hcopied hd hd', ← hitems, List.map_map]
      rfl
    have hlt := lt_size_of_contract hd
    obtain ⟨heq', h'⟩ := h' b copies decl' hcopied hd'
    refine ⟨by rw [hwhole.1 b (heq.trans hs), hplain.1 b hs, heq'], ?_⟩
    rcases h' with ⟨a', copies', hn, hcopied', hitems', hnodup'⟩ | ⟨failure, a', hn, hdup⟩
    · left
      refine ⟨a', copies ++ copies', (hplain.1 b hs).trans hn,
        hcopied.append hcopied' ?_ hlt, ?_, ?_⟩
      · intro x hx
        exact hsource (x.name, x.source, x.number) (hitems' ▸ List.mem_map.2 ⟨x, hx, rfl⟩)
      · rw [List.map_append, hitems, hitems']
      · rw [List.map_append, ← List.append_assoc, ← hnames]
        exact hnodup'
    · right
      refine ⟨failure, a', (hplain.1 b hs).trans hn, ?_⟩
      rw [List.map_append, ← List.append_assoc, ← hnames]
      exact hdup
  · refine ⟨by rw [hwhole.2 _ _ (heq.trans hs), hplain.2 _ _ hs], Or.inr ?_⟩
    refine ⟨failure, b, hplain.2 failure b hs, fun hnodup => hdup ?_⟩
    rw [List.map_append, ← List.append_assoc] at hnodup
    exact (List.nodup_append.1 hnodup).1

theorem inheritMethod_copies (hadd : add.Exact) {offset : UInt16} {entry : String × NodeId}
    {decl : Contract} (hd : a.contract? c = some decl) (he : Copyable a c entry)
    (hfit : (a.methodId entry.2).toNat + offset.toNat < 65536) :
    CopiesAll (inheritMethod add c offset entry) (inheritMethod .wrapping c offset entry) a c
      decl.methods.names [(entry.1, entry.2, (a.methodId entry.2).toNat + offset.toNat)] := by
  obtain ⟨-, -, hm, hn⟩ := he
  refine ⟨by unfold inheritMethod; simp only [hadd _ _ hfit, Adder.wrapping], ?_⟩
  cases hf : decl.methods.find? entry.1 with
  | some existing =>
    right
    refine ⟨_, a, by unfold inheritMethod; simp only [findMethod?_eq hd, hf]; rfl, fun hnodup => ?_⟩
    have hfree : entry.1 ∉ decl.methods.names := fun h =>
      (List.nodup_append.1 hnodup).2.2 _ h _ (List.mem_singleton.2 rfl) rfl
    rw [Registry.find?_eq_none_iff.2 hfree] at hf
    cases hf
  | none =>
    left
    have hfree := Registry.find?_eq_none_iff.1 hf
    have hsum : (a.methodId entry.2 + offset).toNat =
        (a.methodId entry.2).toNat + offset.toNat := by
      rw [UInt16.toNat_add]
      omega
    have hcopied : CopiedTo a (a.copyMethod entry.2 c (a.methodId entry.2 + offset)).2 c _ :=
      copiedTo_copyMethod hd hm hn hf
    refine ⟨_, _, ?_, hcopied, ?_, ?_⟩
    · unfold inheritMethod
      simp only [findMethod?_eq hd, hf, Adder.wrapping]
    · simp only [List.map_cons, List.map_nil, hsum]
    · rw [List.nodup_append]
      refine ⟨decl.methods.names_nodup, List.nodup_singleton _, ?_⟩
      intro x hx y hy hxy
      rw [List.map_singleton, List.mem_singleton] at hy
      exact hfree (hy ▸ hxy ▸ hx)

/-- Copying the methods of one base. -/
theorem inheritEntries_copies (hadd : add.Exact) {offset : UInt16} :
    ∀ (entries : List (String × NodeId)) (a : Arena) (decl : Contract),
      a.contract? c = some decl → (∀ entry ∈ entries, Copyable a c entry ∧
        (a.methodId entry.2).toNat + offset.toNat < 65536) →
      CopiesAll (entries.forM (inheritMethod add c offset))
        (entries.forM (inheritMethod .wrapping c offset)) a c decl.methods.names
        (entries.map fun entry => (entry.1, entry.2, (a.methodId entry.2).toNat + offset.toNat))
  | [], a, decl, hd, _ =>
    ⟨rfl, Or.inl ⟨a, [], rfl, .nil hd, rfl, by simpa using decl.methods.names_nodup⟩⟩
  | entry :: rest, a, decl, hd, he => by
    obtain ⟨hcopy, hfit⟩ := he entry (List.mem_cons_self ..)
    have hrest : ∀ e ∈ rest, Copyable a c e ∧ (a.methodId e.2).toNat + offset.toNat < 65536 :=
      fun e h => he e (List.mem_cons_of_mem _ h)
    rw [List.map_cons, ← List.singleton_append]
    refine CopiesAll.append (rest.forM _) (rest.forM _) hd
      ⟨fun b h => forM_cons_ok rest h, fun failure b h => forM_cons_error rest h⟩
      ⟨fun b h => forM_cons_ok rest h, fun failure b h => forM_cons_error rest h⟩
      ?_ (inheritMethod_copies hadd hd hcopy hfit) ?_
    · intro item hi
      obtain ⟨e, hm, rfl⟩ := List.mem_map.1 hi
      exact ⟨(hrest e hm).1.1, (hrest e hm).1.2.1⟩
    · intro b copies decl' hcopied hd'
      have hsame : (rest.map fun e => (e.1, e.2, (a.methodId e.2).toNat + offset.toNat)) =
          rest.map fun e => (e.1, e.2, (b.methodId e.2).toNat + offset.toNat) := by
        refine List.map_congr_left fun e hm => ?_
        rw [((hrest e hm).1.copiedTo hcopied).2]
      rw [hsame]
      refine inheritEntries_copies hadd rest b decl' hd' fun e hm => ?_
      obtain ⟨h₁, h₂⟩ := (hrest e hm).1.copiedTo hcopied
      exact ⟨h₁, by rw [h₂]; exact (hrest e hm).2⟩

/-- The methods of some contracts, each with the id of its copy when the copies are numbered from
`offset` on, contract by contract. -/
def inheritedItems (a : Arena) : Nat → List NodeId → List (String × NodeId × Nat)
  | _, [] => []
  | offset, base :: rest =>
    ((a.methodsOf base).map fun entry => (entry.1, entry.2, (a.methodId entry.2).toNat + offset))
      ++ inheritedItems a (offset + (a.methodsOf base).length) rest

/-- A base whose methods can be copied into a contract: their ids are below their number. -/
def CopyableBase (a : Arena) (contract base : NodeId) : Prop :=
  base < a.size ∧ base ≠ contract ∧ ∀ entry ∈ a.methodsOf base, Copyable a contract entry ∧
    (a.methodId entry.2).toNat < (a.methodsOf base).length

theorem CopyableBase.copiedTo {copies : List Copying} {base : Nat}
    (h : CopyableBase a c base) (hc : CopiedTo a b c copies) :
    CopyableBase b c base ∧ b.methodsOf base = a.methodsOf base := by
  obtain ⟨h₁, h₂, h₃⟩ := h
  have hm := methodsOf_congr (hc.frame base h₁ h₂)
  refine ⟨⟨Nat.lt_of_lt_of_le h₁ hc.size_le, h₂, ?_⟩, hm⟩
  intro entry he
  rw [hm] at he ⊢
  obtain ⟨h₄, h₅⟩ := (h₃ entry he).1.copiedTo hc
  exact ⟨h₄, by rw [h₅]; exact (h₃ entry he).2⟩

theorem mem_inheritedItems {item : String × NodeId × Nat} :
    ∀ {bases : List NodeId} {offset : Nat}, item ∈ inheritedItems a offset bases →
      ∃ base ∈ bases, (item.1, item.2.1) ∈ a.methodsOf base
  | base :: rest, offset, h => by
    rcases List.mem_append.1 h with h | h
    · obtain ⟨entry, he, rfl⟩ := List.mem_map.1 h
      exact ⟨base, List.mem_cons_self .., he⟩
    · obtain ⟨other, ho, hm⟩ := mem_inheritedItems h
      exact ⟨other, List.mem_cons_of_mem _ ho, hm⟩

theorem inheritedItems_copiedTo {copies : List Copying} (hc : CopiedTo a b c copies) :
    ∀ (bases : List NodeId) (offset : Nat), (∀ base ∈ bases, CopyableBase a c base) →
      inheritedItems b offset bases = inheritedItems a offset bases ∧
        b.methodTotal bases = a.methodTotal bases
  | [], _, _ => ⟨rfl, rfl⟩
  | base :: rest, offset, h => by
    have hbase := h base (List.mem_cons_self ..)
    have hm := (hbase.copiedTo hc).2
    have hrest := fun o => inheritedItems_copiedTo hc rest o fun x hx =>
      h x (List.mem_cons_of_mem _ hx)
    unfold inheritedItems methodTotal
    rw [methodCount_eq, methodCount_eq, hm, (hrest _).1, (hrest 0).2]
    refine ⟨?_, rfl⟩
    congr 1
    refine List.map_congr_left fun entry he => ?_
    rw [((hbase.2.2 entry he).1.copiedTo hc).2]

/-- Copying the methods of all bases. -/
theorem inheritMethods_copies (hadd : add.Exact) :
    ∀ (bases : List NodeId) (offset : UInt16) (a : Arena) (decl : Contract),
      a.contract? c = some decl → (∀ base ∈ bases, CopyableBase a c base) →
      offset.toNat + a.methodTotal bases ≤ 65535 →
      CopiesAll (inheritMethods add c offset bases) (inheritMethods .wrapping c offset bases) a c
        decl.methods.names (inheritedItems a offset.toNat bases)
  | [], _, a, decl, hd, _, _ =>
    ⟨rfl, Or.inl ⟨a, [], rfl, .nil hd, rfl, by
      simpa [inheritedItems] using decl.methods.names_nodup⟩⟩
  | base :: rest, offset, a, decl, hd, hb, hfit => by
    have hbase := hb base (List.mem_cons_self ..)
    have hrest : ∀ x ∈ rest, CopyableBase a c x := fun x hx => hb x (List.mem_cons_of_mem _ hx)
    unfold methodTotal at hfit
    rw [methodCount_eq] at hfit
    have hlen : (UInt16.ofNat (a.methodsOf base).length).toNat = (a.methodsOf base).length :=
      UInt16.toNat_ofNat_of_lt' (show _ < 65536 by omega)
    have hsum : (offset + UInt16.ofNat (a.methodsOf base).length).toNat =
        offset.toNat + (a.methodsOf base).length := by
      rw [UInt16.toNat_add, hlen]
      omega
    have hnext := hadd offset (UInt16.ofNat (a.methodsOf base).length) (by omega)
    unfold inheritedItems
    refine CopiesAll.append
      (inheritMethods add c (offset + UInt16.ofNat (a.methodsOf base).length) rest)
      (inheritMethods .wrapping c (offset + UInt16.ofNat (a.methodsOf base).length) rest) hd
      ⟨?_, ?_⟩ ⟨?_, ?_⟩ ?_ (inheritEntries_copies hadd _ a decl hd fun entry he =>
        ⟨(hbase.2.2 entry he).1, by have := (hbase.2.2 entry he).2; omega⟩) ?_
    · intro b h
      simp only [inheritMethods, h, hnext]
    · intro failure b h
      simp only [inheritMethods, h]
    · intro b h
      simp only [inheritMethods, h, Adder.wrapping]
    · intro failure b h
      simp only [inheritMethods, h]
    · intro item hi
      obtain ⟨other, ho, hm⟩ := mem_inheritedItems hi
      exact ⟨((hrest other ho).2.2 _ hm).1.1, ((hrest other ho).2.2 _ hm).1.2.1⟩
    · intro b copies decl' hcopied hd'
      obtain ⟨hitems, htotal⟩ := inheritedItems_copiedTo hcopied rest
        (offset.toNat + (a.methodsOf base).length) hrest
      rw [← hitems, ← hsum]
      refine inheritMethods_copies hadd rest _ b decl' hd'
        (fun x hx => ((hrest x hx).copiedTo hcopied).1) ?_
      rw [htotal, hsum]
      omega

/-! ## One contract -/

/-- The ids of some methods moved up, and nothing else changed. -/
structure Shifted (a a' : Arena) (methods : List NodeId) (distance : Nat) : Prop where
  size_eq : a'.size = a.size
  frame : ∀ n, n ∉ methods → a'.node n = a.node n
  moved : ∀ m ∈ methods, ∃ old new params results, a.kind m = .method ⟨old, params, results⟩ ∧
    a'.node m = { a.node m with kind := .method ⟨new, params, results⟩ } ∧
    new.toNat = old.toNat + distance

theorem setMethodId_node {m : Nat} (number : UInt16) {old : UInt16} {params results : Array NodeId}
    (hm : a.kind m = .method ⟨old, params, results⟩) (hlt : m < a.size) (n : Nat) :
    (a.setMethodId m number).node n =
      if n = m then { a.node m with kind := .method ⟨number, params, results⟩ } else a.node n := by
  unfold setMethodId
  rw [node_updateKind]
  by_cases h : n = m
  · subst h
    unfold kind at hm
    rw [if_pos ⟨rfl, hlt⟩, if_pos rfl, Node.mapKind_eq, hm]
  · rw [if_neg fun e => h e.1, if_neg h]

theorem shiftMethods_shifted (hadd : add.Exact) {distance : UInt16} :
    ∀ (methods : List NodeId) (a : Arena), methods.Nodup →
      (∀ m ∈ methods, m < a.size ∧ (a.method? m).isSome ∧
        (a.methodId m).toNat + distance.toNat < 65536) →
      shiftMethods add distance methods a = shiftMethods .wrapping distance methods a ∧
        ∃ a', shiftMethods .wrapping distance methods a = .ok () a' ∧
          Shifted a a' methods distance.toNat
  | [], a, _, _ => ⟨rfl, a, rfl, rfl, fun _ _ => rfl, fun m hm => by cases hm⟩
  | m :: rest, a, hnodup, hm => by
    obtain ⟨hlt, hmethod, hfit⟩ := hm m (List.mem_cons_self ..)
    obtain ⟨⟨old, params, results⟩, hd⟩ := Option.isSome_iff_exists.1 hmethod
    have hkind := method?_eq_some.1 hd
    have hid : a.methodId m = old := methodId_eq hkind
    obtain ⟨hnew, hnodup⟩ := List.nodup_cons.1 hnodup
    have hnode := setMethodId_node (old + distance) hkind hlt
    have hsize : (a.setMethodId m (old + distance)).size = a.size := size_updateKind ..
    have hother : ∀ x ∈ rest, (a.setMethodId m (old + distance)).node x = a.node x := fun x hx => by
      have hne : x ≠ m := fun e => hnew (e ▸ hx)
      rw [hnode, if_neg hne]
    obtain ⟨heq, a', hrun, hshift⟩ := shiftMethods_shifted hadd rest
      (a.setMethodId m (old + distance)) hnodup fun x hx => by
        rw [hsize, method?_congr (hother x hx), methodId_congr (hother x hx)]
        exact hm x (List.mem_cons_of_mem _ hx)
    rw [hid] at hfit
    have hstep : shiftMethods .wrapping distance (m :: rest) a =
        shiftMethods .wrapping distance rest (a.setMethodId m (old + distance)) := by
      simp only [shiftMethods, hid, Adder.wrapping]
    refine ⟨?_, a', hstep.trans hrun, ?_⟩
    · rw [hstep, ← heq]
      simp only [shiftMethods, hid, hadd _ _ hfit]
    · refine ⟨hshift.size_eq.trans hsize, ?_, ?_⟩
      · intro n hn
        have hne : n ≠ m := fun e => hn (e ▸ List.mem_cons_self ..)
        rw [hshift.frame n fun h => hn (List.mem_cons_of_mem _ h), hnode, if_neg hne]
      · intro x hx
        rcases List.mem_cons.1 hx with rfl | hx
        · refine ⟨old, old + distance, params, results, hkind, ?_, ?_⟩
          · rw [hshift.frame x hnew, hnode, if_pos rfl]
          · rw [UInt16.toNat_add]
            omega
        · obtain ⟨o, k, ps, rs, h₁, h₂, h₃⟩ := hshift.moved x hx
          exact ⟨o, k, ps, rs, by rw [← kind_congr (hother x hx)]; exact h₁, by
            rw [h₂, hother x hx], h₃⟩

/-- A contract that is flattened, as a contract that inherits from it finds it. -/
structure BaseOf (a : Arena) (contract : NodeId) (part : NodeId × List String) : Prop where
  decl : ∃ decl, a.contract? part.1 = some decl
  ne : part.1 ≠ contract
  owned : a.MethodsOwned part.1
  numbers : (a.numbering part.1).Perm part.2.zipIdx

theorem length_of_numbers {base : Nat} {names : List String}
    (h : (a.numbering base).Perm names.zipIdx) : (a.methodsOf base).length = names.length := by
  have hl := h.length_eq
  unfold numbering at hl
  rwa [List.length_map, List.length_zipIdx] at hl

theorem BaseOf.copyable {part : NodeId × List String} {decl : Contract}
    (hc : a.contract? c = some decl) (h : BaseOf a c part) : CopyableBase a c part.1 := by
  obtain ⟨base, hb⟩ := h.decl
  refine ⟨lt_size_of_contract hb, h.ne, fun entry he => ?_⟩
  obtain ⟨h₁, h₂, h₃, -⟩ := h.owned entry he
  have hkind : entry.2 ≠ c := by
    intro e
    rw [e] at h₂
    obtain ⟨m, hm⟩ := Option.isSome_iff_exists.1 h₂
    rw [method?_eq_some, contract?_eq_some.1 hc] at hm
    cases hm
  refine ⟨⟨h₁, hkind, h₂, h₃⟩, ?_⟩
  have hmem : (entry.1, (a.methodId entry.2).toNat) ∈ part.2.zipIdx :=
    h.numbers.subset (List.mem_map.2 ⟨entry, he, rfl⟩)
  have hlt := List.snd_lt_of_mem_zipIdx hmem
  rw [length_of_numbers h.numbers]
  simpa using hlt

theorem methodTotal_parts : ∀ {parts : List (NodeId × List String)},
    (∀ part ∈ parts, BaseOf a c part) →
    a.methodTotal (parts.map (·.1)) = (parts.flatMap (·.2)).length
  | [], _ => rfl
  | part :: rest, h => by
    have hrest := methodTotal_parts fun x hx => h x (List.mem_cons_of_mem _ hx)
    rw [List.map_cons, List.flatMap_cons, List.length_append, ← hrest,
      ← length_of_numbers (h part (List.mem_cons_self ..)).numbers, ← methodCount_eq]
    rfl

/-- The copies of the bases' methods have the ids of the flat list of the bases. -/
theorem inheritedItems_numbers : ∀ {parts : List (NodeId × List String)} (offset : Nat),
    (∀ part ∈ parts, BaseOf a c part) →
    ((inheritedItems a offset (parts.map (·.1))).map fun item => (item.1, item.2.2)).Perm
      ((parts.flatMap (·.2)).zipIdx offset)
  | [], _, _ => .refl _
  | part :: rest, offset, h => by
    have hpart := h part (List.mem_cons_self ..)
    have hrest := inheritedItems_numbers (offset + (a.methodsOf part.1).length) fun x hx =>
      h x (List.mem_cons_of_mem _ hx)
    rw [List.map_cons, List.flatMap_cons, List.zipIdx_append]
    unfold inheritedItems
    rw [List.map_append, List.map_map, ← length_of_numbers hpart.numbers]
    refine List.Perm.append ?_ hrest
    have hshift := hpart.numbers.map (Prod.map id (· + offset))
    rw [List.map_snd_add_zipIdx_eq_zipIdx, Nat.add_zero] at hshift
    unfold numbering at hshift
    rw [List.map_map] at hshift
    exact hshift

theorem inheritedItems_names {parts : List (NodeId × List String)} (offset : Nat)
    (h : ∀ part ∈ parts, BaseOf a c part) :
    ((inheritedItems a offset (parts.map (·.1))).map (·.1)).Perm (parts.flatMap (·.2)) := by
  have hp := (inheritedItems_numbers offset h).map Prod.fst
  rw [List.zipIdx_map_fst, List.map_map] at hp
  exact hp

/-- A contract is completed: it has the methods `names` under dense ids, and what it inherits are
copies. Apart from it only its own methods changed. -/
structure Completed (a a' : Arena) (contract : NodeId) (parts : List (NodeId × List String))
    (names : List String) : Prop where
  size_le : a.size ≤ a'.size
  frame : ∀ n : Nat, n < a.size → n ≠ contract → (∀ entry ∈ a.methodsOf contract, entry.2 ≠ n) →
    a'.node n = a.node n
  methods : ∀ n : Nat, (∃ entry ∈ a.methodsOf contract, entry.2 = n) ∨ a.size ≤ n ∧ n < a'.size →
    ∃ decl, a'.kind n = .method decl
  entry : ∃ decl, a'.contract? contract = some decl ∧ decl.flattened = true ∧
    decl.bases = a.basesOf contract
  owned : a'.MethodsOwned contract
  numbers : (a'.numbering contract).Perm names.zipIdx
  origin : ∀ entry ∈ a'.methodsOf contract, entry ∈ a.methodsOf contract ∨ a.size ≤ entry.2 ∧
    ∃ part ∈ parts, ∃ source, (entry.1, source) ∈ a.methodsOf part.1 ∧
      ∃ number, IsCopy (a'.node entry.2) (a.node source) contract number

/-- Entries that are numbered in order, as a list with numbers. -/
theorem map_number_eq_zipIdx (f : NodeId → Nat) :
    ∀ (entries : List (String × NodeId)) (start : Nat),
      (∀ i entry, entries[i]? = some entry → f entry.2 = start + i) →
      (entries.map fun entry => (entry.1, f entry.2)) = (entries.map (·.1)).zipIdx start
  | [], _, _ => rfl
  | entry :: rest, start, h => by
    have hhead : f entry.2 = start := h 0 entry rfl
    have htail : ∀ i e, rest[i]? = some e → f e.2 = start + 1 + i := fun i e he => by
      rw [h (i + 1) e he]
      omega
    rw [List.map_cons, List.map_cons, List.zipIdx_cons, map_number_eq_zipIdx f rest _ htail,
      hhead]

theorem setFlattened_node {decl : Contract} (hd : a.contract? c = some decl) (n : Nat) :
    (a.setFlattened c).node n =
      if n = c then { a.node c with kind := .contract ⟨decl.bases, decl.methods, true⟩ }
      else a.node n := by
  have hlt := lt_size_of_contract hd
  rw [contract?_eq_some] at hd
  unfold kind at hd
  unfold setFlattened
  rw [node_updateKind]
  by_cases h : n = c
  · subst h
    rw [if_pos ⟨rfl, hlt⟩, if_pos rfl, Node.mapKind_eq, hd]
  · rw [if_neg fun e => h e.1, if_neg h]

/-- The methods of a contract are not the contract. -/
theorem ne_of_methodsOwned {decl : Contract} {base : Nat} (hd : a.contract? c = some decl)
    (h : a.MethodsOwned base) {entry : String × NodeId} (he : entry ∈ a.methodsOf base) :
    entry.2 ≠ c := by
  intro e
  have hm := (h entry he).2.1
  rw [e] at hm
  obtain ⟨m, hm⟩ := Option.isSome_iff_exists.1 hm
  rw [method?_eq_some, contract?_eq_some.1 hd] at hm
  cases hm

theorem nodup_methods {base : Nat} (h : a.MethodsOwned base)
    (hn : ((a.methodsOf base).map (·.1)).Nodup) : ((a.methodsOf base).map (·.2)).Nodup := by
  -- Two entries with one node have one name, since the name is that of the node.
  refine List.Nodup.of_map a.name ?_
  rw [List.map_map]
  have hsame : (a.methodsOf base).map (a.name ∘ fun entry => entry.2) =
      (a.methodsOf base).map (·.1) :=
    List.map_congr_left fun entry he => (h entry he).2.2.1
  rw [hsame]
  exact hn

/-- Moving the ids of a contract's own methods leaves its bases alone. -/
theorem BaseOf.shifted {part : NodeId × List String} {distance : Nat}
    (howned : a.MethodsOwned c) (h : BaseOf a c part)
    (hs : Shifted a b ((a.methodsOf c).map (·.2)) distance) :
    (b.node part.1 = a.node part.1 ∧
      ∀ entry ∈ a.methodsOf part.1, b.node entry.2 = a.node entry.2) ∧ BaseOf b c part := by
  obtain ⟨base, hb⟩ := h.decl
  have hnode : b.node part.1 = a.node part.1 := by
    refine hs.frame _ fun hm => ?_
    obtain ⟨entry, he, heq⟩ := List.mem_map.1 hm
    exact ne_of_methodsOwned hb howned he heq
  have hentry : ∀ entry ∈ a.methodsOf part.1, b.node entry.2 = a.node entry.2 := by
    intro entry he
    refine hs.frame _ fun hm => ?_
    obtain ⟨own, ho, heq⟩ := List.mem_map.1 hm
    have hp := (h.owned entry he).2.2.2
    rw [← heq, (howned own ho).2.2.2] at hp
    exact h.ne (Option.some.inj hp).symm
  refine ⟨⟨hnode, hentry⟩, ⟨⟨base, by rw [contract?_congr hnode]; exact hb⟩, h.ne, ?_, ?_⟩⟩
  · intro entry he
    rw [methodsOf_congr hnode] at he
    have hn := hentry entry he
    have ho := h.owned entry he
    rw [hs.size_eq, method?_congr hn, hn]
    unfold name at ho ⊢
    rw [hn]
    exact ho
  · have hsame : b.numbering part.1 = a.numbering part.1 := by
      unfold numbering
      rw [methodsOf_congr hnode]
      refine List.map_congr_left fun entry he => ?_
      rw [methodId_congr (hentry entry he)]
    rw [hsame]
    exact h.numbers

theorem inheritedItems_shifted {distance : Nat} (howned : a.MethodsOwned c)
    (hs : Shifted a b ((a.methodsOf c).map (·.2)) distance) :
    ∀ {parts : List (NodeId × List String)} (offset : Nat), (∀ part ∈ parts, BaseOf a c part) →
      inheritedItems b offset (parts.map (·.1)) = inheritedItems a offset (parts.map (·.1))
  | [], _, _ => rfl
  | part :: rest, offset, h => by
    obtain ⟨⟨hnode, hentry⟩, -⟩ := (h part (List.mem_cons_self ..)).shifted howned hs
    have hrest := fun o => inheritedItems_shifted howned hs o fun x hx =>
      h x (List.mem_cons_of_mem _ hx)
    rw [List.map_cons]
    unfold inheritedItems
    rw [methodsOf_congr hnode, hrest]
    congr 1
    refine List.map_congr_left fun entry he => ?_
    rw [methodId_congr (hentry entry he)]

section

variable {a₁ a₂ : Arena} {decl : Contract} {parts : List (NodeId × List String)}
  {copies : List Copying} (hd : a.contract? c = some decl) (howned : a.MethodsOwned c)
  (hnumbered : ∀ i entry, (a.methodsOf c)[i]? = some entry → a.methodId entry.2 = UInt16.ofNat i)
  (hparts : ∀ part ∈ parts, BaseOf a c part)
  (hshort : (parts.flatMap (·.2)).length + (a.methodsOf c).length ≤ 65535)
  (hs : Shifted a a₁ ((a.methodsOf c).map (·.2)) (parts.flatMap (·.2)).length)
  (hcopied : CopiedTo a₁ a₂ c copies)
  (hitems : copies.map (fun x => (x.name, x.source, x.number)) =
    inheritedItems a 0 (parts.map (·.1)))

include hd howned hs hcopied in
/-- The contract before it is marked: its own methods, then the copies. -/
theorem entries_of_copied : ∃ decl₂, a₂.contract? c = some decl₂ ∧ decl₂.bases = decl.bases ∧
    decl₂.methods.entries.toList =
      a.methodsOf c ++ copies.map fun x => (x.name, x.node) := by
  have hnode : a₁.node c = a.node c := hs.frame c fun hm => by
    obtain ⟨entry, he, heq⟩ := List.mem_map.1 hm
    exact ne_of_methodsOwned hd howned he heq
  obtain ⟨d, d₂, h₁, h₂, h₃, -, h₅⟩ := hcopied.entry
  rw [contract?_congr hnode, hd] at h₁
  cases h₁
  refine ⟨d₂, contract?_eq_some.2 (by unfold kind; rw [h₂]), h₃, ?_⟩
  rw [h₅, methodsOf_eq hd]

include hd howned hs hcopied in
/-- One of the contract's own methods in the end. -/
theorem own_node_of_copied {entry : String × NodeId} (he : entry ∈ a.methodsOf c) :
    ∃ old new params results, a.kind entry.2 = .method ⟨old, params, results⟩ ∧
      (a₂.setFlattened c).node entry.2 =
        { a.node entry.2 with kind := .method ⟨new, params, results⟩ } ∧
      new.toNat = old.toNat + (parts.flatMap (·.2)).length := by
  obtain ⟨decl₂, hd₂, -⟩ := entries_of_copied hd howned hs hcopied
  have hne := ne_of_methodsOwned hd howned he
  have hlt : entry.2 < a₁.size := by
    rw [hs.size_eq]
    exact (howned entry he).1
  obtain ⟨old, new, ps, rs, h₁, h₂, h₃⟩ := hs.moved entry.2 (List.mem_map.2 ⟨entry, he, rfl⟩)
  exact ⟨old, new, ps, rs, h₁, by
    rw [setFlattened_node hd₂, if_neg hne, hcopied.frame _ hlt hne, h₂], h₃⟩

include hd howned hparts hs hcopied hitems in
/-- One of the copies in the end. -/
theorem copy_node_of_copied {x : Copying} (hx : x ∈ copies) :
    x.node ≠ c ∧ a.size ≤ x.node ∧ x.node < a₂.size ∧ (∃ part ∈ parts,
      (x.name, x.source) ∈ a.methodsOf part.1 ∧ a.name x.source = x.name) ∧
      IsCopy ((a₂.setFlattened c).node x.node) (a.node x.source) c x.number := by
  obtain ⟨decl₂, hd₂, -⟩ := entries_of_copied hd howned hs hcopied
  obtain ⟨h₁, h₂, h₃⟩ := hcopied.copied x hx
  rw [hs.size_eq] at h₁
  have hlt := lt_size_of_contract hd
  have hne : x.node ≠ c := fun e => Nat.lt_irrefl _ (Nat.lt_of_lt_of_le hlt (e ▸ h₁))
  have hitem : (x.name, x.source, x.number) ∈ inheritedItems a 0 (parts.map (·.1)) := by
    rw [← hitems]
    exact List.mem_map.2 ⟨x, hx, rfl⟩
  obtain ⟨base, hb, hm⟩ := mem_inheritedItems hitem
  obtain ⟨part, hp, rfl⟩ := List.mem_map.1 hb
  have hsource := ((hparts part hp).shifted howned hs).1.2 _ hm
  refine ⟨hne, h₁, h₂, ⟨part, hp, hm, ((hparts part hp).owned _ hm).2.2.1⟩, ?_⟩
  rw [setFlattened_node hd₂, if_neg hne, ← hsource]
  exact h₃

include hd howned hnumbered hparts hshort hs hcopied hitems in
/-- The ids of the contract's methods are those of the flat list. -/
theorem numbers_of_copied : ((a₂.setFlattened c).numbering c).Perm
    (parts.flatMap (·.2) ++ decl.methods.names).zipIdx := by
  obtain ⟨decl₂, hd₂, -, hentries⟩ := entries_of_copied hd howned hs hcopied
  have hlist : (a₂.setFlattened c).methodsOf c =
      a.methodsOf c ++ copies.map fun x => (x.name, x.node) := by
    rw [methodsOf_eq (contract?_eq_some.2 (by
      unfold kind; rw [setFlattened_node hd₂, if_pos rfl])), ← hentries]
  have hown : ((a.methodsOf c).map fun entry =>
      (entry.1, ((a₂.setFlattened c).methodId entry.2).toNat)) =
        decl.methods.names.zipIdx (parts.flatMap (·.2)).length := by
    rw [map_number_eq_zipIdx (fun m => ((a₂.setFlattened c).methodId m).toNat) _
      (parts.flatMap (·.2)).length]
    · rw [methodsOf_eq hd]
      rfl
    · intro i entry he
      have hm := List.mem_of_getElem? he
      have hi : i < (a.methodsOf c).length := (List.getElem?_eq_some_iff.1 he).1
      obtain ⟨old, new, ps, rs, h₁, h₂, h₃⟩ := own_node_of_copied hd howned hs hcopied hm
      have hold : old = UInt16.ofNat i := by
        rw [← hnumbered i entry he, methodId_eq h₁]
      have hid : (a₂.setFlattened c).methodId entry.2 = new :=
        methodId_eq (by unfold kind; rw [h₂])
      rw [hid, h₃, hold, UInt16.toNat_ofNat_of_lt' (show i < 65536 by omega)]
      omega
  have hinherited : (copies.map fun x => (x.name, x.node)).map (fun entry =>
      (entry.1, ((a₂.setFlattened c).methodId entry.2).toNat)) =
        (inheritedItems a 0 (parts.map (·.1))).map fun item => (item.1, item.2.2) := by
    rw [← hitems, List.map_map, List.map_map]
    refine List.map_congr_left fun x hx => ?_
    obtain ⟨-, -, -, -, hcopy⟩ := copy_node_of_copied hd howned hparts hs hcopied hitems hx
    obtain ⟨old, new, ps, rs, -, h₂, h₃⟩ := hcopy.slots
    have hid : (a₂.setFlattened c).methodId x.node = new := methodId_eq h₂
    simp only [Function.comp, hid, h₃]
  unfold numbering
  rw [hlist, List.map_append, hown, hinherited, List.zipIdx_append, Nat.zero_add]
  exact List.perm_append_comm.trans ((inheritedItems_numbers 0 hparts).append (.refl _))

include hd howned hnumbered hparts hshort hs hcopied hitems in
theorem completed_of_copied : Completed a (a₂.setFlattened c) c parts
    (parts.flatMap (·.2) ++ decl.methods.names) := by
  obtain ⟨decl₂, hd₂, hbases, hentries⟩ := entries_of_copied hd howned hs hcopied
  have hsize : (a₂.setFlattened c).size = a₂.size := size_updateKind ..
  have hle : a.size ≤ a₂.size := hs.size_eq ▸ hcopied.size_le
  have hcontract : (a₂.setFlattened c).contract? c = some ⟨decl₂.bases, decl₂.methods, true⟩ :=
    contract?_eq_some.2 (by unfold kind; rw [setFlattened_node hd₂, if_pos rfl])
  have hlist : (a₂.setFlattened c).methodsOf c =
      a.methodsOf c ++ copies.map fun x => (x.name, x.node) := by
    rw [methodsOf_eq hcontract, ← hentries]
  refine ⟨by omega, ?_, ?_, ⟨_, hcontract, rfl, by rw [basesOf_eq hd]; exact hbases⟩, ?_,
    numbers_of_copied hd howned hnumbered hparts hshort hs hcopied hitems, ?_⟩
  · intro n hn hne hown
    rw [setFlattened_node hd₂, if_neg hne, hcopied.frame n (by rw [hs.size_eq]; exact hn) hne]
    refine hs.frame n fun hm => ?_
    obtain ⟨entry, he, heq⟩ := List.mem_map.1 hm
    exact hown entry he heq
  · rintro n (⟨entry, he, rfl⟩ | ⟨hn, hn'⟩)
    · obtain ⟨old, new, ps, rs, -, h₂, -⟩ := own_node_of_copied hd howned hs hcopied he
      exact ⟨_, by unfold kind; rw [h₂]⟩
    · have hlt := lt_size_of_contract hd
      have hne : n ≠ c := by omega
      obtain ⟨m, hm⟩ := hcopied.fresh n (by rw [hs.size_eq]; exact hn) (hsize ▸ hn')
      exact ⟨m, by unfold kind at *; rw [setFlattened_node hd₂, if_neg hne]; exact hm⟩
  · intro entry he
    rw [hlist] at he
    rcases List.mem_append.1 he with he | he
    · obtain ⟨old, new, ps, rs, -, h₂, -⟩ := own_node_of_copied hd howned hs hcopied he
      obtain ⟨h₃, -, h₄, h₅⟩ := howned entry he
      refine ⟨?_, method?_isSome (by unfold kind; rw [h₂]), ?_, ?_⟩
      · rw [hsize]
        exact Nat.lt_of_lt_of_le h₃ hle
      · unfold name at *
        rw [h₂]
        exact h₄
      · rw [h₂]
        exact h₅
    · obtain ⟨x, hx, rfl⟩ := List.mem_map.1 he
      obtain ⟨-, -, hlt, ⟨part, -, -, hname⟩, hcopy⟩ :=
        copy_node_of_copied hd howned hparts hs hcopied hitems hx
      obtain ⟨old, new, ps, rs, -, h₂, -⟩ := hcopy.slots
      refine ⟨by rw [hsize]; exact hlt, method?_isSome h₂, ?_, hcopy.parent⟩
      · unfold name at *
        rw [hcopy.name]
        exact hname
  · intro entry he
    rw [hlist] at he
    rcases List.mem_append.1 he with he | he
    · exact Or.inl he
    · obtain ⟨x, hx, rfl⟩ := List.mem_map.1 he
      obtain ⟨-, hle, -, ⟨part, hp, hm, -⟩, hcopy⟩ :=
        copy_node_of_copied hd howned hparts hs hcopied hitems hx
      exact Or.inr ⟨hle, part, hp, x.source, hm, x.number, hcopy⟩

end

/-- The own methods of a contract can be moved by the number of the methods it inherits. -/
theorem shiftOwn_shifted (hadd : add.Exact) {distance : Nat} {decl : Contract}
    (hd : a.contract? c = some decl) (howned : a.MethodsOwned c)
    (hnumbered : ∀ i entry, (a.methodsOf c)[i]? = some entry →
      a.methodId entry.2 = UInt16.ofNat i)
    (hshort : distance + (a.methodsOf c).length ≤ 65535) :
    shiftMethods add (UInt16.ofNat distance) ((a.methodsOf c).map (·.2)) a =
        shiftMethods .wrapping (UInt16.ofNat distance) ((a.methodsOf c).map (·.2)) a ∧
      ∃ a', shiftMethods .wrapping (UInt16.ofNat distance) ((a.methodsOf c).map (·.2)) a =
          .ok () a' ∧ Shifted a a' ((a.methodsOf c).map (·.2)) distance := by
  have hnodup : ((a.methodsOf c).map (·.2)).Nodup := by
    refine nodup_methods howned ?_
    rw [methodsOf_eq hd]
    exact decl.methods.names_nodup
  have hdistance : (UInt16.ofNat distance).toNat = distance :=
    UInt16.toNat_ofNat_of_lt' (show distance < 65536 by omega)
  have hfit : ∀ m ∈ (a.methodsOf c).map (·.2), m < a.size ∧ (a.method? m).isSome ∧
      (a.methodId m).toNat + (UInt16.ofNat distance).toNat < 65536 := by
    intro m hm
    obtain ⟨entry, he, rfl⟩ := List.mem_map.1 hm
    obtain ⟨i, hi⟩ := List.getElem?_of_mem he
    have hlt : i < (a.methodsOf c).length := (List.getElem?_eq_some_iff.1 hi).1
    refine ⟨(howned entry he).1, (howned entry he).2.1, ?_⟩
    rw [hnumbered i entry hi, hdistance, UInt16.toNat_ofNat_of_lt' (show i < 65536 by omega)]
    omega
  have h := shiftMethods_shifted hadd _ a hnodup hfit
  rwa [hdistance] at h

/-- Completing a contract whose bases are flattened: it succeeds exactly when the flat list has no
name twice and not too many names. -/
theorem inheritAll_completed (hadd : add.Exact) {decl : Contract}
    {parts : List (NodeId × List String)} {names : List String} (hd : a.contract? c = some decl)
    (howned : a.MethodsOwned c)
    (hnumbered : ∀ i entry, (a.methodsOf c)[i]? = some entry →
      a.methodId entry.2 = UInt16.ofNat i)
    (hparts : ∀ part ∈ parts, BaseOf a c part)
    (hnames : names = parts.flatMap (·.2) ++ decl.methods.names) :
    inheritAll add c (parts.map (·.1)) a = inheritAll .wrapping c (parts.map (·.1)) a ∧
    ((∃ a', inheritAll .wrapping c (parts.map (·.1)) a = .ok () a' ∧
        Completed a a' c parts names ∧ names.Nodup ∧ names.length ≤ 65535) ∨
      ∃ failure a', inheritAll .wrapping c (parts.map (·.1)) a = .error failure a' ∧
        ¬ (names.Nodup ∧ names.length ≤ 65535)) := by
  have htotal := methodTotal_parts hparts
  have hown : (a.methodsOf c).length = decl.methods.names.length := by
    rw [methodsOf_eq hd]
    exact (List.length_map _).symm
  have hlength : names.length = (parts.flatMap (·.2)).length + (a.methodsOf c).length := by
    rw [hnames, List.length_append, hown]
  unfold inheritAll
  simp only [htotal]
  by_cases hlong : 65535 < (parts.flatMap (·.2)).length + (a.methodsOf c).length
  · simp only [if_pos hlong]
    exact ⟨trivial, Or.inr ⟨_, _, rfl, fun h => by omega⟩⟩
  simp only [if_neg hlong]
  have hshort := Nat.le_of_not_lt hlong
  obtain ⟨hsame, a₁, hrun, hs⟩ := shiftOwn_shifted hadd hd howned hnumbered hshort
  have hd₁ : a₁.contract? c = some decl := by
    have hnode : a₁.node c = a.node c := hs.frame c fun hm => by
      obtain ⟨entry, he, heq⟩ := List.mem_map.1 hm
      exact ne_of_methodsOwned hd howned he heq
    rw [contract?_congr hnode, hd]
  have hparts₁ : ∀ part ∈ parts, BaseOf a₁ c part := fun part hp =>
    ((hparts part hp).shifted howned hs).2
  obtain ⟨hsame', hcopies⟩ := inheritMethods_copies hadd (parts.map (·.1)) 0 a₁ decl hd₁
    (fun base hb => by
      obtain ⟨part, hp, rfl⟩ := List.mem_map.1 hb
      exact (hparts₁ part hp).copyable hd₁)
    (by rw [methodTotal_parts hparts₁, UInt16.toNat_zero]; omega)
  have hitems := inheritedItems_shifted howned hs 0 hparts
  have hnodup : (decl.methods.names ++ (inheritedItems a 0 (parts.map (·.1))).map (·.1)).Nodup ↔
      names.Nodup := by
    rw [hnames]
    refine List.Perm.nodup_iff (List.perm_append_comm.trans ?_)
    exact (inheritedItems_names 0 hparts).append (.refl _)
  rw [UInt16.toNat_zero, hitems, hnodup] at hcopies
  rcases hcopies with ⟨a₂, copies, hrun', hcopied, heq, hn⟩ | ⟨failure, a₂, hrun', hn⟩
  · refine ⟨?_, Or.inl ⟨a₂.setFlattened c, ?_, ?_, hn, by omega⟩⟩
    · rw [bind_ok (hsame.trans hrun), bind_ok hrun, bind_ok (hsame'.trans hrun'), bind_ok hrun']
    · rw [bind_ok hrun, bind_ok hrun']
      rfl
    · rw [hnames]
      exact completed_of_copied hd howned hnumbered hparts hshort hs hcopied heq
  · refine ⟨?_, Or.inr ⟨failure, a₂, ?_, fun h => hn h.1⟩⟩
    · rw [bind_ok (hsame.trans hrun), bind_ok hrun, bind_error (hsame'.trans hrun'),
        bind_error hrun']
    · rw [bind_ok hrun, bind_error hrun']

end Link

end SchemaLang
