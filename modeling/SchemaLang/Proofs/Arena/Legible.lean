import SchemaLang.Outline
import SchemaLang.Proofs.Arena.Edits

/-!
# Legible arenas

What is written on the nodes of an arena stands on one line, and the slots of methods are numbered by their
places (`Arena.Legible`). Every edit keeps that (`Edits.legible`).

* `Legible.slots`: the ids and the names of the slots of a method.
* `Legible.lineText`: the text of a node in an outline is one line, which no blank starts.
-/

namespace SchemaLang.Arena

open Text

variable {a b c : Arena} {n m : NodeId} {name : String} {kind kind' : NodeKind}

/-- What is written on the nodes is as it should be. -/
def Legible (a : Arena) : Prop :=
  ∀ n, a.Inscribed (a.name n) (a.kind n)

/-! ## Edits keep arenas legible -/

/-- The older nodes have the same names, and slots stay slots. -/
structure Retains (a b : Arena) : Prop where
  size_le : a.size ≤ b.size
  name_eq : ∀ n : Nat, n < a.size → b.name n = a.name n
  slot : ∀ (n : NodeId) (place : Nat), a.IsSlot n place → b.IsSlot n place

theorem Inscribed.retain (hr : a.Retains b) (h : a.Inscribed name kind) : b.Inscribed name kind := by
  have hslots : ∀ {slots : Array NodeId}, a.Numbered slots → b.Numbered slots :=
    fun hs i hi => hr.slot _ _ (hs i hi)
  cases kind with
  | packageRef package =>
    obtain ⟨hname, hlt, hpackage⟩ := h
    exact ⟨hname, Nat.lt_of_lt_of_le hlt hr.size_le, (hr.name_eq package hlt).symm ▸ hpackage⟩
  | method decl => exact ⟨h.1, hslots h.2.1, hslots h.2.2⟩
  | _ => exact h

theorem numbered_push {slots : Array NodeId} {slot : NodeId} (h : a.Numbered slots)
    (hs : a.IsSlot slot slots.size) : a.Numbered (slots.push slot) := by
  intro i hi
  rw [Array.getElem_push]
  split
  · exact h i _
  · rename_i hlt
    rw [Array.size_push] at hi
    rwa [show i = slots.size by omega]

theorem Inscribed.revise (hr : a.Revises kind kind') (h : a.Inscribed name kind) :
    a.Inscribed name kind' := by
  cases hr with
  | label hlabel items item =>
    refine ⟨h.1, fun label hmem => ?_⟩
    rcases Registry.mem_names_insert hmem with rfl | hmem
    · exact hlabel
    · exact h.2 label hmem
  | param hslot => exact ⟨h.1, numbered_push h.2.1 hslot, h.2.2⟩
  | result hslot => exact ⟨h.1, h.2.1, numbered_push h.2.2 hslot⟩
  | _ => exact h

theorem IsSlot.revise {place : Nat} (hr : a.Revises (a.kind n) kind) (h : a.IsSlot n place) :
    ∃ type, kind = .param ⟨UInt16.ofNat place, type⟩ := by
  obtain ⟨type, hkind⟩ := h
  rw [hkind] at hr
  cases hr
  exact ⟨type, rfl⟩

theorem IsSlot.lt_size {place : Nat} (h : a.IsSlot n place) : n < a.size := by
  refine Nat.lt_of_not_le fun hn => ?_
  obtain ⟨type, hkind⟩ := h
  unfold Arena.kind at hkind
  rw [node_of_size_le hn] at hkind
  cases hkind

theorem retains_push (a : Arena) (x : Node) : a.Retains (a.push x).2 := by
  have hnode : ∀ n : Nat, n < a.size → (a.push x).2.node n = a.node n := fun n hn => by
    rw [node_push, if_neg (Nat.ne_of_lt hn)]
  refine ⟨by rw [size_push]; exact Nat.le_succ _, fun n hn => congrArg Node.name (hnode n hn), ?_⟩
  intro n place h
  obtain ⟨type, hkind⟩ := id h
  exact ⟨type, (congrArg Node.kind (hnode n h.lt_size)).trans hkind⟩

theorem Edit.retains (h : Edit a b) : a.Retains b := by
  cases h with
  | add => exact retains_push ..
  | copy => exact retains_push ..
  | change n hname hkind =>
    rename_i f
    refine ⟨Nat.le_of_eq (size_update a n f).symm, fun m hm => ?_, fun m place hm => ?_⟩
    · unfold name
      rw [node_update]
      split
      · rename_i he
        rw [he.1]
        exact hname
      · rfl
    · by_cases he : m = n ∧ m < a.size
      · obtain ⟨type, ht⟩ := (he.1 ▸ hm).revise hkind
        refine ⟨type, ?_⟩
        unfold Arena.kind
        rw [he.1, node_update_self (he.1 ▸ he.2)]
        exact ht
      · obtain ⟨type, ht⟩ := hm
        refine ⟨type, ?_⟩
        unfold Arena.kind
        rw [node_update, if_neg he]
        exact ht

/-- Every edit keeps an arena legible. -/
theorem Edit.legible (h : Edit a b) (ha : Legible a) : Legible b := by
  have hretains := h.retains
  intro n
  refine Inscribed.retain hretains ?_
  cases h with
  | add name script position kind hnew =>
    unfold Arena.name Arena.kind
    rw [node_alloc]
    split
    · exact hnew
    · exact ha n
  | copy m hname hkind =>
    unfold Arena.name Arena.kind
    rw [node_push]
    split
    · rw [hname]
      exact (ha m).revise hkind
    · exact ha n
  | change m hname hkind =>
    unfold Arena.name Arena.kind
    rw [node_update]
    split
    · rename_i he
      rw [he.1, hname]
      exact (ha m).revise hkind
    · exact ha n

theorem Edits.legible (h : a.Edits b) (ha : Legible a) : Legible b :=
  h.keep (fun _ _ hedit => hedit.legible) ha

theorem legible_empty : Legible empty := by
  intro n
  have hnode : empty.node n = default := node_of_size_le (Nat.zero_le n)
  unfold Arena.name Arena.kind
  rw [hnode]
  exact (by decide : Unbroken "")

/-! ## What legible arenas show -/

/-- The slots of a method have their places for their ids, and are called after them. -/
theorem Legible.slots (h : Legible a) {decl : Method} (hm : a.method? m = some decl) :
    ∀ slots ∈ [decl.params, decl.results], ∀ (i : Nat) (hi : i < slots.size),
      (∃ type, a.kind slots[i] = .param ⟨UInt16.ofNat i, type⟩) ∧
        a.name slots[i] = "arg" ++ toString (UInt16.ofNat i).toNat := by
  have hmethod := h m
  rw [method?_eq_some.1 hm] at hmethod
  have hslot : ∀ slots : Array NodeId, a.Numbered slots → ∀ (i : Nat) (hi : i < slots.size),
      (∃ type, a.kind slots[i] = .param ⟨UInt16.ofNat i, type⟩) ∧
        a.name slots[i] = "arg" ++ toString (UInt16.ofNat i).toNat := fun slots hs i hi => by
    obtain ⟨type, hkind⟩ := hs i hi
    have hname := h slots[i]
    rw [hkind] at hname
    exact ⟨⟨type, hkind⟩, hname⟩
  intro slots hslots
  rcases List.mem_cons.1 hslots with rfl | hslots
  · exact hslot _ hmethod.2.1
  · rw [List.mem_singleton.1 hslots]
    exact hslot _ hmethod.2.2

/-- The text of a node is one line, if the names of packages and scripts are. -/
theorem Legible.lineText (h : Legible a)
    (hname : (a.package? n).isSome ∨ (a.script? n).isSome → Unbroken (a.name n))
    (htarget : ∀ reference target, a.kind n = .typeRef reference → reference.target = some target →
      Unbroken ((a.packageName? target).getD "") ∧ Unbroken (a.name target)) :
    IsLine (a.lineText n) := by
  have hline : ∀ {s t : String}, IsLine s → s ≠ "" → Unbroken t → IsLine (s ++ t) := IsLine.append
  have hn := h n
  unfold Arena.package? Arena.script? at hname
  unfold Arena.lineText
  dsimp only
  simp only [String.append_assoc]
  cases hkind : a.kind n <;> rw [hkind] at hn hname
  case package decl => exact hline (by decide) (by decide) (hname (Or.inl rfl))
  case script decl => exact hline (by decide) (by decide) (hname (Or.inr rfl))
  case packageRef package =>
    exact hline (by decide) (by decide) (by simp [hn.1, hn.2.2]; decide)
  case typeRef reference =>
    refine hline (by decide) (by decide) ?_
    simp only [unbroken_append]
    refine ⟨unbroken_intercalate (by decide) hn.2, by decide, ?_⟩
    unfold targetText
    split
    · rename_i target ht
      obtain ⟨hpackage, htype⟩ := htarget reference target hkind ht
      simp only [unbroken_append]
      exact ⟨⟨hpackage, by decide⟩, htype⟩
    · decide
  case enumValue value =>
    exact hn.2.isLine.append hn.1 (unbroken_append.2 ⟨by decide, (solid_int _).unbroken⟩)
  case enum decl =>
    refine hline (by decide) (by decide) ?_
    simp only [unbroken_append]
    exact ⟨hn, by decide, (solid_nat _).unbroken, by decide, by split <;> decide, by decide,
      by split <;> decide⟩
  case table decl =>
    dsimp only
    split
    · exact hline (by decide) (by decide) hn
    · exact hline (by decide) (by decide) hn
  case field decl =>
    refine hline (by decide) (by decide) ?_
    simp only [unbroken_append]
    exact ⟨hn, by decide, (solid_nat _).unbroken⟩
  case contract decl => exact hline (by decide) (by decide) hn
  case method decl =>
    refine hline (by decide) (by decide) ?_
    simp only [unbroken_append]
    exact ⟨hn.1, by decide, (solid_nat _).unbroken⟩
  case param decl => exact hline (by decide) (by decide) (solid_nat _).unbroken
  case attr decl => exact hline (by decide) (by decide) hn
  case args items => exact (by decide : IsLine "args")
  case namedArgs items =>
    exact hline (by decide) (by decide) (unbroken_intercalate (by decide) hn.2)
  case string value => exact isLine_quoted value
  case int value => exact (solid_int _).isLine
  case float value => exact (DecimalStyle.solid_outline value).isLine
  case bool value =>
    show IsLine (if value then "true" else "false")
    cases value <;> decide
  case array length element =>
    refine hline (by decide) (by decide) ?_
    simp only [unbroken_append]
    exact ⟨(solid_nat _).unbroken, by decide⟩
  case list element => exact (by decide : IsLine "list")
  case map key value => exact (by decide : IsLine "map")
  case union left right => exact (by decide : IsLine "|")

end SchemaLang.Arena
