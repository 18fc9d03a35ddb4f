import Mathlib.Data.List.Induction
import SchemaLang.Proofs.Arena.Edits
import SchemaLang.Proofs.Grammar.Phrases
import SchemaLang.Proofs.Link.Editing
import SchemaLang.Proofs.Link.Masks

/-!
# Constant arguments

An argument `e1 | e2 | ... | en` is read to a chain of unions over its operands, and stays one whatever is
done to the arena afterwards (`Arena.Chain.edits`). Its value is the union of the values of the operands,
which are evaluated from the left.

* `Chain.evalConst_eq`: evaluating a chain is evaluating its operands in order.
* `Chain.evalConst_eq_ok`, `Chain.evalConst_eq_error`: the value of a chain, and the failure of its leftmost
  operand that is no constant.
* `unite_congr`: the order of the values, and how often they occur, make no difference.
* `argument_folds`: reading an argument and evaluating what was read.
-/

namespace SchemaLang

open Arena Phrase

/-! ## Unions of values -/

/-- The bitwise union of values. -/
def unite (values : List Int64) : Int64 :=
  values.foldl (· ||| ·) 0

theorem unite_concat (values : List Int64) (value : Int64) :
    unite (values ++ [value]) = unite values ||| value := by
  simp [unite]

/-- A bit is set where it is set in one of the values. -/
theorem getLsbD_unite (values : List Int64) (i : Nat) :
    (unite values).toBitVec.getLsbD i = values.any fun value => value.toBitVec.getLsbD i := by
  induction values using List.reverseRecOn with
  | nil => simp [unite]
  | append_singleton values value ih => simp [unite_concat, ih]

theorem unite_congr {xs ys : List Int64} (h : ∀ value, value ∈ xs ↔ value ∈ ys) :
    unite xs = unite ys := by
  refine Int64.toBitVec_inj.1 (BitVec.eq_of_getLsbD_eq fun i _ => ?_)
  rw [getLsbD_unite, getLsbD_unite, Bool.eq_iff_iff, List.any_eq_true, List.any_eq_true]
  simp only [h]

/-! ## One operand after another -/

section

variable {α β ε : Type} {f : α → Except ε β} {xs : List α}

theorem mapM_eq_ok {ys : List β} : xs.mapM f = .ok ys ↔ List.Forall₂ (fun x y => f x = .ok y) xs ys := by
  induction xs generalizing ys with
  | nil =>
    rw [List.forall₂_nil_left_iff, List.mapM_nil]
    exact ⟨fun h => (Except.ok.inj h).symm, fun h => congrArg _ h.symm⟩
  | cons x xs ih =>
    rw [List.forall₂_cons_left_iff, List.mapM_cons, except_bind_eq_ok]
    simp only [except_bind_eq_ok, ih]
    constructor
    · rintro ⟨y, hy, rest, hrest, h⟩
      cases h
      exact ⟨y, rest, hy, hrest, rfl⟩
    · rintro ⟨y, rest, hy, hrest, rfl⟩
      exact ⟨y, hy, rest, hrest, rfl⟩

/-- The failure is that of the first element that fails. -/
theorem mapM_eq_error {e : ε} : xs.mapM f = .error e ↔ ∃ before x after, xs = before ++ x :: after ∧
    (∀ x ∈ before, ∃ y, f x = .ok y) ∧ f x = .error e := by
  induction xs with
  | nil =>
    rw [List.mapM_nil]
    constructor
    · nofun
    · rintro ⟨before, x, after, h, -⟩
      simp at h
  | cons x xs ih =>
    rw [List.mapM_cons]
    cases hx : f x with
    | error e' =>
      constructor
      · intro h
        cases h
        exact ⟨[], x, xs, rfl, by simp, hx⟩
      · rintro ⟨_ | ⟨x', before⟩, y, after, hsplit, hbefore, hy⟩
        · cases hsplit
          rw [hx] at hy
          exact congrArg _ (Except.error.inj hy)
        · cases hsplit
          obtain ⟨value, hvalue⟩ := hbefore x (List.mem_cons_self ..)
          cases hx.symm.trans hvalue
    | ok y =>
      have hrun : (do let y ← Except.ok (ε := ε) y; let ys ← xs.mapM f; pure (y :: ys)) = .error e ↔
          xs.mapM f = .error e := by
        cases xs.mapM f with
        | ok ys => exact ⟨nofun, nofun⟩
        | error e' => exact Iff.rfl
      rw [hrun, ih]
      constructor
      · rintro ⟨before, z, after, rfl, hbefore, hz⟩
        exact ⟨x :: before, z, after, rfl, List.forall_mem_cons.2 ⟨⟨y, hx⟩, hbefore⟩, hz⟩
      · rintro ⟨_ | ⟨x', before⟩, z, after, hsplit, hbefore, hz⟩
        · cases hsplit
          cases hx.symm.trans hz
        · cases hsplit
          exact ⟨before, z, after, rfl, (List.forall_mem_cons.1 hbefore).2, hz⟩

end

/-- The kinds of operands: literals and references. -/
def NodeKind.IsOperand : NodeKind → Prop
  | typeRef _ | string _ | int _ | float _ | bool _ => True
  | _ => False

theorem Phrase.Operand.isOperand_kind (x : Phrase.Operand) (target : Option NodeId) :
    (x.kind target).IsOperand := by
  rcases x with ⟨_ | _⟩ | _ | _ | ⟨_, _ | _⟩ | _ <;> trivial

namespace Arena

variable {a b : Arena} {leaves unions : List NodeId} {leaf n : Nat} {value : Int64}
  {failure : Diagnostic}

/-- There is one union less than there are operands. -/
theorem Chain.length_eq (h : a.Chain leaves unions n) : leaves.length = unions.length + 1 := by
  induction h with
  | operand => rfl
  | union _ _ _ _ ih => rw [List.length_append, List.length_append, ih]; rfl

/-- A single operand is its chain. -/
theorem Chain.eq_of_singleton (h : a.Chain [leaf] unions n) : n = leaf := by
  have hlength := h.length_eq
  generalize hleaves : [leaf] = leaves at h hlength
  cases h with
  | operand => exact (List.cons.inj hleaves).1.symm
  | union =>
    rw [← hleaves, List.length_append, List.length_singleton, List.length_singleton] at hlength
    omega

/-! ## The value of an operand -/

/-- The value of an operand: of an integer, or of the enum value that a reference is bound to. -/
inductive Constant (a : Arena) (leaf : NodeId) : Int64 → Prop
  | int {value : Int64} (h : a.kind leaf = .int value) : Constant a leaf value
  | enumValue {path : List String} {target : NodeId} {value : Int64}
    (h : a.kind leaf = .typeRef ⟨path, some target⟩) (htarget : a.kind target = .enumValue value) :
    Constant a leaf value

theorem Constant.unique {value value' : Int64} (h : a.Constant leaf value) (h' : a.Constant leaf value') :
    value = value' := by
  cases h with
  | int hk =>
    cases h' with
    | int hk' =>
      cases hk.symm.trans hk'
      rfl
    | enumValue hk' => cases hk.symm.trans hk'
  | enumValue hk htarget =>
    cases h' with
    | int hk' => cases hk.symm.trans hk'
    | enumValue hk' htarget' =>
      cases hk.symm.trans hk'
      cases htarget.symm.trans htarget'
      rfl

/-- Why an operand is no constant: it is another literal, a reference that is not bound, or one to something
else than an enum value. -/
inductive Offends (a : Arena) (leaf : NodeId) : Diagnostic → Prop
  | literal (h : (a.kind leaf).IsOperand) (hint : ∀ value, a.kind leaf ≠ .int value)
    (href : ∀ reference, a.kind leaf ≠ .typeRef reference) :
    Offends a leaf ⟨.notConstant (a.kind leaf).describe, a.position leaf⟩
  | unbound {path : List String} (h : a.kind leaf = .typeRef ⟨path, none⟩) :
    Offends a leaf ⟨.unknownType (String.intercalate "." path), a.position leaf⟩
  | bound {path : List String} {target : NodeId} (h : a.kind leaf = .typeRef ⟨path, some target⟩)
    (htarget : ∀ value, a.kind target ≠ .enumValue value) :
    Offends a leaf ⟨.notConstant (a.kind target).describe, a.position leaf⟩

/-- An operand is evaluated at once. -/
theorem evalWithin_operand (h : (a.kind leaf).IsOperand) (fuel : Nat) :
    a.evalWithin (fuel + 1) leaf = a.evalWithin 1 leaf := by
  unfold evalWithin
  split
  · rfl
  · rfl
  · rfl
  · rename_i hk
    rw [hk] at h
    exact h.elim
  · rfl

theorem evalWithin_eq_ok (h : (a.kind leaf).IsOperand) :
    a.evalWithin 1 leaf = .ok value ↔ a.Constant leaf value := by
  constructor
  · intro heval
    cases evaluates_of_evalWithin 1 heval with
    | int hk => exact .int hk
    | enumValue hk => rw [hk] at h; exact h.elim
    | reference hk htarget => exact .enumValue hk htarget
    | union hk => rw [hk] at h; exact h.elim
  · rintro (hk | ⟨hk, htarget⟩)
    · simp only [evalWithin, hk]
    · simp only [evalWithin, hk, enumValue?_eq_some.2 htarget]

theorem evalWithin_eq_error (h : (a.kind leaf).IsOperand) :
    a.evalWithin 1 leaf = .error failure ↔ a.Offends leaf failure := by
  constructor
  · intro heval
    unfold evalWithin at heval
    split at heval
    · cases heval
    · cases heval
    · rename_i reference hk
      obtain ⟨path, target⟩ := reference
      split at heval
      · rename_i hnone
        cases hnone
        cases heval
        exact .unbound hk
      · rename_i hsome
        cases hsome
        split at heval
        · cases heval
        · rename_i hnone
          cases heval
          refine .bound hk fun value htarget => ?_
          rw [enumValue?_eq_some.2 htarget] at hnone
          cases hnone
    · rename_i hk
      rw [hk] at h
      exact h.elim
    · rename_i hint _ href _
      cases heval
      exact .literal h hint href
  · intro hoffends
    unfold evalWithin
    cases hoffends with
    | literal _ hint href =>
      split
      · rename_i hk
        exact absurd hk (hint _)
      · rename_i hk
        rw [hk] at h
        exact h.elim
      · rename_i hk
        exact absurd hk (href _)
      · rename_i hk
        rw [hk] at h
        exact h.elim
      · rfl
    | unbound hk =>
      rw [hk]
      rfl
    | bound hk htarget =>
      rw [hk]
      dsimp only
      split
      · rename_i hsome
        exact absurd (enumValue?_eq_some.1 hsome) (htarget _)
      · rfl

/-! ## The value of a chain -/

/-- Evaluating a chain is evaluating its operands in order. -/
theorem Chain.evalWithin_eq (h : a.Chain leaves unions n)
    (hleaves : ∀ leaf ∈ leaves, a.HasKind leaf NodeKind.IsOperand) {fuel : Nat} (hfuel : n < fuel) :
    a.evalWithin fuel n = unite <$> leaves.mapM (a.evalWithin 1) := by
  induction h generalizing fuel with
  | operand n =>
    obtain ⟨rest, rfl⟩ : ∃ rest, fuel = rest + 1 := ⟨fuel - 1, by omega⟩
    rw [evalWithin_operand (hleaves n (List.mem_singleton_self n)).2, List.mapM_cons, List.mapM_nil]
    cases a.evalWithin 1 n with
    | error failure => rfl
    | ok value => exact congrArg Except.ok (Int64.zero_or.symm)
  | @union leaves unions left right n h hkind hleft hright ih =>
    obtain ⟨rest, rfl⟩ : ∃ rest, fuel = rest + 2 := ⟨fuel - 2, by omega⟩
    rw [List.forall_mem_append, List.forall_mem_singleton] at hleaves
    have hright : a.evalWithin (rest + 1) right = a.evalWithin 1 right :=
      evalWithin_operand hleaves.2.2 rest
    rw [evalWithin, hkind.2]
    dsimp only
    rw [ih hleaves.1 (by omega), hright, List.mapM_append, List.mapM_cons, List.mapM_nil]
    cases leaves.mapM (a.evalWithin 1) with
    | error failure => rfl
    | ok values =>
      cases a.evalWithin 1 right with
      | error failure => rfl
      | ok value => exact congrArg Except.ok (unite_concat values value).symm

theorem forall₂_constant (hleaves : ∀ leaf ∈ leaves, a.HasKind leaf NodeKind.IsOperand) {values : List Int64} :
    List.Forall₂ (fun leaf value => a.evalWithin 1 leaf = .ok value) leaves values ↔
      List.Forall₂ a.Constant leaves values := by
  induction leaves generalizing values with
  | nil => rw [List.forall₂_nil_left_iff, List.forall₂_nil_left_iff]
  | cons leaf leaves ih =>
    rw [List.forall_mem_cons] at hleaves
    simp only [List.forall₂_cons_left_iff, evalWithin_eq_ok hleaves.1.2, ih hleaves.2]

section

variable (h : a.Chain leaves unions n) (hleaves : ∀ leaf ∈ leaves, a.HasKind leaf NodeKind.IsOperand)

include h hleaves

theorem Chain.lt_size : n < a.size := by
  cases h with
  | operand n => exact (hleaves n (List.mem_singleton_self n)).1
  | union _ hkind => exact hkind.1

/-- Evaluating a chain is evaluating its operands in order. -/
theorem Chain.evalConst_eq : a.evalConst n = unite <$> leaves.mapM (a.evalWithin 1) :=
  h.evalWithin_eq hleaves (Nat.lt_succ_of_lt (h.lt_size hleaves))

/-- The value of a chain is the union of the values of its operands. -/
theorem Chain.evalConst_eq_ok : a.evalConst n = .ok value ↔
    ∃ values, List.Forall₂ a.Constant leaves values ∧ value = unite values := by
  rw [h.evalConst_eq hleaves]
  simp only [← forall₂_constant hleaves, ← mapM_eq_ok]
  cases leaves.mapM (a.evalWithin 1) with
  | error failure => exact ⟨nofun, by rintro ⟨_, ⟨⟩, -⟩⟩
  | ok values =>
    constructor
    · rintro ⟨⟩
      exact ⟨values, rfl, rfl⟩
    · rintro ⟨_, ⟨⟩, rfl⟩
      rfl

/-- A chain fails as its leftmost operand that is no constant. -/
theorem Chain.evalConst_eq_error : a.evalConst n = .error failure ↔
    ∃ before leaf after, leaves = before ++ leaf :: after ∧
      (∀ leaf ∈ before, ∃ value, a.Constant leaf value) ∧ a.Offends leaf failure := by
  have hfails : a.evalConst n = .error failure ↔ leaves.mapM (a.evalWithin 1) = .error failure := by
    rw [h.evalConst_eq hleaves]
    cases leaves.mapM (a.evalWithin 1) with
    | error found =>
      constructor
      · rintro ⟨⟩
        rfl
      · rintro ⟨⟩
        rfl
    | ok values => exact ⟨nofun, nofun⟩
  rw [hfails, mapM_eq_error]
  refine exists_congr fun before => exists_congr fun leaf => exists_congr fun after =>
    and_congr_right fun hsplit => ?_
  subst hsplit
  rw [List.forall_mem_append, List.forall_mem_cons] at hleaves
  obtain ⟨hbefore, hleaf, -⟩ := hleaves
  rw [evalWithin_eq_error hleaf.2]
  refine and_congr_left fun _ => forall₂_congr fun leaf hmem => ?_
  simp only [evalWithin_eq_ok (hbefore leaf hmem).2]

end

/-- The values of operands are those that an operand has. -/
theorem mem_values {values : List Int64} (h : List.Forall₂ a.Constant leaves values) :
    value ∈ values ↔ ∃ leaf ∈ leaves, a.Constant leaf value := by
  induction h with
  | nil => simp
  | @cons leaf found leaves values hleaf _ ih =>
    have hfound : a.Constant leaf value ↔ value = found :=
      ⟨fun h => h.unique hleaf, fun h => h ▸ hleaf⟩
    simp only [List.mem_cons, exists_eq_or_imp, ih, hfound]

/-! ## Chains stay -/

/-- What an edit may do to a node. -/
theorem Edit.revises (h : Edit a b) (hn : n < a.size) :
    n < b.size ∧ a.Revises (a.kind n) (b.kind n) := by
  cases h with
  | add name script position kind h =>
    refine ⟨by simp; omega, ?_⟩
    rw [kind_alloc_of_lt hn]
    exact .same _
  | copy m called h =>
    refine ⟨by simp; omega, ?_⟩
    unfold kind
    rw [node_push, if_neg (Nat.ne_of_lt hn)]
    exact .same _
  | change m called h =>
    refine ⟨by simpa using hn, ?_⟩
    unfold kind at h ⊢
    rw [node_update]
    split
    · rename_i heq
      rw [heq.1]
      exact h
    · exact .same _

/-- A union stays what it is. -/
theorem Edits.union {left right : NodeId} (h : a.Edits b) (hn : a.HasKind n (· = .union left right)) :
    b.HasKind n (· = .union left right) := by
  have hstep : ∀ a b : Arena, Edit a b → a.HasKind n (· = .union left right) →
      b.HasKind n (· = .union left right) := by
    intro a b hedit ha
    obtain ⟨hs, hrevises⟩ := hedit.revises ha.1
    rw [ha.2] at hrevises
    generalize hkind : b.kind n = kind at hrevises
    cases hrevises
    exact ⟨hs, hkind⟩
  exact h.keep hstep hn

theorem Chain.edits (h : a.Chain leaves unions n) (he : a.Edits b) : b.Chain leaves unions n :=
  h.mono fun _ _ _ hn => he.union hn

/-- The node of the operand, whose reference may be bound. -/
def Stands (a : Arena) (x : Phrase.Operand) (leaf : NodeId) : Prop :=
  a.HasKind leaf fun kind => ∃ target, kind = x.kind target

theorem Stands.isOperand {x : Phrase.Operand} (h : a.Stands x leaf) : a.HasKind leaf NodeKind.IsOperand :=
  h.mono (by rintro _ ⟨target, rfl⟩; exact x.isOperand_kind target)

theorem Edit.stands {x : Phrase.Operand} (h : Edit a b) (hx : a.Stands x leaf) : b.Stands x leaf := by
  obtain ⟨hs, target, hkind⟩ := hx
  obtain ⟨hs', hrevises⟩ := h.revises hs
  refine ⟨hs', ?_⟩
  rw [hkind] at hrevises
  generalize b.kind leaf = kind at hrevises
  rcases x with ⟨_ | _⟩ | _ | _ | ⟨_, _ | _⟩ | path
  case ref =>
    cases hrevises with
    | same => exact ⟨target, rfl⟩
    | bind _ _ target' => exact ⟨target', rfl⟩
  all_goals
    cases hrevises
    exact ⟨none, rfl⟩

/-- An operand stays what it is, but references are bound. -/
theorem Edits.stands {x : Phrase.Operand} (h : a.Edits b) (hx : a.Stands x leaf) : b.Stands x leaf :=
  h.keep (fun _ _ hedit ha => hedit.stands ha) hx

end Arena

/-! ## Reading and evaluating an argument -/

open Parse

/-- An argument `e1 | e2 | ... | en` is read to a chain of `n - 1` unions, grouped to the left, over the nodes
of its operands in order. This is so after everything that is done to the arena later, binding the references
and linking among it. The chain has a value exactly if every operand is an integer or a reference that is bound to an
enum value, and then it is their bitwise union, whatever their order and however often they occur. Otherwise
its failure is that of the leftmost operand that is neither. -/
theorem argument_folds {σ : Type} {cx : ReadingContext σ} {r : Reading σ} {arg : Arg} {k : TokenKind}
    {ks : List TokenKind} (hr : Faces cx r (arg.tokens ++ k :: ks)) (hk : Stops ['.', '|'] k) :
    ∃ n leaves unions r', argument cx r = .ok n r' ∧ r'.feed.Spells (k :: ks) ∧
      r'.arena.Chain leaves unions n ∧ arg.items.length = unions.length + 1 ∧
      List.Forall₂ (fun x leaf => r'.arena.kind leaf = x.kind none) arg.items leaves ∧
      (∀ b c package builtin, r'.arena.Edits b →
        Link.bindReferences package b = .ok () c ∨ Link.package package builtin b = .ok () c →
        r'.arena.Edits c) ∧
      ∀ b, r'.arena.Edits b →
        b.Chain leaves unions n ∧ List.Forall₂ b.Stands arg.items leaves ∧
        (∀ value, b.evalConst n = .ok value ↔
          ∃ values, List.Forall₂ b.Constant leaves values ∧ value = unite values) ∧
        (∀ failure, b.evalConst n = .error failure ↔
          ∃ before leaf after, leaves = before ++ leaf :: after ∧
            (∀ leaf ∈ before, ∃ value, b.Constant leaf value) ∧ b.Offends leaf failure) ∧
        ∀ n' leaves' unions' value value', b.Chain leaves' unions' n' →
          (∀ leaf ∈ leaves', b.HasKind leaf NodeKind.IsOperand) →
          (∀ value, (∃ leaf ∈ leaves', b.Constant leaf value) ↔ ∃ leaf ∈ leaves, b.Constant leaf value) →
          b.evalConst n = .ok value → b.evalConst n' = .ok value' → value' = value := by
  obtain ⟨n, r', hrun, hs, hkeeps, leaves, unions, hchain, hleaves⟩ :=
    (reads_argument (a := r.arena) hr rfl).complete arg k ks rfl hk trivial
  refine ⟨n, leaves, unions, r', hrun, hs, hchain, hleaves.length_eq.trans hchain.length_eq,
    hleaves.imp fun _ _ h => h.2, ?_, fun b he => ?_⟩
  · rintro b c package builtin he (hlink | hlink)
    · exact he.trans ((Link.edits_bindReferences package b).ok hlink).1
    · exact he.trans ((Link.edits_package package builtin b).ok hlink).1
  have hchain := hchain.edits he
  have hstands : List.Forall₂ b.Stands arg.items leaves :=
    hleaves.imp fun x leaf h => he.stands ⟨h.1, none, h.2⟩
  have hboth : List.Forall₂ (fun leaf x => b.HasKind leaf NodeKind.IsOperand ∧ b.Stands x leaf) leaves
      arg.items := (hstands.imp fun _ _ h => ⟨h.isOperand, h⟩).flip
  have hoperands := ((List.forall₂_and_left leaves arg.items).1 hboth).1
  refine ⟨hchain, hstands, fun value => hchain.evalConst_eq_ok hoperands,
    fun failure => hchain.evalConst_eq_error hoperands, ?_⟩
  intro n' leaves' unions' value value' hchain' hoperands' hsame hvalue hvalue'
  obtain ⟨values, hvalues, rfl⟩ := (hchain.evalConst_eq_ok hoperands).1 hvalue
  obtain ⟨values', hvalues', rfl⟩ := (hchain'.evalConst_eq_ok hoperands').1 hvalue'
  refine unite_congr fun value => ?_
  rw [mem_values hvalues', mem_values hvalues]
  exact hsame value

/-! ## A negative operand -/

/-- The argument `-8 | 3`. -/
def negativeUnion : Arg :=
  ⟨.signed true (.int 8), [.number (.int 3)]⟩

/-- The argument in parentheses, after the first one. -/
def negativeUnionFeed : Feed :=
  .more [] ⟨.char '-', .unknown⟩ (.more [] ⟨.int 8, .unknown⟩ (.more [] ⟨.char '|', .unknown⟩
    (.more [] ⟨.int 3, .unknown⟩ (.more [] ⟨.char ')', .unknown⟩ (.done [] .unknown)))))

theorem argument_folds_negative : ∃ (cx : ReadingContext Unit) (r : Reading Unit),
    Faces cx r (negativeUnion.tokens ++ [.char ')', .eof]) ∧ Stops ['.', '|'] (.char ')') ∧
    ∃ n r', argument cx r = .ok n r' ∧ r'.feed.Spells [.char ')', .eof] ∧ r'.arena.evalConst n = .ok (-5) := by
  have hr : Faces (⟨0, "", "", 6, fun _ _ s => .ok 0 s⟩ : ReadingContext Unit)
      ⟨negativeUnionFeed, [], [], .empty, ()⟩ (negativeUnion.tokens ++ [.char ')', .eof]) := by
    refine ⟨?_, by decide⟩
    exact .more rfl nofun (.more rfl nofun (.more rfl nofun (.more rfl nofun (.more rfl nofun .done))))
  have hk : Stops ['.', '|'] (.char ')') := stops_char (by decide)
  obtain ⟨n, leaves, unions, r', hrun, hs, -, -, hleaves, -, hlater⟩ := argument_folds hr hk
  refine ⟨_, _, hr, hk, n, r', hrun, hs, ?_⟩
  obtain ⟨-, -, hvalue, -⟩ := hlater r'.arena (.refl _)
  obtain ⟨first, others, hfirst, hothers, rfl⟩ := List.forall₂_cons_left_iff.1 hleaves
  obtain ⟨second, rest, hsecond, hrest, rfl⟩ := List.forall₂_cons_left_iff.1 hothers
  obtain rfl := List.forall₂_nil_left_iff.1 hrest
  exact (hvalue (-5)).2 ⟨[-8, 3], .cons (.int hfirst) (.cons (.int hsecond) .nil), by decide⟩

end SchemaLang
