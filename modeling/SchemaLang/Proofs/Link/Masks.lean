import SchemaLang.Link.Placement
import SchemaLang.Proofs.Arena.Growth

/-!
# The masks of attributes

What placing attributes consults: the value of a constant expression (`Evaluates`), the mask that a
type declares (`TypeMask`) and the mask of an attribute (`HasMask`), said without fuel and failures.
`usageMask` finds nothing else (`hasMask_of_usageMask`), and looks at nothing but kinds, names and the
usage declarations on tables, where it does not look at tags (`SameBelow.usageMask`).
-/

namespace SchemaLang

/-- The kind without the tag of structs and error enums. -/
def NodeKind.untag : NodeKind → NodeKind
  | table ⟨fields, _⟩ => table ⟨fields, false⟩
  | enum ⟨base, values, default, _⟩ => enum ⟨base, values, default, false⟩
  | kind => kind

namespace NodeKind

variable {x y : NodeKind}

theorem ctorIdx_untag (x : NodeKind) : x.untag.ctorIdx = x.ctorIdx := by
  cases x <;> rfl

theorem ctorIdx_of_untag (h : x.untag = y.untag) : x.ctorIdx = y.ctorIdx := by
  rw [← ctorIdx_untag x, h, ctorIdx_untag]

/-- Only tables and enums have a tag. -/
theorem eq_of_untag (h : x.untag = y.untag) (hy : y.level ≠ 6) : x = y := by
  cases x <;> cases y <;> first | exact h | exact absurd rfl hy | cases h

/-- Kinds with the same tags that do not differ otherwise are the same. -/
theorem eq_of_tags (h : x.untag = y.untag)
    (hstruct : ∀ decl decl', x = table decl → y = table decl' → decl.isStruct = decl'.isStruct)
    (herror : ∀ decl decl', x = enum decl → y = enum decl' → decl.isError = decl'.isError) : x = y := by
  cases x with
  | table decl =>
    cases y with
    | table decl' =>
      have htag := hstruct decl decl' rfl rfl
      obtain ⟨fields, isStruct⟩ := decl
      obtain ⟨fields', isStruct'⟩ := decl'
      cases h
      cases htag
      rfl
    | _ => cases h
  | enum decl =>
    cases y with
    | enum decl' =>
      have htag := herror decl decl' rfl rfl
      obtain ⟨base, values, default, isError⟩ := decl
      obtain ⟨base', values', default', isError'⟩ := decl'
      cases h
      cases htag
      rfl
    | _ => cases h
  | _ => cases y <;> first | exact h | cases h

theorem describe_congr (h : x.ctorIdx = y.ctorIdx) : x.describe = y.describe := by
  cases x <;> cases y <;> first | rfl | cases h

end NodeKind

namespace Arena

variable {a c : Arena} {attr expr n type : NodeId} {mask mask' : Int64} {vocabulary : Vocabulary}

/-! ## Masks -/

/-- The value of a constant expression. -/
inductive Evaluates (a : Arena) : NodeId → Int64 → Prop
  | int {expr : NodeId} {value : Int64} : a.kind expr = .int value → Evaluates a expr value
  | enumValue {expr : NodeId} {value : Int64} : a.kind expr = .enumValue value →
    Evaluates a expr value
  | reference {expr target : NodeId} {path : List String} {value : Int64} :
    a.kind expr = .typeRef ⟨path, some target⟩ → a.kind target = .enumValue value →
    Evaluates a expr value
  | union {expr left right : NodeId} {x y : Int64} : a.kind expr = .union left right →
    Evaluates a left x → Evaluates a right y → Evaluates a expr (x ||| y)

/-- The mask that a type declares: the target of the first usage declaration on the table. -/
def TypeMask (a : Arena) (vocabulary : Vocabulary) (type : NodeId) (mask : Int64) : Prop :=
  ∃ decl usage rest given args target, a.kind type = .table decl ∧
    a.attrsOfType type vocabulary.usage = usage :: rest ∧ a.kind usage = .attr given ∧
    given.args = some args ∧ a.fieldArg? vocabulary.target args = some target ∧
    a.Evaluates target mask

/-- The mask of an attribute is the one that its type declares. -/
def HasMask (a : Arena) (vocabulary : Vocabulary) (attr : NodeId) (mask : Int64) : Prop :=
  ∃ type, a.attrType attr = some type ∧ a.TypeMask vocabulary type mask

theorem Evaluates.unique {x y : Int64} (h : a.Evaluates expr x) (h' : a.Evaluates expr y) :
    x = y := by
  induction h generalizing y with
  | int hk =>
    cases h' with
    | int hk' => cases hk.symm.trans hk'; rfl
    | enumValue hk' => cases hk.symm.trans hk'
    | reference hk' => cases hk.symm.trans hk'
    | union hk' => cases hk.symm.trans hk'
  | enumValue hk =>
    cases h' with
    | int hk' => cases hk.symm.trans hk'
    | enumValue hk' => cases hk.symm.trans hk'; rfl
    | reference hk' => cases hk.symm.trans hk'
    | union hk' => cases hk.symm.trans hk'
  | reference hk ht =>
    cases h' with
    | int hk' => cases hk.symm.trans hk'
    | enumValue hk' => cases hk.symm.trans hk'
    | reference hk' ht' =>
      cases hk.symm.trans hk'
      cases ht.symm.trans ht'
      rfl
    | union hk' => cases hk.symm.trans hk'
  | union hk _ _ ihl ihr =>
    cases h' with
    | int hk' => cases hk.symm.trans hk'
    | enumValue hk' => cases hk.symm.trans hk'
    | reference hk' => cases hk.symm.trans hk'
    | union hk' hl' hr' =>
      cases hk.symm.trans hk'
      rw [ihl hl', ihr hr']

theorem TypeMask.unique (h : a.TypeMask vocabulary type mask)
    (h' : a.TypeMask vocabulary type mask') : mask = mask' := by
  obtain ⟨_, usage, rest, given, args, target, _, hu, hk, ha, ht, he⟩ := h
  obtain ⟨_, usage', rest', given', args', target', _, hu', hk', ha', ht', he'⟩ := h'
  cases hu.symm.trans hu'
  cases hk.symm.trans hk'
  cases ha.symm.trans ha'
  cases ht.symm.trans ht'
  exact he.unique he'

theorem HasMask.unique (h : a.HasMask vocabulary attr mask) (h' : a.HasMask vocabulary attr mask') :
    mask = mask' := by
  obtain ⟨type, ht, hm⟩ := h
  obtain ⟨type', ht', hm'⟩ := h'
  cases ht.symm.trans ht'
  exact hm.unique hm'

/-! ## The pass finds the mask -/

theorem evaluates_of_evalWithin : ∀ (fuel : Nat) {expr : NodeId} {value : Int64},
    a.evalWithin fuel expr = .ok value → a.Evaluates expr value
  | fuel + 1, expr, value, h => by
    unfold evalWithin at h
    split at h
    · rename_i hk
      cases h
      exact .int hk
    · rename_i hk
      cases h
      exact .enumValue hk
    · rename_i reference hk
      obtain ⟨path, target⟩ := reference
      split at h
      · cases h
      · rename_i target' htarget
        cases htarget
        split at h
        · rename_i value' hvalue
          cases h
          exact .reference hk (enumValue?_eq_some.1 hvalue)
        · cases h
    · rename_i left right hk
      cases hl : a.evalWithin fuel left with
      | error failure =>
        rw [hl] at h
        cases h
      | ok x =>
        cases hr : a.evalWithin fuel right with
        | error failure =>
          rw [hl, hr] at h
          cases h
        | ok y =>
          rw [hl, hr] at h
          cases h
          exact .union hk (evaluates_of_evalWithin fuel hl) (evaluates_of_evalWithin fuel hr)
    · cases h

/-- The mask that the pass finds for an attribute, step by step. -/
theorem usageMask_eq_ok : a.usageMask vocabulary attr = .ok mask ↔
    ∃ type decl usage rest given args target, a.attrType attr = some type ∧
      a.table? type = some decl ∧ a.attrsOfType type vocabulary.usage = usage :: rest ∧
      a.attr? usage = some given ∧ given.args = some args ∧
      a.fieldArg? vocabulary.target args = some target ∧ a.evalConst target = .ok mask := by
  constructor
  · intro h
    unfold usageMask at h
    dsimp only at h
    split at h
    · cases h
    · rename_i type htype
      split at h
      · cases h
      · rename_i htable
        obtain ⟨decl, hd⟩ : ∃ decl, a.table? type = some decl :=
          Option.ne_none_iff_exists'.1 (by simpa using htable)
        split at h
        · cases h
        · rename_i usage rest husage
          split at h
          · cases h
          · rename_i target htarget
            obtain ⟨args, hargs, hfield⟩ := Option.bind_eq_some_iff.1 htarget
            obtain ⟨given, hattr, ha⟩ := Option.bind_eq_some_iff.1 hargs
            exact ⟨type, decl, usage, rest, given, args, target, htype, hd, husage, hattr, ha,
              hfield, h⟩
  · rintro ⟨type, decl, usage, rest, given, args, target, htype, hd, husage, hattr, ha, hfield, he⟩
    have htarget : ((a.attr? usage).bind (·.args)).bind (a.fieldArg? vocabulary.target) =
        some target := by
      rw [hattr]
      simp only [Option.bind_some, ha, hfield]
    unfold usageMask
    simp only [htype, hd, husage, htarget, Option.isNone_some, Bool.false_eq_true, if_false, he]

theorem hasMask_of_usageMask (h : a.usageMask vocabulary attr = .ok mask) :
    a.HasMask vocabulary attr mask := by
  obtain ⟨type, decl, usage, rest, given, args, target, htype, hd, husage, hattr, ha, hfield, he⟩ :=
    usageMask_eq_ok.1 h
  exact ⟨type, htype, decl, usage, rest, given, args, target, table?_eq_some.1 hd, husage,
    attr?_eq_some.1 hattr, ha, hfield, evaluates_of_evalWithin _ he⟩

/-- What has a mask is an attribute. -/
theorem attr?_of_usageMask (h : a.usageMask vocabulary attr = .ok mask) : (a.attr? attr).isSome := by
  obtain ⟨type, -, -, -, -, -, -, htype, -⟩ := usageMask_eq_ok.1 h
  obtain ⟨decl, hd, -⟩ := Option.bind_eq_some_iff.1 htype
  rw [hd]
  rfl

/-- Declarations are no constants, and neither are scripts and packages. -/
theorem evalWithin_of_level (fuel : Nat) (h : 6 ≤ (a.kind expr).level) :
    a.evalWithin (fuel + 1) expr =
      .error ⟨.notConstant (a.kind expr).describe, a.position expr⟩ := by
  unfold evalWithin
  cases hk : a.kind expr <;> rw [hk] at h <;> first | rfl | exact absurd h (by simp [NodeKind.level])

theorem fieldArg?_of_level {field args : NodeId} (h : 6 ≤ (a.kind args).level) :
    a.fieldArg? field args = none := by
  unfold fieldArg?
  cases hk : a.kind args <;> rw [hk] at h <;> first | rfl | exact absurd h (by simp [NodeKind.level])

/-! ## What the mask depends on -/

/-- Two arenas with the same nodes below declarations, but for attributes and parents. What is a
declaration, a script or a package in one of them is so in the other. -/
structure SameBelow (a c : Arena) : Prop where
  size_eq : c.size = a.size
  name_eq : ∀ n, c.name n = a.name n
  position_eq : ∀ n, c.position n = a.position n
  shape : ∀ n, (c.kind n).ctorIdx = (a.kind n).ctorIdx
  kind_eq : ∀ n, (a.kind n).level < 6 → c.kind n = a.kind n

namespace SameBelow

variable (h : SameBelow a c)

include h

theorem level_eq (n : NodeId) : (c.kind n).level = (a.kind n).level :=
  NodeKind.level_congr (h.shape n)

theorem describe_eq (n : NodeId) : (c.kind n).describe = (a.kind n).describe :=
  NodeKind.describe_congr (h.shape n)

theorem kind_iff {kind : NodeKind} (hk : kind.level < 6) : c.kind n = kind ↔ a.kind n = kind := by
  constructor
  · rintro rfl
    exact (h.kind_eq n (h.level_eq n ▸ hk)).symm
  · rintro rfl
    exact h.kind_eq n hk

theorem enumValue? : c.enumValue? n = a.enumValue? n :=
  Option.ext fun value => by
    rw [enumValue?_eq_some, enumValue?_eq_some]
    exact h.kind_iff (by exact (by decide : 5 < 6))

theorem attr? : c.attr? n = a.attr? n :=
  Option.ext fun decl => by
    rw [attr?_eq_some, attr?_eq_some]
    exact h.kind_iff (by exact (by decide : 3 < 6))

theorem reference? : c.reference? n = a.reference? n :=
  Option.ext fun reference => by
    rw [reference?_eq_some, reference?_eq_some]
    exact h.kind_iff (by exact (by decide : 0 < 6))

theorem attrType : c.attrType n = a.attrType n := by
  unfold Arena.attrType
  rw [h.attr?]
  simp only [h.reference?]

theorem attrsOfType (hattrs : (c.node n).attrs = (a.node n).attrs) (type : NodeId) :
    c.attrsOfType n type = a.attrsOfType n type := by
  unfold Arena.attrsOfType
  simp only [hattrs, h.attrType]

theorem table?_isNone : (c.table? n).isNone = (a.table? n).isNone := by
  have hshape := h.shape n
  unfold Arena.table?
  revert hshape
  cases c.kind n <;> cases a.kind n <;> first | exact fun _ => rfl | exact fun e => by cases e

theorem fieldArg? {field args : NodeId} : c.fieldArg? field args = a.fieldArg? field args := by
  have hfield : c.field? field = a.field? field := Option.ext fun decl => by
    rw [field?_eq_some, field?_eq_some]
    exact h.kind_iff (by exact (by decide : 5 < 6))
  rcases Nat.lt_or_ge (a.kind args).level 6 with hl | hl
  · unfold Arena.fieldArg?
    rw [hfield, h.name_eq, h.kind_eq args hl]
  · rw [fieldArg?_of_level hl, fieldArg?_of_level ((h.level_eq args).symm ▸ hl)]

theorem evalWithin : ∀ (fuel : Nat) (expr : NodeId),
    c.evalWithin fuel expr = a.evalWithin fuel expr
  | 0, expr => by
    unfold Arena.evalWithin
    rw [h.describe_eq, h.position_eq]
  | fuel + 1, expr => by
    have hl := SameBelow.evalWithin fuel
    rcases Nat.lt_or_ge (a.kind expr).level 6 with hlow | hhigh
    · unfold Arena.evalWithin
      rw [h.kind_eq expr hlow, h.position_eq]
      cases a.kind expr with
      | typeRef reference =>
        cases ht : reference.target with
        | none => simp only [ht]
        | some target => simp only [ht, h.enumValue?, h.describe_eq]
      | union left right => simp only [hl]
      | _ => rfl
    · rw [evalWithin_of_level fuel ((h.level_eq expr).symm ▸ hhigh), h.position_eq, h.describe_eq,
        ← evalWithin_of_level fuel hhigh]

/-- The mask of an attribute is the same where the usage declarations on tables are. -/
theorem usageMask (husage : ∀ type, (a.table? type).isSome →
      c.attrsOfType type vocabulary.usage = a.attrsOfType type vocabulary.usage) :
    c.usageMask vocabulary attr = a.usageMask vocabulary attr := by
  unfold Arena.usageMask evalConst
  simp only [h.attrType, h.name_eq, h.position_eq, h.size_eq, h.evalWithin, h.table?_isNone,
    h.attr?]
  have hfield : c.fieldArg? vocabulary.target = a.fieldArg? vocabulary.target :=
    funext fun args => h.fieldArg?
  cases a.attrType attr with
  | none => rfl
  | some type =>
    dsimp only
    cases ht : a.table? type with
    | none => rfl
    | some decl =>
      rw [husage type (by rw [ht]; rfl)]
      simp only [hfield]

/-- An expression has the value that it had. -/
theorem evaluates {value : Int64} (he : a.Evaluates expr value) : c.Evaluates expr value := by
  induction he with
  | int hk => exact .int ((h.kind_iff (by exact (by decide : 1 < 6))).2 hk)
  | enumValue hk => exact .enumValue ((h.kind_iff (by exact (by decide : 5 < 6))).2 hk)
  | reference hk ht =>
    exact .reference ((h.kind_iff (by exact (by decide : 0 < 6))).2 hk)
      ((h.kind_iff (by exact (by decide : 5 < 6))).2 ht)
  | union hk _ _ ihl ihr =>
    exact .union ((h.kind_iff (by exact (by decide : 1 < 6))).2 hk) ihl ihr

end SameBelow

/-- A mask is as it was where the usage declarations on its table are. -/
theorem TypeMask.congr (h : SameBelow a c)
    (husage : c.attrsOfType type vocabulary.usage = a.attrsOfType type vocabulary.usage)
    (hm : a.TypeMask vocabulary type mask) : c.TypeMask vocabulary type mask := by
  obtain ⟨decl, usage, rest, given, args, target, hk, hu, hg, hargs, ht, he⟩ := hm
  have hshape := h.shape type
  rw [hk] at hshape
  obtain ⟨decl', hk'⟩ := NodeKind.table_of_ctorIdx hshape
  exact ⟨decl', usage, rest, given, args, target, hk', husage.trans hu,
    (h.kind_iff (by exact (by decide : 3 < 6))).2 hg, hargs, h.fieldArg?.trans ht, h.evaluates he⟩

/-- Two arenas that differ in tags, attributes and parents at most. -/
structure Retagged (a c : Arena) : Prop where
  size_eq : c.size = a.size
  untag : ∀ n, (c.kind n).untag = (a.kind n).untag
  name_eq : ∀ n, c.name n = a.name n
  script_eq : ∀ n, (c.node n).script = (a.node n).script
  position_eq : ∀ n, c.position n = a.position n

instance : IsPreorder Arena Retagged where
  refl _ := ⟨rfl, fun _ => rfl, fun _ => rfl, fun _ => rfl, fun _ => rfl⟩
  trans _ _ _ h h' := ⟨h'.size_eq.trans h.size_eq, fun n => (h'.untag n).trans (h.untag n),
    fun n => (h'.name_eq n).trans (h.name_eq n), fun n => (h'.script_eq n).trans (h.script_eq n),
    fun n => (h'.position_eq n).trans (h.position_eq n)⟩

theorem Retagged.symm (h : Retagged a c) : Retagged c a :=
  ⟨h.size_eq.symm, fun n => (h.untag n).symm, fun n => (h.name_eq n).symm,
    fun n => (h.script_eq n).symm, fun n => (h.position_eq n).symm⟩

/-- One node gets another tag, other attributes or another parent. -/
theorem Changed.retagged {x : Node} (h : Changed a c n x) (hk : x.kind.untag = (a.kind n).untag)
    (hname : x.name = (a.node n).name) (hs : x.script = (a.node n).script)
    (hp : x.position = (a.node n).position) : Retagged a c where
  size_eq := h.size_eq
  untag m := by
    unfold kind at *
    by_cases he : m = n
    · rw [he, h.node_self, hk]
    · rw [h.node_ne he]
  name_eq := h.name_eq hname
  script_eq := h.script_eq hs
  position_eq m := by
    unfold position
    by_cases he : m = n
    · rw [he, h.node_self, hp]
    · rw [h.node_ne he]

section

variable (h : Retagged a c)

include h

theorem Retagged.shape (n : Nat) : (c.kind n).ctorIdx = (a.kind n).ctorIdx :=
  NodeKind.ctorIdx_of_untag (h.untag n)

theorem Retagged.kind_eq (hn : (a.kind n).level ≠ 6) : c.kind n = a.kind n :=
  NodeKind.eq_of_untag (h.untag n) hn

theorem Retagged.level_eq : (c.kind n).level = (a.kind n).level :=
  NodeKind.level_congr (h.shape n)

theorem Retagged.kind_iff {kind : NodeKind} (hk : kind.level ≠ 6) :
    c.kind n = kind ↔ a.kind n = kind := by
  constructor
  · rintro rfl
    exact NodeKind.eq_of_untag (h.untag n).symm hk
  · rintro rfl
    exact h.kind_eq hk

theorem Retagged.script? : c.script? n = a.script? n :=
  Option.ext fun decl => by
    rw [script?_eq_some, script?_eq_some]
    exact h.kind_iff (by exact (by decide : (7 : Nat) ≠ 6))

theorem Retagged.home_eq (n : NodeId) : c.home n = a.home n := by
  by_cases hk : (a.kind n).level = 6
  · have hlt : (a.kind n).level < 7 := by omega
    rw [home_of_level hlt, home_of_level (h.level_eq.symm ▸ hlt), h.script_eq]
    simp only [h.script?]
  · unfold home
    rw [h.kind_eq hk, h.script_eq]
    simp only [h.script?]

theorem Retagged.scriptOf_eq (n : NodeId) : c.scriptOf n = a.scriptOf n := by
  by_cases hk : (a.kind n).level = 7
  · unfold scriptOf
    rw [h.kind_eq (by omega), h.script_eq]
  · rw [scriptOf_of_level hk, scriptOf_of_level (h.level_eq.symm ▸ hk), h.script_eq]

theorem Retagged.sameBelow : SameBelow a c where
  size_eq := h.size_eq
  name_eq := h.name_eq
  position_eq := h.position_eq
  shape := h.shape
  kind_eq _ hn := h.kind_eq (Nat.ne_of_lt hn)

end

end Arena

end SchemaLang
