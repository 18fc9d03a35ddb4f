import SchemaLang.Proofs.Grammar.Commenting
import SchemaLang.Proofs.Grammar.Scripts

/-!
# Every part of the grammar carries the comments

One lemma for each part: it keeps account of all comments (`Parse.Carries`). Types and references claim
none. An argument, an attribute, a declaration and a member claim once, when they have no comments yet
(`Parse.New`). A method claims before its slots are read and after them.
-/

namespace SchemaLang.Parse

open Arena

variable {σ : Type} {counted : Prop} {cx : ReadingContext σ} {mark n : Nat} {all : List Comment}
  {r r' : Reading σ}

/-! ## Loops -/

/-- A loop, of which each round starts in a state that nothing changes but for the better. -/
theorem carries_repeatWhile {s : NodeId} {step : Parse σ Bool} {I : Reading σ → Prop}
    (hkeep : ∀ {r r'}, Carries counted s mark r r' → I r → I r')
    (h : ∀ r, I r → Leads (Carries counted s mark) step r fun _ _ => True) (fuel : Nat) (hi : I r) :
    Leads (Carries counted s mark) (repeatWhile step fuel) r fun _ r' => I r' :=
  leads_repeatWhile (fun r hi => (h r hi).mono fun _ _ hr _ => hkeep hr hi) fuel r hi

/-! ## References and types -/

theorem steady_finishRef (first : String) (position : Position) :
    Steady (finishRef cx first position) :=
  (passes_pathTail _ _).steady.bind fun _ => steady_build fun s a => .alloc s a ..

theorem steady_typeRef : Steady (typeRef cx) :=
  (passes_expectIdent _).steady.bind fun _ => steady_finishRef _ _

theorem steady_builtinRef (name : String) (position : Position) :
    Steady (builtinRef cx name position) :=
  steady_build fun s a => .alloc s a ..

theorem steady_typeWithin : ∀ fuel : Nat, Steady (typeWithin cx fuel)
  | 0 => passes_next.steady.bind fun _ => (passes_unexpected _ _).steady
  | fuel + 1 => by
    refine passes_next.steady.bind fun token => ?_
    split
    · refine passes_arrayLength.steady.bind fun length => ?_
      refine (passes_expectChar _).steady.bind fun _ => ?_
      refine (steady_typeWithin fuel).bind fun element => ?_
      refine (passes_inspect _).steady.bind fun nested => ?_
      split
      · exact (passes_failAt _ _).steady
      · split
        · exact steady_build fun s a => adds_newArray s a ..
        · exact steady_build fun s a => adds_newList s a ..
    · refine (passes_expectChar _).steady.bind fun _ => ?_
      refine (steady_typeWithin fuel).bind fun key => ?_
      refine (passes_inspect _).steady.bind fun composite => ?_
      split
      · exact (passes_failAt _ _).steady
      · refine (passes_expectChar _).steady.bind fun _ => ?_
        refine (steady_typeWithin fuel).bind fun value => ?_
        refine (passes_inspect _).steady.bind fun composite => ?_
        split
        · exact (passes_failAt _ _).steady
        · exact steady_build fun s a => adds_newMap s a ..
    · split
      · exact steady_builtinRef _ _
      · exact (passes_unexpected _ _).steady
    · exact steady_finishRef _ _
    · exact (passes_unexpected _ _).steady

theorem steady_typeExpression : Steady (typeExpression cx) :=
  steady_typeWithin cx.budget

theorem own_alloc {a : Arena} (s : NodeId) (name : String) (position : Position) (kind : NodeKind) :
    (a.alloc name (some s) position kind).2.Own s a.size := by
  rw [Own, node_alloc, if_pos rfl]
  rfl

/-- A node that owns nothing. -/
theorem carries_leaf (hm : mark ≤ r.arena.size) (name : String) (position : Position)
    (kind : NodeKind) :
    Leads (Carries counted cx.script mark)
      (build fun arena => arena.alloc name (some cx.script) position kind) r
      (New cx.script mark) :=
  carries_new (fun arena => arena.alloc name (some cx.script) position kind) hm (.alloc ..) rfl
    (own_alloc ..)

theorem carries_finishRef (hm : mark ≤ r.arena.size) (first : String) (position : Position) :
    Leads (Carries counted cx.script mark) (finishRef cx first position) r (New cx.script mark) :=
  ((passes_pathTail _ _).steady _ _ _ _).bind fun _ _ hr _ =>
    carries_leaf (Nat.le_trans hm hr.size_le) ..

theorem carries_typeRef (hm : mark ≤ r.arena.size) :
    Leads (Carries counted cx.script mark) (typeRef cx) r (New cx.script mark) :=
  ((passes_expectIdent _).steady _ _ _ _).bind fun _ _ hr _ =>
    carries_finishRef (Nat.le_trans hm hr.size_le) ..

/-! ## Arguments -/

theorem carries_signed (hm : mark ≤ r.arena.size) (negative : Bool) (position : Position) :
    Leads (Carries counted cx.script mark) (signed cx negative position) r (New cx.script mark) := by
  refine (passes_next.steady _ _ _ _).bind fun number r₁ hr₁ _ => ?_
  have hm₁ := Nat.le_trans hm hr₁.size_le
  split
  · exact carries_leaf hm₁ ..
  · exact carries_leaf hm₁ ..
  · exact Leads.throw

theorem carries_operand (hm : mark ≤ r.arena.size) :
    Leads (Carries counted cx.script mark) (operand cx) r (New cx.script mark) := by
  refine (passes_next.steady _ _ _ _).bind fun token r₁ hr₁ _ => ?_
  have hm₁ := Nat.le_trans hm hr₁.size_le
  dsimp only
  split
  · exact carries_leaf hm₁ ..
  · exact carries_leaf hm₁ ..
  · exact carries_leaf hm₁ ..
  · exact carries_leaf hm₁ ..
  · split
    · exact carries_signed hm₁ ..
    split
    · exact carries_signed hm₁ ..
    · exact Leads.throw
  · exact carries_finishRef hm₁ ..
  · exact Leads.throw

theorem own_adopt {a : Arena} {s m : NodeId} (h : a.Own s m) (parent child : NodeId) :
    (a.adopt parent child).Own s m :=
  ((Adds.adopt s a parent child).script_eq m h.lt_size).trans h

theorem carries_unionTail : ∀ (fuel : Nat) (value : Nat) (r : Reading σ),
    New cx.script mark value r →
    Leads (Carries counted cx.script mark) (unionTail cx fuel value) r (New cx.script mark)
  | 0, value, r, h => Leads.pure h
  | fuel + 1, value, r, h => by
    have hm := Nat.le_of_lt (Nat.lt_of_le_of_lt h.mark_le h.own.lt_size)
    refine (h.leads carries_peek).bind fun bar r₁ hr₁ ⟨⟨_, hshows⟩, h₁⟩ => ?_
    split
    · refine (carries_advance hshows).bind fun _ r₂ hr₂ _ => ?_
      have hm₂ := Nat.le_trans (Nat.le_trans hm hr₁.size_le) hr₂.size_le
      refine (carries_operand hm₂).bind fun right r₃ hr₃ _ => ?_
      refine (carries_new (fun arena =>
        arena.newUnion cx.script value right bar.position) (Nat.le_trans hm₂ hr₃.size_le)
        (adds_newUnion ..) rfl (own_adopt (own_adopt (own_alloc ..) _ _) _ _)).bind
        fun union r₄ _ h₄ => ?_
      exact carries_unionTail fuel union r₄ h₄
    · exact Leads.pure h₁

theorem carries_argument (hm : mark ≤ r.arena.size) :
    Leads (Carries counted cx.script mark) (argument cx) r (New cx.script mark) :=
  (carries_operand hm).bind fun value r' _ h => carries_unionTail cx.budget value r' h

/-- The rest of a round, after the argument is entered. -/
theorem carries_finishArgument {value : Nat} (h : New cx.script mark value r) :
    Leads (Carries counted cx.script mark) (do
      let more ← matchChar ','
      attachComments value
      pure more) r fun _ _ => True := by
  refine (h.steady (passes_matchChar _).steady).bind fun more r₁ _ h₁ => ?_
  exact (carries_attachComments h₁).bind fun _ _ _ _ => Leads.pure trivial

theorem carries_namedArgument (hm : mark ≤ r.arena.size) (args : NodeId) :
    Leads (Carries counted cx.script mark) (namedArgument cx args) r fun _ _ => True := by
  refine (passes_next.steady _ _ _ _).bind fun label r₁ hr₁ _ => ?_
  split
  · rename_i name _
    refine (carries_argument (Nat.le_trans hm hr₁.size_le)).bind fun value r₂ _ h₂ => ?_
    have hadds := adds_insertNamedArg cx.script r₂.arena args name value
    refine (h₂.leads (carries_buildUnique
      (fun arena => arena.insertNamedArg args name value) hadds)).bind fun _ r₃ _ h₃ => ?_
    exact carries_finishArgument h₃.2
  · exact Leads.throw

theorem carries_positionalArgument (hm : mark ≤ r.arena.size) (args : NodeId) :
    Leads (Carries counted cx.script mark) (positionalArgument cx args) r fun _ _ => True := by
  refine (carries_argument hm).bind fun value r₁ _ h₁ => ?_
  refine (h₁.steady (steady_build fun s a => adds_pushArg s a args value)).bind fun _ r₂ _ h₂ => ?_
  exact carries_finishArgument h₂

theorem carries_arguments (hm : mark ≤ r.arena.size) :
    Leads (Carries counted cx.script mark) (arguments cx) r fun _ _ => True := by
  have hloop : ∀ {step : Parse σ Bool} {r₁ : Reading σ} (args : NodeId), mark ≤ r₁.arena.size →
      (∀ r, mark ≤ r.arena.size → Leads (Carries counted cx.script mark) step r fun _ _ => True) →
      Leads (Carries counted cx.script mark) (do
        repeatWhile step cx.budget
        pure (some args)) r₁ fun _ _ => True := by
    intro step r₁ args hm₁ hstep
    exact (carries_repeatWhile (fun hr h => Nat.le_trans h hr.size_le) hstep cx.budget hm₁).bind
      fun _ _ _ _ => Leads.pure trivial
  refine (passes_peek.steady _ _ _ _).bind fun token r₁ hr₁ _ => ?_
  have hm₁ := Nat.le_trans hm hr₁.size_le
  split
  · exact Leads.pure trivial
  · exact (carries_leaf hm₁ ..).bind fun args r₂ hr₂ _ =>
      hloop args (Nat.le_trans hm₁ hr₂.size_le) fun _ h => carries_namedArgument h args
  · exact (carries_leaf hm₁ ..).bind fun args r₂ hr₂ _ =>
      hloop args (Nat.le_trans hm₁ hr₂.size_le) fun _ h => carries_positionalArgument h args

/-! ## Attributes -/

/-- An attribute that is complete waits. -/
theorem carries_finishAttr {attr : Nat} (h : New cx.script mark attr r) :
    Leads (Carries counted cx.script mark) (do
      attachComments attr
      holdAttr attr
      pure true) r fun _ _ => True :=
  (carries_attachComments h).bind fun _ r₁ _ _ =>
    (steady_holdAttr attr _ _ _ r₁).bind fun _ _ _ _ => Leads.pure trivial

/-- An attribute waits behind its arguments. -/
theorem carries_closeAttr {attr : Nat} (h : New cx.script mark attr r) :
    Leads (Carries counted cx.script mark) (do
      expectChar ')'
      attachComments attr
      holdAttr attr
      pure true) r fun _ _ => True :=
  (h.steady (passes_expectChar _).steady).bind fun _ _ _ h₁ => carries_finishAttr h₁

theorem carries_attr (hm : mark ≤ r.arena.size) :
    Leads (Carries counted cx.script mark) (attr cx) r fun _ _ => True := by
  refine carries_peek.bind fun sign r₁ hr₁ ⟨_, hshows⟩ => ?_
  split
  · refine (carries_advance hshows).bind fun _ r₂ hr₂ _ => ?_
    have hm₂ := Nat.le_trans (Nat.le_trans hm hr₁.size_le) hr₂.size_le
    refine (steady_typeRef _ _ _ _).bind fun type r₃ hr₃ _ => ?_
    refine (carries_new (fun arena => arena.newAttr cx.script type sign.position)
      (Nat.le_trans hm₂ hr₃.size_le) (adds_newAttr ..) rfl (own_adopt (own_alloc ..) _ _)).bind fun attr r₄ _ h₄ => ?_
    refine (h₄.steady (passes_matchChar _).steady).bind fun found r₅ _ h₅ => ?_
    dsimp only
    split
    · refine (h₅.leads (carries_arguments h₅.own.lt_size)).bind fun result r₆ _ h₆ => ?_
      cases result with
      | none => exact carries_closeAttr h₆.2
      | some args =>
        refine (h₆.2.steady (steady_build fun s a => adds_setAttrArgs s a attr args)).bind
          fun _ r₇ _ h₇ => carries_closeAttr h₇
    · exact carries_finishAttr h₅
  · exact Leads.pure trivial

theorem carries_attributes (hm : mark ≤ r.arena.size) :
    Leads (Carries counted cx.script mark) (attributes cx) r fun _ r' => mark ≤ r'.arena.size :=
  carries_repeatWhile (fun hr h => Nat.le_trans h hr.size_le) (fun _ h => carries_attr h) cx.budget hm

/-! ## Declarations -/

theorem own_of_adds {a b : Arena} {s m : NodeId} (h : a.Own s m) (hb : a.Adds s b) : b.Own s m :=
  (hb.script_eq m h.lt_size).trans h

/-- A member belongs to the script of the node it is made for. -/
theorem own_alloc_of_own {a : Arena} {s m : NodeId} (h : a.Own s m) (name : String)
    (position : Position) (kind : NodeKind) :
    (a.alloc name (a.node m).script position kind).2.Own s a.size := by
  rw [show (a.node m).script = some s from h]
  exact own_alloc ..

theorem carries_declare {name : String} {position : Position} {type : Nat}
    (h : New cx.script mark type r) :
    Leads (Carries counted cx.script mark) (declare cx name position type) r fun _ _ => True := by
  refine (h.leads (carries_buildUnique (fun arena => arena.declareType cx.script type)
    (adds_declareType ..))).bind fun _ r₁ _ h₁ => ?_
  refine (carries_attachComments h₁.2).bind fun _ r₂ _ _ => ?_
  exact steady_attachAttrs type _ _ _ r₂

/-! ### Enums -/

theorem own_newEnumValue {a : Arena} {s enum x : NodeId} (h : a.Own s enum) {name : String}
    {value : Int64} {position : Position}
    (hx : (a.newEnumValue enum name value position).1 = .ok x) :
    x = a.size ∧ (a.newEnumValue enum name value position).2.Own s a.size := by
  unfold newEnumValue at *
  split at hx
  · cases hx
  · cases hx
    exact ⟨rfl, own_of_adds (own_alloc_of_own h ..) ((Adds.adopt ..).trans (.updateKind ..))⟩

theorem carries_enumValue {enum : Nat} {enumName : String} {base : EnumBase}
    (h : r.arena.Own cx.script enum) :
    Leads (Carries counted cx.script 0) (enumValue cx enum enumName base) r fun _ _ => True := by
  refine (carries_attributes (Nat.zero_le _)).bind fun _ r₁ hr₁ _ => ?_
  refine (passes_expectIdent _ _ _ _ _).bind fun ident r₂ hr₂ _ => ?_
  refine (passes_expectChar _ _ _ _ _).bind fun _ r₃ hr₃ _ => ?_
  refine (passes_matchChar _ _ _ _ _).bind fun negative r₄ hr₄ _ => ?_
  refine (passes_next _ _ _ _).bind fun literal r₅ hr₅ _ => ?_
  have h₅ := hr₅.own (hr₄.own (hr₃.own (hr₂.own (hr₁.own h))))
  split
  · rename_i size _
    dsimp only
    generalize (if negative = true then -size else size) = value
    split
    · refine (passes_expectChar _ _ _ _ _).bind fun _ r₆ hr₆ _ => ?_
      refine (carries_newUnique (fun arena => arena.newEnumValue enum ident.1 value ident.2)
        (Nat.zero_le _) (adds_newEnumValue ..) fun x hx => own_newEnumValue (hr₆.own h₅) hx).bind fun node r₇ _ h₇ => ?_
      refine (h₇.steady (steady_attachAttrs node)).bind fun _ r₈ _ h₈ => ?_
      refine (h₈.steady (passes_matchChar _).steady).bind fun more r₉ _ h₉ => ?_
      exact (carries_attachComments h₉).bind fun _ _ _ _ => Leads.pure trivial
    · exact Leads.throw
  · exact Leads.throw

theorem carries_enumDeclaration :
    Leads (Carries counted cx.script 0) (enumDeclaration cx) r fun _ _ => True := by
  refine (passes_expectIdent _ _ _ _ _).bind fun ident r₁ _ _ => ?_
  refine (passes_enumBase _ _ _ _).bind fun base r₂ _ _ => ?_
  refine (carries_leaf (Nat.zero_le _) ..).bind fun enum r₃ _ h₃ => ?_
  refine (carries_declare h₃).bind fun _ r₄ hr₄ _ => ?_
  refine (passes_expectChar _ _ _ _ _).bind fun _ r₅ hr₅ _ => ?_
  refine (carries_repeatWhile (fun hr h => hr.own h) (fun _ h => carries_enumValue h) cx.budget
    (hr₅.own (hr₄.own h₃.own))).bind fun _ r₆ _ _ => ?_
  exact (passes_expectChar _).steady _ _ _ r₆

/-! ### Tables -/

theorem own_newField {a : Arena} {s table type x : NodeId} (h : a.Own s table) {name : String}
    {position : Position} (hx : (a.newField table name type position).1 = .ok x) :
    x = a.size ∧ (a.newField table name type position).2.Own s a.size := by
  unfold newField at *
  split at hx
  · cases hx
  · cases hx
    exact ⟨rfl, own_of_adds (own_alloc_of_own h ..)
      (((Adds.adopt ..).trans (.adopt ..)).trans (.updateKind ..))⟩

theorem steady_markStruct (table : NodeId) (position : Position) :
    Steady (markStruct cx table position) :=
  (steady_builtinRef _ _).bind fun type =>
    (steady_build fun s a => adds_newAttr s a cx.script type position).bind fun attr =>
      steady_build fun s a => .addAttr s a table attr

theorem carries_field {table : Nat} (h : r.arena.Own cx.script table) :
    Leads (Carries counted cx.script 0) (field cx table) r fun _ _ => True := by
  refine (carries_attributes (Nat.zero_le _)).bind fun _ r₁ hr₁ _ => ?_
  refine (passes_nextIsIdent _ _ _ _).bind fun found r₂ hr₂ _ => ?_
  split
  · refine (passes_expectIdent _ _ _ _ _).bind fun ident r₃ hr₃ _ => ?_
    refine (steady_typeExpression _ _ _ _).bind fun type r₄ hr₄ _ => ?_
    refine (passes_expectChar _ _ _ _ _).bind fun _ r₅ hr₅ _ => ?_
    refine (passes_inspect _ _ _ _ _).bind fun count r₆ hr₆ _ => ?_
    have h₆ := hr₆.own (hr₅.own (hr₄.own (hr₃.own (hr₂.own (hr₁.own h)))))
    split
    · exact Leads.throw
    · refine (carries_newUnique (fun arena => arena.newField table ident.1 type ident.2)
        (Nat.zero_le _) (adds_newField ..) fun x hx => own_newField h₆ hx).bind fun node r₇ _ h₇ => ?_
      refine (carries_attachComments h₇).bind fun _ r₈ _ _ => ?_
      exact (steady_attachAttrs node _ _ _ r₈).bind fun _ _ _ _ => Leads.pure trivial
  · exact Leads.pure trivial

theorem carries_tableDeclaration (isStruct : Bool) :
    Leads (Carries counted cx.script 0) (tableDeclaration cx isStruct) r fun _ _ => True := by
  refine (passes_expectIdent _ _ _ _ _).bind fun ident r₁ _ _ => ?_
  refine (carries_leaf (Nat.zero_le _) ..).bind fun table r₂ _ h₂ => ?_
  refine (carries_declare h₂).bind fun _ r₃ hr₃ _ => ?_
  have hrest : ∀ r₄ : Reading σ, r₄.arena.Own cx.script table → Leads (Carries counted cx.script 0) (do
      expectChar '\x7b'
      repeatWhile (field cx table) cx.budget
      expectChar '\x7d') r₄ fun _ _ => True := by
    intro r₄ h₄
    refine (passes_expectChar _ _ _ _ _).bind fun _ r₅ hr₅ _ => ?_
    refine (carries_repeatWhile (fun hr h => hr.own h) (fun _ h => carries_field h) cx.budget
      (hr₅.own h₄)).bind fun _ r₆ _ _ => ?_
    exact (passes_expectChar _).steady _ _ _ r₆
  have h₃ := hr₃.own h₂.own
  dsimp only
  split
  · exact (steady_markStruct table _ _ _ _ _).bind fun _ r₄ hr₄ _ => hrest r₄ (hr₄.own h₃)
  · exact hrest r₃ h₃

/-! ### Contracts -/

theorem carries_baseContract (contract : NodeId) :
    Leads (Carries counted cx.script 0) (baseContract cx contract) r fun _ _ => True := by
  refine (carries_typeRef (Nat.zero_le _)).bind fun base r₁ _ h₁ => ?_
  refine (h₁.steady (passes_inspect _).steady).bind fun name r₂ _ h₂ => ?_
  refine (h₂.steady (passes_inspect _).steady).bind fun position r₃ _ h₃ => ?_
  refine (h₃.leads (carries_buildUnique (fun arena => arena.addBase contract base)
    (adds_addBase ..))).bind fun _ r₄ _ h₄ => ?_
  refine (carries_attachComments h₄.2).bind fun _ r₅ _ _ => ?_
  exact (passes_matchChar _).steady _ _ _ r₅

theorem own_newSlot {a : Arena} {s method type : NodeId} (h : a.Own s method) (place : UInt16)
    (position : Position) : (a.newSlot method place type position).2.Own s a.size :=
  own_of_adds (own_alloc_of_own h ..) ((Adds.adopt ..).trans (.adopt ..))

theorem carries_slot {method : Nat} (isResult : Bool) (hm : mark ≤ r.arena.size)
    (h : r.arena.Own cx.script method) :
    Leads (Carries counted cx.script mark) (slot cx method isResult) r fun _ _ => True := by
  refine (carries_attributes hm).bind fun _ r₁ hr₁ hm₁ => ?_
  refine (passes_peek _ _ _ _).bind fun first r₂ hr₂ _ => ?_
  refine (steady_typeExpression _ _ _ _).bind fun type r₃ hr₃ _ => ?_
  have hm₃ := Nat.le_trans (Nat.le_trans hm₁ hr₂.size_le) hr₃.size_le
  have h₃ := hr₃.own (hr₂.own (hr₁.own h))
  have hnew : Leads (Carries counted cx.script mark) (build fun arena =>
      if isResult then arena.newResult method type first.position
      else arena.newParam method type first.position) r₃ (New cx.script mark) := by
    have hown : ∀ place, (r₃.arena.newSlot method place type first.position).2.Own cx.script
        r₃.arena.size := fun place => own_newSlot h₃ place first.position
    cases isResult with
    | true =>
      exact carries_new (fun arena => arena.newResult method type first.position) hm₃
        (adds_newResult ..) rfl (own_of_adds (hown _) (.updateKind ..))
    | false =>
      exact carries_new (fun arena => arena.newParam method type first.position) hm₃
        (adds_newParam ..) rfl (own_of_adds (hown _) (.updateKind ..))
  refine hnew.bind fun node r₄ _ h₄ => ?_
  refine (h₄.steady (steady_attachAttrs node)).bind fun _ r₅ _ h₅ => ?_
  refine (carries_attachComments h₅).bind fun _ r₆ _ _ => ?_
  exact (passes_matchChar _).steady _ _ _ r₆

theorem carries_slots {method : Nat} (isResult : Bool) (hm : mark ≤ r.arena.size)
    (h : r.arena.Own cx.script method) :
    Leads (Carries counted cx.script mark) (slots cx method isResult) r fun _ r' =>
      mark ≤ r'.arena.size ∧ r'.arena.Own cx.script method :=
  carries_repeatWhile (I := fun r => mark ≤ r.arena.size ∧ r.arena.Own cx.script method)
    (fun hr h => ⟨Nat.le_trans h.1 hr.size_le, hr.own h.2⟩)
    (fun _ h => carries_slot isResult h.1 h.2) cx.budget ⟨hm, h⟩

/-- The slots of a method claim for themselves only. -/
theorem carries_signature {method : Nat} (hm : mark ≤ r.arena.size)
    (h : r.arena.Own cx.script method) :
    Leads (Carries counted cx.script mark) (signature cx method) r fun _ _ => True := by
  refine (passes_expectChar _ _ _ _ _).bind fun _ r₁ hr₁ _ => ?_
  refine (passes_nextIs _ _ _ _ _).bind fun closed r₂ hr₂ _ => ?_
  have hm₂ := Nat.le_trans (Nat.le_trans hm hr₁.size_le) hr₂.size_le
  have h₂ := hr₂.own (hr₁.own h)
  have hrest : ∀ r₃ : Reading σ, mark ≤ r₃.arena.size → r₃.arena.Own cx.script method →
      Leads (Carries counted cx.script mark) (do
        expectChar ')'
        let token ← peek
        if token.kind == .arrow then
          advance
          expectChar '('
          slots cx method true
          expectChar ')'
        expectChar ';') r₃ fun _ _ => True := by
    intro r₃ hm₃ h₃
    refine (passes_expectChar _ _ _ _ _).bind fun _ r₄ hr₄ _ => ?_
    refine carries_peek.bind fun token r₅ hr₅ ⟨_, hshows⟩ => ?_
    dsimp only
    split
    · refine (carries_advance hshows).bind fun _ r₆ hr₆ _ => ?_
      refine (passes_expectChar _ _ _ _ _).bind fun _ r₇ hr₇ _ => ?_
      have hr := trans_of (Carries counted cx.script mark) (trans_of (Carries counted cx.script mark) hr₄ hr₅)
        (trans_of (Carries counted cx.script mark) hr₆ hr₇)
      refine (carries_slots true (Nat.le_trans hm₃ hr.size_le) (hr.own h₃)).bind fun _ r₈ _ _ => ?_
      exact ((passes_expectChar _).steady.bind fun _ => (passes_expectChar _).steady) _ _ _ r₈
    · exact (passes_expectChar _).steady _ _ _ r₅
  dsimp only
  split
  · exact (carries_slots false hm₂ h₂).bind fun _ r₃ _ h₃ => hrest r₃ h₃.1 h₃.2
  · exact hrest r₂ hm₂ h₂

theorem own_newMethod {a : Arena} {s contract x : NodeId} (h : a.Own s contract) {name : String}
    {position : Position} (hx : (a.newMethod contract name position).1 = .ok x) :
    x = a.size ∧ (a.newMethod contract name position).2.Own s a.size ∧
      (a.newMethod contract name position).2.position a.size = position := by
  revert hx
  unfold newMethod
  split
  · exact nofun
  split
  · exact nofun
  · rintro ⟨⟩
    dsimp only
    generalize NodeKind.method ⟨UInt16.ofNat (a.methodCount contract), #[], #[]⟩ = kind
    have hown := own_alloc_of_own h name position kind
    have hadds : (a.alloc name (a.node contract).script position kind).2.Adds s
        (((a.alloc name (a.node contract).script position kind).2.adopt contract a.size).insertMethod
          contract name a.size) :=
      (Adds.adopt ..).trans (.updateKind ..)
    refine ⟨rfl, own_of_adds hown hadds, (hadds.position_eq _ hown.lt_size).trans ?_⟩
    rw [Arena.position, node_alloc, if_pos rfl]
    rfl

/-- A method claims what stands before it and, when its slots are read, what they left on its line. -/
theorem carries_method {contract : Nat} (ha : Accounts counted cx.script all r)
    (h : r.arena.Own cx.script contract) :
    Leads (Carries counted cx.script 0) (method cx contract) r fun _ _ => True := by
  refine (carries_attributes (Nat.zero_le _)).bind fun _ r₁ hr₁ _ => ?_
  refine (passes_nextIsIdent _ _ _ _).bind fun found r₂ hr₂ _ => ?_
  have ha₂ := hr₂.accounts all (hr₁.accounts all ha)
  split
  · refine carries_expectIdent.bind fun ident r₃ hr₃ ⟨_, hbehind₃⟩ => ?_
    refine (passes_inspect _ _ _ _ _).bind fun count r₄ hr₄ _ => ?_
    have h₄ := hr₄.own (hr₃.own (hr₂.own (hr₁.own h)))
    split
    · exact Leads.throw
    · refine (carries_buildUnique (fun arena => arena.newMethod contract ident.1 ident.2)
        (adds_newMethod ..)).bind fun node r₅ hr₅ ⟨hx, hr₅'⟩ => ?_
      obtain ⟨rfl, hown, hposition⟩ := own_newMethod h₄ hx
      have h₅ : New cx.script 0 r₄.arena.size r₅ :=
        hr₅' ▸ ⟨hown, Nat.zero_le _, (adds_newMethod ..).bare _ (Nat.le_refl _) hown⟩
      have hbehind₅ : counted → Behind r₄.arena.size r₅ := by
        intro hcounted c hc
        rw [show r₅.arena.position r₄.arena.size = ident.2 from hr₅' ▸ hposition]
        have hc₃ := hr₄.leaves.comments_suffix.mem (hr₅.leaves.comments_suffix.mem hc)
        exact hbehind₃ (ha₂.places hcounted) c hc₃
      generalize r₄.arena.size = node at h₅ hbehind₅
      have hattrs := h₅.leads (steady_attachAttrs node counted _ _ r₅)
      refine hattrs.bind fun _ r₆ hr₆ ⟨_, h₆⟩ => ?_
      have ha₆ := hr₆.accounts all (hr₅.accounts all (hr₄.accounts all (hr₃.accounts all ha₂)))
      refine (carries_attachComments h₆).bind fun _ r₇ hr₇ hrests => ?_
      have h₇ := hrests all ha₆ fun hcounted => (hbehind₅ hcounted).keep h₅.own.lt_size hr₆
      have hsignature := h₇.leads (Nat.zero_le _) (carries_signature h₇.own.lt_size h₇.own)
      refine hsignature.bind fun _ r₈ _ h₈ => ?_
      exact (carries_attachComments_again h₈ (Nat.zero_le _)).bind fun _ _ _ _ => Leads.pure trivial
  · exact Leads.pure trivial

theorem carries_contractDeclaration (ha : Accounts counted cx.script all r) :
    Leads (Carries counted cx.script 0) (contractDeclaration cx) r fun _ _ => True := by
  refine (passes_expectIdent _ _ _ _ _).bind fun ident r₁ hr₁ _ => ?_
  refine (carries_leaf (Nat.zero_le _) ..).bind fun contract r₂ hr₂ h₂ => ?_
  refine (carries_declare h₂).bind fun _ r₃ hr₃ _ => ?_
  have hrest : ∀ r₄ : Reading σ, r₄.arena.Own cx.script contract ∧ Accounts counted cx.script all r₄ →
      Leads (Carries counted cx.script 0) (do
        expectChar '\x7b'
        repeatWhile (method cx contract) cx.budget
        expectChar '\x7d') r₄ fun _ _ => True := by
    intro r₄ h₄
    refine (passes_expectChar _ _ _ _ _).bind fun _ r₅ hr₅ _ => ?_
    refine (carries_repeatWhile
      (I := fun r => r.arena.Own cx.script contract ∧ Accounts counted cx.script all r)
      (fun hr h => ⟨hr.own h.1, hr.accounts all h.2⟩) (fun _ h => carries_method h.2 h.1) cx.budget
      ⟨hr₅.own h₄.1, hr₅.accounts all h₄.2⟩).bind fun _ r₆ _ _ => ?_
    exact (passes_expectChar _).steady _ _ _ r₆
  have h₃ := hr₃.own h₂.own
  have ha₃ := hr₃.accounts all (hr₂.accounts all (hr₁.accounts all ha))
  refine (passes_matchChar _ _ _ _ _).bind fun found r₄ hr₄ _ => ?_
  dsimp only
  split
  · refine (carries_repeatWhile
      (I := fun r => r.arena.Own cx.script contract ∧ Accounts counted cx.script all r)
      (fun hr h => ⟨hr.own h.1, hr.accounts all h.2⟩) (fun _ _ => carries_baseContract contract)
      cx.budget ⟨hr₄.own h₃, hr₄.accounts all ha₃⟩).bind fun _ r₅ _ h₅ => ?_
    exact (passes_expectChar _ _ _ _ _).bind fun _ r₆ hr₆ _ =>
      hrest r₆ ⟨hr₆.own h₅.1, hr₆.accounts all h₅.2⟩
  · exact hrest r₄ ⟨hr₄.own h₃, hr₄.accounts all ha₃⟩

end SchemaLang.Parse
