import SchemaLang.Proofs.Grammar.Expressions

/-!
# Reading declarations

A declaration is entered into its package and its script before its members are read, so nothing of
it waits while they are. What its members need is that it stays what it is (`Parse.Holds`).
-/

namespace SchemaLang.Parse

open Arena

variable {σ : Type} {cx : ReadingContext σ} {p : Nat} {hosting : Hosting cx.importer p}
  {r r' : Reading σ} {loose : List NodeId} {kind : NodeKind} {m n : Nat}

/-- Nothing but what stands is in hand, beside a node that has its owner. -/
structure Holds (hosting : Hosting cx.importer p) (loose : List NodeId) (kind : NodeKind) (m : Nat)
    (r : Reading σ) : Prop where
  stands : Stands hosting r loose
  tagged : r.arena.Tagged cx.script kind m

theorem Holds.retake (h : Holds hosting loose kind m r) (feed : Feed) (comments : List Comment) :
    Holds hosting loose kind m (retake r feed comments) :=
  ⟨h.stands.retake feed comments, h.tagged⟩

theorem Holds.own (h : Holds hosting loose kind m r) : r.arena.Own cx.script m :=
  h.tagged.own

/-- A part that keeps what stands keeps what is held. -/
theorem leads_holds {α : Type} {part : Parse σ α} (h : Holds hosting loose kind m r)
    (hp : Leads (Steps hosting 0) part r fun _ r' => Stands hosting r' loose) :
    Leads (Steps hosting 0) part r fun _ r' => Holds hosting loose kind m r' :=
  hp.mono fun _ _ hr hs => ⟨hs, h.tagged.grows hr.grows⟩

/-- A node that has its owner gets the attributes that wait, and its comments. -/
theorem leads_dress (h : Stands hosting r loose) (hn : r.arena.Own cx.script n)
    (hc : (r.arena.kind n).carries = true) :
    Leads (Steps hosting 0) (do
      attachComments n
      attachAttrs n) r fun _ r' => Stands hosting r' loose := by
  refine (leads_attachComments h (Or.inr hn) (Nat.zero_le _)).bind fun _ r₁ hr₁ h₁ => ?_
  have hc₁ : (r₁.arena.kind n).carries = true :=
    (NodeKind.carries_congr (hr₁.grows.shape hn.lt_size)).trans hc
  exact (leads_attachAttrs h₁ (Or.inr (hr₁.grows.own hn)) hc₁).mono fun _ _ _ h => h.1

theorem leads_declare {name : String} {position : Position} {type : Nat}
    (h : Stands hosting r (type :: loose)) (hl : (r.arena.kind type).level = 6) :
    Leads (Steps hosting 0) (declare cx name position type) r
      fun _ r' => Stands hosting r' loose := by
  have ho := h.forest.held type (List.mem_cons_self ..)
  refine (leads_unique (Q := fun _ r₁ => Stands hosting r₁ loose) h
    ((h.forest.declareType hl).mono fun _ b hb => ?_)).bind fun _ r₁ hr₁ h₁ => ?_
  · exact ⟨hb.1, fun n hn => by omega, h.rebuild hb.1 hb.2⟩
  · refine leads_dress h₁ (hr₁.grows.own ho) (NodeKind.carries_of_level ?_)
    rw [hr₁.grows.level ho.lt_size, hl]

/-- Nothing but what stands is in hand, and every enum has values where every enum had them. -/
structure Settles (hosting : Hosting cx.importer p) (loose : List NodeId) (r r' : Reading σ) :
    Prop where
  stands : Stands hosting r' loose
  filled : r.arena.Filled cx.script [] → r'.arena.Filled cx.script []

theorem leads_settles {α : Type} {part : Parse σ α}
    (hp : Leads (Steps hosting 0) part r fun _ r' => Stands hosting r' loose) :
    Leads (Runs hosting) part r fun _ r' => Settles hosting loose r r' :=
  leads_runs (hp.mono fun _ _ hr hs => ⟨hs, hr.filled⟩)

/-- A new declaration: its node, and its entry into the package. An enum has values when its
declaration is read. -/
theorem leads_newDeclaration {name : String} {position : Position} (h : Stands hosting r loose)
    (kind : NodeKind) (hfit : Fit (hosting.served r.host) r.arena kind) (hparts : kind.parts = [])
    (hl : kind.level = 6) {rest : NodeId → Parse σ Unit}
    (hrest : ∀ m r₁, Holds hosting loose kind m r₁ → Leads (Steps hosting 0) (rest m) r₁
      fun _ r' => Stands hosting r' loose ∧
        ∀ decl, r'.arena.kind m = .enum decl → decl.default.isSome) :
    Leads (Runs hosting) (do
      let m ← build fun arena => arena.alloc name (some cx.script) position kind
      declare cx name position m
      rest m) r fun _ r' => Settles hosting loose r r' := by
  obtain ⟨hmade, hf⟩ := h.forest.leaf name position kind hfit hparts
  have hbuild : Leads (Runs hosting)
      (build fun arena => arena.alloc name (some cx.script) position kind) r fun m r' =>
      Stands hosting r' (m :: loose) ∧ r'.arena.kind m = kind ∧
        (r.arena.Filled cx.script [] → r'.arena.Filled cx.script [m]) := by
    refine .of_ok (build_eq _ r) (h.runs hmade) ⟨h.remake hmade hf, kind_alloc_self .., ?_⟩
    intro hfilled
    refine hmade.toGrows.filled (fun n hn ho hne => absurd ?_ hne)
      fun n decl ho hk _ => hfilled n decl ho hk List.not_mem_nil
    have hlt : n < r.arena.size + 1 := size_alloc .. ▸ ho.lt_size
    exact List.mem_singleton.2 (Nat.le_antisymm (Nat.le_of_lt_succ hlt) hn)
  refine hbuild.bind fun m r₁ hr₁ hg => ?_
  obtain ⟨h₁, hk, hfilled₁⟩ := hg
  have hm : r₁.arena.Tagged cx.script kind m :=
    ⟨h₁.forest.held m (List.mem_cons_self ..), .of_eq hk⟩
  have hdeclare : Leads (Steps hosting 0) (declare cx name position m) r₁ fun _ r' =>
      Holds hosting loose kind m r' ∧
        (r.arena.Filled cx.script [] → r'.arena.Filled cx.script [m]) :=
    (leads_declare h₁ (by rw [hk, hl])).mono fun _ r₂ hr₂ h₂ =>
      ⟨⟨h₂, hm.grows hr₂.grows⟩, fun hfilled => hr₂.filled (hfilled₁ hfilled)⟩
  refine (leads_runs hdeclare).bind fun _ r₂ _ h₂ => ?_
  refine leads_runs ((hrest m r₂ h₂.1).mono fun _ r₃ hr₃ h₃ => ⟨h₃.1, ?_⟩)
  intro hfilled n decl ho hk _
  by_cases hn : n = m
  · exact h₃.2 decl (hn ▸ hk)
  · exact hr₃.filled (h₂.2 hfilled) n decl ho hk fun hmem => hn (List.mem_singleton.1 hmem)

/-- A declaration that is no enum has no values to wait for. -/
theorem Holds.not_enum (h : Holds hosting loose kind m r)
    (hk : ∀ decl, kind.ctorIdx ≠ (NodeKind.enum decl).ctorIdx) (decl : Enumeration)
    (he : r.arena.kind m = .enum decl) : decl.default.isSome := by
  have hshape := h.tagged.shape
  rw [he] at hshape
  exact absurd hshape.symm (hk decl)

/-! ## Enums -/

theorem leads_enumValue {decl : Enumeration} {enum : Nat} {enumName : String}
    (h : Holds hosting loose (.enum decl) enum r) :
    Leads (Steps hosting 0) (enumValue cx enum enumName decl.base) r
      fun _ r' => Holds hosting loose (.enum decl) enum r' ∧
        ∀ decl', r'.arena.kind enum = .enum decl' → decl'.default.isSome := by
  refine (leads_holds h (leads_attributes h.stands)).bind fun _ r₁ _ h₁ => ?_
  refine leads_quiet_bind (quiet_expectIdent _) fun ident feed₂ comments₂ => ?_
  refine leads_quiet_bind (quiet_expectChar _) fun _ feed₃ comments₃ => ?_
  refine leads_quiet_bind (quiet_matchChar _) fun negative feed₄ comments₄ => ?_
  refine leads_quiet_bind quiet_next fun literal feed₅ comments₅ => ?_
  have h₅ := (((h₁.retake feed₂ comments₂).retake feed₃ comments₃).retake feed₄ comments₄).retake
    feed₅ comments₅
  split
  · rename_i size _
    dsimp only
    generalize (if negative = true then -size else size) = value
    split
    · rename_i hrange
      refine leads_quiet_bind (quiet_expectChar _) fun _ feed₆ comments₆ => ?_
      have h₆ := h₅.retake feed₆ comments₆
      obtain ⟨decl', hk⟩ := NodeKind.enum_of_ctorIdx h₆.tagged.shape
      have hrange' : decl'.base.contains value.toInt = true :=
        h₆.tagged.grown.base decl decl' rfl hk ▸ hrange
      refine (leads_unique (Q := fun n r₇ => Stands hosting r₇ loose ∧ r₇.arena.Own cx.script n ∧
        (r₇.arena.kind n).ctorIdx = (NodeKind.enumValue value).ctorIdx ∧
        ∃ decl, r₇.arena.kind enum = .enum decl ∧ decl.default.isSome) h₆.stands
        ((h₆.stands.forest.newEnumValue h₆.own hk _ _ _ hrange').mono fun n b hb => ?_)).bind
          fun n r₇ hr₇ h₇ => ?_
      · exact ⟨hb.1, fun n hn => by omega, h₆.stands.rebuild hb.1 hb.2.1, hb.2.2⟩
      obtain ⟨hs₇, hn, hl, full, hfull, hfirst⟩ := h₇
      have ht₇ := h₆.tagged.grows hr₇.grows
      refine (leads_attachAttrs hs₇ (Or.inr hn) (NodeKind.carries_congr hl)).bind fun _ r₈ hr₈ h₈ => ?_
      refine leads_quiet_bind (quiet_matchChar _) fun more feed₉ comments₉ => ?_
      refine (leads_attachComments (h₈.1.retake feed₉ comments₉) (Or.inr (hr₈.grows.own hn))
        (Nat.zero_le _)).bind fun _ r₁₀ hr₁₀ h₁₀ => Leads.pure ⟨?_, fun last hlast => ?_⟩
      · exact ⟨h₁₀, (ht₇.grows hr₈.grows).grows hr₁₀.grows⟩
      · have hgrown := ((hr₈.grows.trans hr₁₀.grows).grown enum ht₇.own.lt_size).default full last
          hfull hlast hfirst
        exact hgrown ▸ hfirst
    · exact leads_failAt
  · exact leads_unexpected

theorem leads_enumDeclaration (h : Stands hosting r loose) (hbudget : 0 < cx.budget) :
    Leads (Runs hosting) (enumDeclaration cx) r fun _ r' => Settles hosting loose r r' := by
  refine runs_quiet_bind (quiet_expectIdent _) fun ident feed comments => ?_
  refine runs_quiet_bind quiet_enumBase fun base feed₁ comments₁ => ?_
  have h₁ := (h.retake feed comments).retake feed₁ comments₁
  have hfit : Fit (hosting.served r.host) r.arena (.enum ⟨base, .empty, none, false⟩) :=
    ⟨rfl, fun entry he => by cases he⟩
  refine (leads_newDeclaration h₁ _ hfit rfl rfl fun enum r₂ h₂ => ?_).mono
    fun _ r' _ hs => ⟨hs.stands, hs.filled⟩
  refine leads_quiet_bind (quiet_expectChar _) fun _ feed₃ comments₃ => ?_
  refine (leads_repeatWhile_pos (fun r hi => leads_enumValue hi) (fun r hj => hj.1) hbudget
    (h₂.retake feed₃ comments₃)).bind fun _ r₄ _ h₄ => ?_
  exact leads_quiet (quiet_expectChar _) fun _ feed₅ comments₅ =>
    ⟨h₄.1.stands.retake feed₅ comments₅, h₄.2⟩

/-! ## Tables -/

theorem leads_markStruct {decl : Table} {table : Nat} {position : Position}
    (h : Holds hosting loose (.table decl) table r) :
    Leads (Steps hosting 0) (markStruct cx table position) r
      fun _ r' => Stands hosting r' loose := by
  refine (leads_builtinRef h.stands (Nat.zero_le _) _ _).bind fun type r₁ hr₁ hg => ?_
  refine (leads_wrap hg (·.name type) position (.attr ⟨type, none⟩)
    ⟨Nat.le_zero.1 hg.level_le, nofun⟩ rfl (by decide : 3 < 6) (Nat.zero_le 3)).bind
      fun attr r₂ hr₂ hg₂ => ?_
  have ht := (h.tagged.grows hr₁.grows).grows hr₂.grows
  obtain ⟨hb, hf⟩ := hg₂.1.stands.forest.carry (Or.inr ht.own) (NodeKind.carries_of_level ht.level)
    (by
      rw [attr?_eq_some.2 hg₂.2]
      rfl)
  exact leads_build hg₂.1.stands hb (fun n hn => by omega) (hg₂.1.stands.rebuild hb hf)

theorem leads_field {decl : Table} {table : Nat} (h : Holds hosting loose (.table decl) table r) :
    Leads (Steps hosting 0) (field cx table) r
      fun _ r' => Holds hosting loose (.table decl) table r' := by
  refine (leads_holds h (leads_attributes h.stands)).bind fun _ r₁ _ h₁ => ?_
  refine leads_quiet_bind quiet_nextIsIdent fun found feed₂ comments₂ => ?_
  have h₂ := h₁.retake feed₂ comments₂
  split
  · refine leads_quiet_bind (quiet_expectIdent _) fun ident feed₃ comments₃ => ?_
    have h₃ := h₂.retake feed₃ comments₃
    refine (leads_typeExpression h₃.stands).bind fun type r₄ hr₄ hg => ?_
    refine leads_quiet_bind (quiet_expectChar _) fun _ feed₅ comments₅ => ?_
    have hg₅ := hg.retake feed₅ comments₅
    have hs₅ := hg₅.gives.stands
    have ht := h₃.tagged.grows hr₄.grows
    obtain ⟨decl', hk⟩ := NodeKind.table_of_ctorIdx ht.shape
    refine leads_inspect_bind ?_
    split
    · exact leads_failAt
    · rename_i hcount
      refine (leads_unique (Q := fun n r₇ => Stands hosting r₇ loose ∧ r₇.arena.Own cx.script n ∧
        (r₇.arena.kind n).ctorIdx = (NodeKind.field ⟨0, type⟩).ctorIdx) hs₅
        ((hs₅.forest.newField ht.own hk hg₅.isType (Nat.lt_of_not_le hcount) _ _).mono
          fun n b hb => ?_)).bind fun n r₇ hr₇ h₇ => ?_
      · exact ⟨hb.1, fun n hn => by omega, hs₅.rebuild hb.1 hb.2.1, hb.2.2⟩
      obtain ⟨hs₇, hn, hl⟩ := h₇
      have ht₇ := ht.grows hr₇.grows
      refine (leads_attachComments hs₇ (Or.inr hn) (Nat.zero_le _)).bind fun _ r₈ hr₈ h₈ => ?_
      refine (leads_attachAttrs h₈ (Or.inr (hr₈.grows.own hn))
        (NodeKind.carries_congr ((hr₈.grows.shape hn.lt_size).trans hl))).bind fun _ r₉ hr₉ h₉ => Leads.pure ?_
      exact ⟨h₉.1, (ht₇.grows hr₈.grows).grows hr₉.grows⟩
  · exact Leads.pure h₂

theorem leads_tableDeclaration (isStruct : Bool) (h : Stands hosting r loose) :
    Leads (Runs hosting) (tableDeclaration cx isStruct) r
      fun _ r' => Settles hosting loose r r' := by
  refine runs_quiet_bind (quiet_expectIdent _) fun ident feed comments => ?_
  refine (leads_newDeclaration (h.retake feed comments) (.table ⟨#[], false⟩)
    ⟨Nat.zero_le _, fun i hi => absurd hi (Nat.not_lt_zero i), List.nodup_nil⟩ rfl rfl
    fun table r₁ h₁ => ?_).mono fun _ r' _ hs => ⟨hs.stands, hs.filled⟩
  have hrest : ∀ r₂, Holds hosting loose (.table ⟨#[], false⟩) table r₂ →
      Leads (Steps hosting 0) (do
        expectChar '\x7b'
        repeatWhile (field cx table) cx.budget
        expectChar '\x7d') r₂ fun _ r' => Stands hosting r' loose ∧
          ∀ decl, r'.arena.kind table = .enum decl → decl.default.isSome := by
    intro r₂ h₂
    refine leads_quiet_bind (quiet_expectChar _) fun _ feed₃ comments₃ => ?_
    refine (leads_repeatWhile (fun r hi => leads_field hi) cx.budget _
      (h₂.retake feed₃ comments₃)).bind fun _ r₄ _ h₄ => ?_
    exact leads_quiet (quiet_expectChar _) fun _ feed₅ comments₅ =>
      ⟨h₄.stands.retake feed₅ comments₅, h₄.not_enum nofun⟩
  dsimp only
  split
  · exact (leads_holds h₁ (leads_markStruct h₁)).bind fun _ r₂ _ h₂ => hrest r₂ h₂
  · exact hrest r₁ h₁

/-! ## Contracts -/

theorem leads_baseContract {decl : Contract} {contract : Nat}
    (h : Holds hosting loose (.contract decl) contract r) :
    Leads (Steps hosting 0) (baseContract cx contract) r
      fun _ r' => Holds hosting loose (.contract decl) contract r' := by
  refine (leads_typeRef h.stands (Nat.zero_le _)).bind fun base r₁ hr₁ hg => ?_
  refine leads_quiet_bind (quiet_inspect _) fun name feed₂ comments₂ => ?_
  refine leads_quiet_bind (quiet_inspect _) fun position feed₃ comments₃ => ?_
  have hg₃ := (hg.retake feed₂ comments₂).retake feed₃ comments₃
  have ht := h.tagged.grows hr₁.grows
  obtain ⟨decl', hk⟩ := NodeKind.contract_of_ctorIdx ht.shape
  refine (leads_unique (Q := fun _ r₄ => Stands hosting r₄ loose ∧ r₄.arena.Own cx.script base)
    hg₃.stands ((hg₃.stands.forest.addBase ht.own hk (Nat.le_zero.1 hg₃.level_le)).mono
      fun _ b hb => ?_)).bind fun _ r₄ hr₄ h₄ => ?_
  · exact ⟨hb.1, fun n hn => by omega, hg₃.stands.rebuild hb.1 hb.2, hb.1.toGrows.own hg₃.own⟩
  refine (leads_attachComments h₄.1 (Or.inr h₄.2) (Nat.zero_le _)).bind fun _ r₅ hr₅ h₅ => ?_
  exact leads_quiet (quiet_matchChar _) fun _ feed₆ comments₆ =>
    Holds.retake ⟨h₅, (ht.grows hr₄.grows).grows hr₅.grows⟩ feed₆ comments₆

theorem leads_slot {decl : Method} {method : Nat} {isResult : Bool}
    (h : Holds hosting loose (.method decl) method r) :
    Leads (Steps hosting 0) (slot cx method isResult) r
      fun _ r' => Holds hosting loose (.method decl) method r' := by
  refine (leads_holds h (leads_attributes h.stands)).bind fun _ r₁ _ h₁ => ?_
  refine leads_quiet_bind quiet_peek fun first feed₂ comments₂ => ?_
  have h₂ := h₁.retake feed₂ comments₂
  refine (leads_typeExpression h₂.stands).bind fun type r₃ hr₃ hg => ?_
  have ht := h₂.tagged.grows hr₃.grows
  obtain ⟨decl', hk⟩ := NodeKind.method_of_ctorIdx ht.shape
  have hnew : Leads (Steps hosting 0) (build fun arena =>
      if isResult then arena.newResult method type first.position
      else arena.newParam method type first.position) r₃ fun n r₄ =>
      Stands hosting r₄ loose ∧ r₄.arena.Own cx.script n ∧
        (r₄.arena.kind n).ctorIdx = (NodeKind.param ⟨0, type⟩).ctorIdx := by
    have hs := hg.gives.stands
    cases isResult with
    | true =>
      obtain ⟨hb, hf, ho, hl⟩ := hs.forest.newResult ht.own hk hg.isType first.position
      exact leads_build hs hb (fun n hn => by omega) ⟨hs.rebuild hb hf, ho, hl⟩
    | false =>
      obtain ⟨hb, hf, ho, hl⟩ := hs.forest.newParam ht.own hk hg.isType first.position
      exact leads_build hs hb (fun n hn => by omega) ⟨hs.rebuild hb hf, ho, hl⟩
  refine hnew.bind fun n r₄ hr₄ h₄ => ?_
  obtain ⟨hs₄, hn, hl⟩ := h₄
  refine (leads_attachAttrs hs₄ (Or.inr hn) (NodeKind.carries_congr hl)).bind fun _ r₅ hr₅ h₅ => ?_
  refine (leads_attachComments h₅.1 (Or.inr (hr₅.grows.own hn)) (Nat.zero_le _)).bind
    fun _ r₆ hr₆ h₆ => ?_
  exact leads_quiet (quiet_matchChar _) fun _ feed₇ comments₇ => Holds.retake
    ⟨h₆, ((ht.grows hr₄.grows).grows hr₅.grows).grows hr₆.grows⟩ feed₇ comments₇

theorem leads_slots {decl : Method} {method : Nat} {isResult : Bool}
    (h : Holds hosting loose (.method decl) method r) :
    Leads (Steps hosting 0) (slots cx method isResult) r
      fun _ r' => Holds hosting loose (.method decl) method r' :=
  leads_repeatWhile (fun _ hi => leads_slot hi) cx.budget r h

theorem leads_signature {decl : Method} {method : Nat}
    (h : Holds hosting loose (.method decl) method r) :
    Leads (Steps hosting 0) (signature cx method) r
      fun _ r' => Holds hosting loose (.method decl) method r' := by
  refine leads_quiet_bind (quiet_expectChar _) fun _ feed₁ comments₁ => ?_
  refine leads_quiet_bind (quiet_nextIs _) fun closed feed₂ comments₂ => ?_
  have h₂ := (h.retake feed₁ comments₁).retake feed₂ comments₂
  have hend : ∀ r₃, Holds hosting loose (.method decl) method r₃ →
      Leads (Steps hosting 0) (expectChar ';') r₃
        fun _ r' => Holds hosting loose (.method decl) method r' := fun r₃ h₃ =>
    leads_quiet (quiet_expectChar _) fun _ feed comments => h₃.retake feed comments
  have hrest : ∀ r₃, Holds hosting loose (.method decl) method r₃ →
      Leads (Steps hosting 0) (do
        expectChar ')'
        let token ← peek
        if token.kind == .arrow then
          advance
          expectChar '('
          slots cx method true
          expectChar ')'
        expectChar ';') r₃ fun _ r' => Holds hosting loose (.method decl) method r' := by
    intro r₃ h₃
    refine leads_quiet_bind (quiet_expectChar _) fun _ feed₄ comments₄ => ?_
    refine leads_quiet_bind quiet_peek fun token feed₅ comments₅ => ?_
    have h₅ := (h₃.retake feed₄ comments₄).retake feed₅ comments₅
    dsimp only
    split
    · refine leads_quiet_bind quiet_advance fun _ feed₆ comments₆ => ?_
      refine leads_quiet_bind (quiet_expectChar _) fun _ feed₇ comments₇ => ?_
      refine (leads_slots ((h₅.retake feed₆ comments₆).retake feed₇ comments₇)).bind
        fun _ r₈ _ h₈ => ?_
      refine leads_quiet_bind (quiet_expectChar _) fun _ feed₉ comments₉ => ?_
      exact hend _ (h₈.retake feed₉ comments₉)
    · exact hend _ h₅
  dsimp only
  split
  · exact (leads_slots h₂).bind fun _ r₃ _ h₃ => hrest r₃ h₃
  · exact hrest _ h₂

theorem leads_method {decl : Contract} {contract : Nat}
    (h : Holds hosting loose (.contract decl) contract r) :
    Leads (Steps hosting 0) (method cx contract) r
      fun _ r' => Holds hosting loose (.contract decl) contract r' := by
  refine (leads_holds h (leads_attributes h.stands)).bind fun _ r₁ _ h₁ => ?_
  refine leads_quiet_bind quiet_nextIsIdent fun found feed₂ comments₂ => ?_
  have h₂ := h₁.retake feed₂ comments₂
  split
  · refine leads_quiet_bind (quiet_expectIdent _) fun ident feed₃ comments₃ => ?_
    refine leads_quiet_bind (quiet_inspect _) fun count feed₄ comments₄ => ?_
    have h₄ := (h₂.retake feed₃ comments₃).retake feed₄ comments₄
    obtain ⟨decl', hk⟩ := NodeKind.contract_of_ctorIdx h₄.tagged.shape
    split
    · exact leads_failAt
    · refine (leads_unique
        (Q := fun n r₅ => ∃ number, Holds hosting loose (.method ⟨number, #[], #[]⟩) n r₅)
        h₄.stands ((h₄.stands.forest.newMethod h₄.own hk _ _).mono fun n b hb => ?_)).bind
          fun n r₅ hr₅ ⟨number, h₅⟩ => ?_
      · obtain ⟨hb, hf, ho, number, hgrown⟩ := hb
        exact ⟨hb, fun n hn => by omega, number, h₄.stands.rebuild hb hf, ho, hgrown⟩
      refine (leads_attachAttrs h₅.stands (Or.inr h₅.own)
        (NodeKind.carries_congr h₅.tagged.shape)).bind
        fun _ r₆ hr₆ h₆ => ?_
      have ht₆ := h₅.tagged.grows hr₆.grows
      refine (leads_attachComments h₆.1 (Or.inr ht₆.own) (Nat.zero_le _)).bind
        fun _ r₇ hr₇ h₇ => ?_
      have ht₇ := ht₆.grows hr₇.grows
      refine (leads_signature ⟨h₇, ht₇⟩).bind fun _ r₈ hr₈ h₈ => ?_
      refine (leads_attachComments h₈.stands (Or.inr h₈.own) (Nat.zero_le _)).bind
        fun _ r₉ hr₉ h₉ => Leads.pure ⟨h₉, ?_⟩
      exact ((((h₄.tagged.grows hr₅.grows).grows hr₆.grows).grows hr₇.grows).grows hr₈.grows).grows
        hr₉.grows
  · exact Leads.pure h₂

theorem leads_contractDeclaration (h : Stands hosting r loose) :
    Leads (Runs hosting) (contractDeclaration cx) r fun _ r' => Settles hosting loose r r' := by
  refine runs_quiet_bind (quiet_expectIdent _) fun ident feed comments => ?_
  have hfit : Fit (hosting.served r.host) r.arena (.contract ⟨#[], .empty, false⟩) :=
    ⟨rfl, nofun, nofun⟩
  refine (leads_newDeclaration (h.retake feed comments) _ hfit rfl rfl fun contract r₁ h₁ => ?_).mono
    fun _ r' _ hs => ⟨hs.stands, hs.filled⟩
  have hrest : ∀ r₂, Holds hosting loose (.contract ⟨#[], .empty, false⟩) contract r₂ →
      Leads (Steps hosting 0) (do
        expectChar '\x7b'
        repeatWhile (method cx contract) cx.budget
        expectChar '\x7d') r₂ fun _ r' => Stands hosting r' loose ∧
          ∀ decl, r'.arena.kind contract = .enum decl → decl.default.isSome := by
    intro r₂ h₂
    refine leads_quiet_bind (quiet_expectChar _) fun _ feed₃ comments₃ => ?_
    refine (leads_repeatWhile (fun r hi => leads_method hi) cx.budget _
      (h₂.retake feed₃ comments₃)).bind fun _ r₄ _ h₄ => ?_
    exact leads_quiet (quiet_expectChar _) fun _ feed₅ comments₅ =>
      ⟨h₄.stands.retake feed₅ comments₅, h₄.not_enum nofun⟩
  refine leads_quiet_bind (quiet_matchChar _) fun found feed₂ comments₂ => ?_
  have h₂ := h₁.retake feed₂ comments₂
  dsimp only
  split
  · refine (leads_repeatWhile (fun r hi => leads_baseContract hi) cx.budget _ h₂).bind
      fun _ r₃ _ h₃ => ?_
    refine leads_quiet_bind (quiet_expectChar _) fun _ feed₄ comments₄ => ?_
    exact hrest _ (h₃.retake feed₄ comments₄)
  · exact hrest _ h₂

end SchemaLang.Parse
