import SchemaLang.Proofs.Grammar.Reading

/-!
# Reading references, arguments, attributes and types

Each of these parts gives a node that waits for its owner (`Parse.Gives`). References and arguments
leave all older nodes alone, which an attribute relies on: it is made before its arguments are read,
and has none until it gets them.
-/

namespace SchemaLang.Parse

open Arena

variable {σ : Type} {cx : ReadingContext σ} {p mark : Nat} {hosting : Hosting cx.importer p}
  {r r' : Reading σ} {loose : List NodeId} {k n x : Nat}

/-- A part of a reading has given a new node, at most of the level `k`. -/
structure Gives (hosting : Hosting cx.importer p) (mark : Nat) (loose : List NodeId) (k n : Nat)
    (r : Reading σ) : Prop where
  stands : Stands hosting r (n :: loose)
  mark_le : mark ≤ n
  level_le : (r.arena.kind n).level ≤ k

namespace Gives

theorem own (h : Gives hosting mark loose k n r) : r.arena.Own cx.script n :=
  h.stands.forest.held n (List.mem_cons_self ..)

theorem le_size (h : Gives hosting mark loose k n r) : mark ≤ r.arena.size :=
  Nat.le_of_lt (Nat.lt_of_le_of_lt h.mark_le h.own.lt_size)

theorem mono {k' : Nat} (h : Gives hosting mark loose k n r) (hk : k ≤ k') :
    Gives hosting mark loose k' n r :=
  ⟨h.stands, h.mark_le, Nat.le_trans h.level_le hk⟩

theorem retake (h : Gives hosting mark loose k n r) (feed : Feed) (comments : List Comment) :
    Gives hosting mark loose k n (retake r feed comments) :=
  ⟨h.stands.retake feed comments, h.mark_le, h.level_le⟩

end Gives

theorem leads_gives {k' : Nat} {m : Parse σ NodeId}
    (h : Leads (Steps hosting mark) m r (Gives hosting mark loose k)) (hk : k ≤ k') :
    Leads (Steps hosting mark) m r (Gives hosting mark loose k') :=
  h.mono fun _ _ _ hg => hg.mono hk

/-! ## References -/

theorem fixed_alloc {a : Arena} (h : mark ≤ a.size) (name : String) (link : Option NodeId)
    (position : Position) (kind : NodeKind) (n : Nat) (hn : n < mark) :
    (a.alloc name link position kind).2.node n = a.node n := by
  rw [node_alloc, if_neg (by omega)]

/-- A node that owns nothing. -/
theorem leads_leaf (h : Stands hosting r loose) (hm : mark ≤ r.arena.size) (name : String)
    (position : Position) (kind : NodeKind)
    (hfit : Fit (hosting.served r.host) r.arena kind) (hparts : kind.parts = [])
    (hlow : kind.level < 6) :
    Leads (Steps hosting mark)
      (build fun arena => arena.alloc name (some cx.script) position kind) r
      fun n r' => Gives hosting mark loose kind.level n r' ∧ r'.arena.kind n = kind := by
  obtain ⟨hmade, hf⟩ := h.forest.leaf name position kind hfit hparts
  have hb := hmade.builds_alloc hlow
  refine leads_build h hb (fixed_alloc hm _ _ _ _) ⟨⟨h.rebuild hb hf, hm, ?_⟩, ?_⟩
  · exact Nat.le_of_eq (congrArg _ (kind_alloc_self ..))
  · exact kind_alloc_self ..

/-- A literal or a reference. -/
theorem leads_literal (h : Stands hosting r loose) (hm : mark ≤ r.arena.size) (name : String)
    (position : Position) (kind : NodeKind)
    (hfit : Fit (hosting.served r.host) r.arena kind) (hparts : kind.parts = [])
    (hlow : kind.level ≤ 1) :
    Leads (Steps hosting mark)
      (build fun arena => arena.alloc name (some cx.script) position kind) r
      (Gives hosting mark loose kind.level) :=
  (leads_leaf h hm name position kind hfit hparts (Nat.lt_of_le_of_lt hlow (by decide))).mono
    fun _ _ _ hg => hg.1

/-- A node that owns the node in hand. -/
theorem leads_wrap (h : Gives hosting mark loose k x r) (name : Arena → String) (position : Position)
    (kind : NodeKind) (hfit : Fit (hosting.served r.host) r.arena kind)
    (hparts : kind.parts = [x]) (hlow : kind.level < 6) (hk : k ≤ kind.level) :
    Leads (Steps hosting mark) (build fun arena =>
      (arena.size, (arena.alloc (name arena) (some cx.script) position kind).2.adopt arena.size x)) r
      fun n r' => Gives hosting mark loose kind.level n r' ∧ r'.arena.kind n = kind := by
  have hm := h.le_size
  obtain ⟨hb, hf⟩ := h.stands.forest.wrap (name r.arena) position kind hfit hparts
    hlow (Nat.le_trans h.level_le hk)
  have hnew : ((r.arena.alloc (name r.arena) (some cx.script) position kind).2.adopt r.arena.size x).kind
      r.arena.size = kind := by
    rw [kind_adopt, kind_alloc_self]
  refine leads_build h.stands hb (fun n hn => ?_)
    ⟨⟨h.stands.rebuild hb hf, hm, Nat.le_of_eq (congrArg _ hnew)⟩, hnew⟩
  unfold adopt
  rw [fixed_update h.mark_le _ n hn, fixed_alloc hm _ _ _ _ n hn]

/-- A node that owns two nodes in hand. -/
theorem leads_join {y : Nat} (h : Gives hosting mark (x :: loose) k y r) (hx : mark ≤ x)
    (hl : (r.arena.kind x).level ≤ k) (name : String) (position : Position) (kind : NodeKind)
    (hfit : Fit (hosting.served r.host) r.arena kind) (hparts : kind.parts = [x, y])
    (hlow : kind.level < 6) (hk : k ≤ kind.level) :
    Leads (Steps hosting mark) (build fun arena =>
      (arena.size, ((arena.alloc name (some cx.script) position kind).2.adopt arena.size x).adopt
        arena.size y)) r
      fun n r' => Gives hosting mark loose kind.level n r' ∧ r'.arena.kind n = kind := by
  have hm := h.le_size
  obtain ⟨hb, hf⟩ := h.stands.forest.swap.join name position kind hfit hparts
    hlow (Nat.le_trans hl hk) (Nat.le_trans h.level_le hk)
  have hnew : (((r.arena.alloc name (some cx.script) position kind).2.adopt r.arena.size x).adopt
      r.arena.size y).kind r.arena.size = kind := by
    rw [kind_adopt, kind_adopt, kind_alloc_self]
  refine leads_build h.stands hb (fun n hn => ?_)
    ⟨⟨h.stands.rebuild hb hf, hm, Nat.le_of_eq (congrArg _ hnew)⟩, hnew⟩
  unfold adopt
  rw [fixed_update h.mark_le _ n hn, fixed_update hx _ n hn, fixed_alloc hm _ _ _ _ n hn]

theorem leads_finishRef (h : Stands hosting r loose) (hm : mark ≤ r.arena.size) (first : String)
    (position : Position) :
    Leads (Steps hosting mark) (finishRef cx first position) r (Gives hosting mark loose 0) := by
  refine leads_quiet_bind (quiet_pathTail _ _) fun path feed comments => ?_
  exact leads_literal (h.retake feed comments) hm _ position (.typeRef ⟨path, none⟩) rfl rfl (Nat.zero_le 1)

theorem leads_typeRef (h : Stands hosting r loose) (hm : mark ≤ r.arena.size) :
    Leads (Steps hosting mark) (typeRef cx) r (Gives hosting mark loose 0) := by
  refine leads_quiet_bind (quiet_expectIdent _) fun ident feed comments => ?_
  exact leads_finishRef (h.retake feed comments) hm _ _

theorem leads_builtinRef (h : Stands hosting r loose) (hm : mark ≤ r.arena.size) (name : String)
    (position : Position) :
    Leads (Steps hosting mark) (builtinRef cx name position) r (Gives hosting mark loose 0) := by
  unfold builtinRef
  exact leads_literal h hm _ position (.typeRef ⟨_, none⟩) rfl rfl (Nat.zero_le 1)

/-! ## Arguments -/

theorem leads_signed (h : Stands hosting r loose) (hm : mark ≤ r.arena.size) (negative : Bool)
    (position : Position) :
    Leads (Steps hosting mark) (signed cx negative position) r (Gives hosting mark loose 1) := by
  refine leads_quiet_bind quiet_next fun number feed comments => ?_
  have h' := h.retake feed comments
  split
  · exact leads_literal h' hm "" position (.int _) trivial rfl (Nat.le_refl 1)
  · exact leads_literal h' hm "" position (.float _) trivial rfl (Nat.le_refl 1)
  · exact leads_unexpected

theorem leads_operand (h : Stands hosting r loose) (hm : mark ≤ r.arena.size) :
    Leads (Steps hosting mark) (operand cx) r (Gives hosting mark loose 1) := by
  refine leads_quiet_bind quiet_next fun token feed comments => ?_
  have h' := h.retake feed comments
  dsimp only
  split
  · exact leads_literal h' hm "" _ (.int _) trivial rfl (Nat.le_refl 1)
  · exact leads_literal h' hm "" _ (.float _) trivial rfl (Nat.le_refl 1)
  · exact leads_literal h' hm "" _ (.string _) trivial rfl (Nat.le_refl 1)
  · exact leads_literal h' hm "" _ (.bool _) trivial rfl (Nat.le_refl 1)
  · split
    · exact leads_signed h' hm _ _
    · split
      · exact leads_signed h' hm _ _
      · exact leads_unexpected
  · exact leads_gives (leads_finishRef h' hm _ _) (Nat.zero_le 1)
  · exact leads_unexpected

theorem leads_unionTail : ∀ (fuel : Nat) (value : Nat) (r : Reading σ),
    Gives hosting mark loose 1 value r →
    Leads (Steps hosting mark) (unionTail cx fuel value) r (Gives hosting mark loose 1)
  | 0, value, r, h => Leads.pure h
  | fuel + 1, value, r, h => by
    refine leads_quiet_bind quiet_peek fun bar feed comments => ?_
    split
    · refine leads_quiet_bind quiet_advance fun _ feed' comments' => ?_
      refine (leads_operand ((h.retake feed comments).retake feed' comments').stands h.le_size).bind
        fun right r₁ hr hg => ?_
      have hl : (r₁.arena.kind value).level ≤ 1 := by
        rw [hr.grows.level h.own.lt_size]
        exact h.level_le
      have hfit : Fit (hosting.served r₁.host) r₁.arena (.union value right) :=
        ⟨⟨(hr.grows.own h.own).lt_size, hl⟩, hg.own.lt_size, hg.level_le⟩
      exact (leads_join hg h.mark_le hl "" bar.position (.union value right) hfit rfl
        (by decide : 1 < 6) (Nat.le_refl 1)).bind fun union r₂ _ hu => leads_unionTail fuel union r₂ hu.1
    · exact Leads.pure (h.retake feed comments)

theorem leads_argument (h : Stands hosting r loose) (hm : mark ≤ r.arena.size) :
    Leads (Steps hosting mark) (argument cx) r (Gives hosting mark loose 1) :=
  (leads_operand h hm).bind fun value r' _ hg => leads_unionTail cx.budget value r' hg

/-- A list of arguments is in hand and grows. -/
structure Collects (hosting : Hosting cx.importer p) (mark : Nat) (loose : List NodeId)
    (kind : NodeKind) (args : Nat) (r : Reading σ) : Prop where
  stands : Stands hosting r (args :: loose)
  mark_le : mark ≤ args
  shape : (r.arena.kind args).ctorIdx = kind.ctorIdx

namespace Collects

variable {kind : NodeKind} {args : Nat}

theorem own (h : Collects hosting mark loose kind args r) : r.arena.Own cx.script args :=
  h.stands.forest.held args (List.mem_cons_self ..)

theorem le_size (h : Collects hosting mark loose kind args r) : mark ≤ r.arena.size :=
  Nat.le_of_lt (Nat.lt_of_le_of_lt h.mark_le h.own.lt_size)

theorem steps (h : Collects hosting mark loose kind args r) (hr : Steps hosting mark r r')
    (hs : Stands hosting r' (args :: loose)) : Collects hosting mark loose kind args r' :=
  ⟨hs, h.mark_le, (hr.grows.shape h.own.lt_size).trans h.shape⟩

/-- The rest of a round, after the argument is entered. -/
theorem leads_rest (h : Collects hosting mark loose kind args r) {value : Nat}
    (hv : r.arena.Own cx.script value) (hm : mark ≤ value) :
    Leads (Steps hosting mark) (do
      let more ← matchChar ','
      attachComments value
      pure more) r fun _ r' => Collects hosting mark loose kind args r' := by
  refine leads_quiet_bind (quiet_matchChar _) fun more feed comments => ?_
  refine (leads_attachComments (h.stands.retake feed comments) (Or.inr hv) hm).bind
    fun _ r₂ hr₂ hs₂ => ?_
  exact Leads.pure (h.steps (trans_of (Steps hosting mark) (steps_retake r feed comments) hr₂) hs₂)

end Collects

theorem leads_namedArgument {items : Registry} {args : Nat}
    (h : Collects hosting mark loose (.namedArgs items) args r) :
    Leads (Steps hosting mark) (namedArgument cx args) r
      fun _ r' => Collects hosting mark loose (.namedArgs items) args r' := by
  refine leads_quiet_bind quiet_next fun label feed comments => ?_
  have h₀ := h.steps (steps_retake r feed comments) (h.stands.retake feed comments)
  split
  · refine (leads_argument h₀.stands h₀.le_size).bind fun value r₁ hr hg => ?_
    rename_i name _
    have hm := hr.grows.own h₀.own
    obtain ⟨items₁, hk⟩ := NodeKind.namedArgs_of_ctorIdx
      ((hr.grows.shape h₀.own.lt_size).trans h₀.shape)
    have hfixed : Tries r₁.arena (r₁.arena.insertNamedArg args name value) fun _ b =>
        ∀ n : Nat, n < mark → b.node n = r₁.arena.node n := by
      unfold insertNamedArg Tries
      split
      · rename_i heq
        split at heq <;> cases heq
        rfl
      · rename_i heq
        split at heq <;> cases heq
        intro n hn
        unfold adopt updateKind
        rw [fixed_update h.mark_le _ n hn, fixed_update hg.mark_le _ n hn]
    have htries := (hg.stands.forest.insertNamedArg hm hk hg.level_le name).and hfixed
    refine (leads_unique (Q := fun _ r₂ => Stands hosting r₂ (args :: loose) ∧
      r₂.arena.Own cx.script value) hg.stands (htries.mono fun _ b hb => ?_)).bind
        fun _ r₂ hr₂ hs => ?_
    · exact ⟨hb.1.1, hb.2, hg.stands.rebuild hb.1.1 hb.1.2, hb.1.1.toGrows.own hg.own⟩
    · exact (h₀.steps (trans_of (Steps hosting mark) hr hr₂) hs.1).leads_rest hs.2 hg.mark_le
  · exact leads_unexpected

theorem leads_positionalArgument {items : Array NodeId} {args : Nat}
    (h : Collects hosting mark loose (.args items) args r) :
    Leads (Steps hosting mark) (positionalArgument cx args) r
      fun _ r' => Collects hosting mark loose (.args items) args r' := by
  refine (leads_argument h.stands h.le_size).bind fun value r₁ hr hg => ?_
  have hm := hr.grows.own h.own
  obtain ⟨items₁, hk⟩ := NodeKind.args_of_ctorIdx
    ((hr.grows.shape h.own.lt_size).trans h.shape)
  obtain ⟨hb, hf⟩ := hg.stands.forest.pushArg hm hk hg.level_le
  have hfixed : ∀ n : Nat, n < mark →
      (r₁.arena.pushArg args value).node n = r₁.arena.node n := by
    intro n hn
    unfold pushArg adopt updateKind
    rw [fixed_update h.mark_le _ n hn, fixed_update hg.mark_le _ n hn]
  have hs := hg.stands.rebuild hb hf
  refine leads_build_bind hg.stands hb hfixed ?_
  have hr₂ := trans_of (Steps hosting mark) hr (hg.stands.steps hb hfixed)
  exact (h.steps hr₂ hs).leads_rest (hb.toGrows.own hg.own) hg.mark_le

/-- The arguments of an attribute: none, or a list that waits. -/
def GivesArgs (hosting : Hosting cx.importer p) (mark : Nat) (loose : List NodeId)
    (result : Option NodeId) (r : Reading σ) : Prop :=
  match result with
  | none => Stands hosting r loose
  | some args => Stands hosting r (args :: loose) ∧ mark ≤ args ∧ (r.arena.kind args).level = 2

theorem leads_arguments (h : Stands hosting r loose) (hm : mark ≤ r.arena.size) :
    Leads (Steps hosting mark) (arguments cx) r (GivesArgs hosting mark loose) := by
  refine leads_quiet_bind quiet_peek fun token feed comments => ?_
  have h' := h.retake feed comments
  split
  · exact Leads.pure h'
  · refine (leads_leaf h' hm "" token.position (.namedArgs .empty) (fun x hx => (by cases hx)) rfl
      (by decide : 2 < 6)).bind
      fun args r₁ hr hg => ?_
    have hc : Collects hosting mark loose (.namedArgs .empty) args r₁ :=
      ⟨hg.1.stands, hg.1.mark_le, by rw [hg.2]⟩
    refine (leads_repeatWhile (fun r hi => leads_namedArgument hi) cx.budget r₁ hc).bind
      fun _ r₂ _ hc₂ => Leads.pure ?_
    exact ⟨hc₂.stands, hc₂.mark_le, NodeKind.level_congr hc₂.shape⟩
  · refine (leads_leaf h' hm "" token.position (.args #[]) (fun x hx => (by cases hx)) rfl
      (by decide : 2 < 6)).bind
      fun args r₁ hr hg => ?_
    have hc : Collects hosting mark loose (.args #[]) args r₁ :=
      ⟨hg.1.stands, hg.1.mark_le, by rw [hg.2]⟩
    refine (leads_repeatWhile (fun r hi => leads_positionalArgument hi) cx.budget r₁ hc).bind
      fun _ r₂ _ hc₂ => Leads.pure ?_
    exact ⟨hc₂.stands, hc₂.mark_le, NodeKind.level_congr hc₂.shape⟩

/-! ## Attributes -/

/-- An attribute that is complete waits. -/
theorem leads_finishAttr {attr : Nat} {decl : Attribute} (h : Stands hosting r (attr :: loose))
    (hk : r.arena.kind attr = .attr decl) :
    Leads (Steps hosting 0) (do
      attachComments attr
      holdAttr attr
      pure true) r fun _ r' => Stands hosting r' loose := by
  have ho := h.forest.held attr (List.mem_cons_self ..)
  refine (leads_attachComments h (Or.inr ho) (Nat.zero_le _)).bind fun _ r₁ hr₁ h₁ => ?_
  have ha : (r₁.arena.attr? attr).isSome := attr?_isSome_congr (hr₁.grows.shape ho.lt_size) (by
    rw [attr?_eq_some.2 hk]
    rfl)
  exact (leads_holdAttr h₁ ha).bind fun _ r₂ _ h₂ => Leads.pure h₂

/-- The arguments of an attribute that has none yet. -/
theorem leads_attrArgs {attr type : Nat} (h : Stands hosting r (attr :: loose))
    (hk : r.arena.kind attr = .attr ⟨type, none⟩) :
    Leads (Steps hosting 0) (arguments cx) r fun result r' =>
      GivesArgs hosting 0 (attr :: loose) result r' ∧
        r'.arena.kind attr = .attr ⟨type, none⟩ := by
  have ho := h.forest.held attr (List.mem_cons_self ..)
  refine leads_mark ((leads_arguments h (Nat.le_refl r.arena.size)).mono fun result r' hr hg => ?_)
    (Nat.zero_le _)
  refine ⟨?_, ?_⟩
  · cases result with
    | none => exact hg
    | some args => exact ⟨hg.1, Nat.zero_le _, hg.2.2⟩
  · unfold kind at *
    rw [hr.fixed attr ho.lt_size, hk]

theorem leads_attr (h : Stands hosting r loose) :
    Leads (Steps hosting 0) (attr cx) r fun _ r' => Stands hosting r' loose := by
  refine leads_quiet_bind quiet_peek fun sign feed comments => ?_
  split
  · refine leads_quiet_bind quiet_advance fun _ feed' comments' => ?_
    refine (leads_typeRef ((h.retake feed comments).retake feed' comments') (Nat.zero_le _)).bind
      fun type r₁ _ hg => ?_
    have hfit : Fit (hosting.served r₁.host) r₁.arena (.attr ⟨type, none⟩) :=
      ⟨Nat.le_zero.1 hg.level_le, nofun⟩
    refine (leads_wrap hg (·.name type) sign.position (.attr ⟨type, none⟩) hfit rfl
      (by decide : 3 < 6) (Nat.zero_le 3)).bind fun attr r₂ _ hg₂ => ?_
    refine leads_quiet_bind (quiet_matchChar _) fun found feed₃ comments₃ => ?_
    have h₃ := hg₂.1.stands.retake feed₃ comments₃
    dsimp only
    split
    · refine (leads_attrArgs h₃ hg₂.2).bind fun result r₄ _ hg₄ => ?_
      obtain ⟨hgives, hk₄⟩ := hg₄
      cases result with
      | none =>
        refine leads_quiet_bind (quiet_expectChar _) fun _ feed₅ comments₅ => ?_
        exact leads_finishAttr (Stands.retake hgives feed₅ comments₅) hk₄
      | some args =>
        obtain ⟨hs, -, hl⟩ := hgives
        have ho := hs.forest.held _ (List.mem_cons_of_mem _ (List.mem_cons_self ..))
        obtain ⟨hb₅, hf₅⟩ := hs.forest.setAttrArgs ho hk₄ hl
        refine leads_build_bind hs hb₅ (fun n hn => by omega) ?_
        have h₅ := hs.rebuild hb₅ hf₅
        refine leads_quiet_bind (quiet_expectChar _) fun _ feed₆ comments₆ => ?_
        obtain ⟨decl, hk₅⟩ := NodeKind.attr_of_ctorIdx ((hb₅.shape ho.lt_size).trans
          (congrArg NodeKind.ctorIdx hk₄))
        exact leads_finishAttr (h₅.retake feed₆ comments₆) hk₅
    · exact leads_finishAttr h₃ hg₂.2
  · exact Leads.pure (h.retake feed comments)

theorem leads_attributes (h : Stands hosting r loose) :
    Leads (Steps hosting 0) (attributes cx) r fun _ r' => Stands hosting r' loose :=
  leads_repeatWhile (fun _ hi => leads_attr hi) cx.budget r h

/-! ## Types -/

/-- A part of a reading has given a new type. -/
structure GivesType (hosting : Hosting cx.importer p) (loose : List NodeId) (n : Nat)
    (r : Reading σ) : Prop where
  gives : Gives hosting 0 loose 3 n r
  isType : (r.arena.kind n).isType = true

namespace GivesType

theorem retake (h : GivesType hosting loose n r) (feed : Feed) (comments : List Comment) :
    GivesType hosting loose n (retake r feed comments) :=
  ⟨h.gives.retake feed comments, h.isType⟩

theorem of_ref (h : Gives hosting 0 loose 0 n r) : GivesType hosting loose n r :=
  ⟨h.mono (Nat.zero_le 3), NodeKind.isType_of_level (Nat.le_zero.1 h.level_le)⟩

end GivesType

/-- A length that is read is not zero. -/
theorem leads_arrayLength_bind {α : Type} {f : Option UInt16 → Parse σ α} {Q : α → Reading σ → Prop}
    (h : ∀ length feed comments, (∀ size, length = some size → 1 ≤ size.toNat) →
      Leads (Steps hosting 0) (f length) (retake r feed comments) Q) :
    Leads (Steps hosting 0) (arrayLength >>= f) r Q := by
  refine Leads.bind (P := fun length r' => (∃ feed comments, r' = retake r feed comments) ∧
    ∀ size, length = some size → 1 ≤ size.toNat) ?_ ?_
  · refine leads_quiet_bind quiet_peek fun literal feed comments => ?_
    split
    · refine leads_quiet_bind quiet_advance fun _ feed' comments' => ?_
      split
      · rename_i value _ hrange
        refine Leads.pure ⟨⟨feed', comments', rfl⟩, fun size hs => ?_⟩
        cases hs
        rw [UInt16.toNat_ofNat']
        omega
      · exact leads_failAt
    · exact Leads.pure ⟨⟨feed, comments, rfl⟩, nofun⟩
  · rintro length _ - ⟨⟨feed, comments, rfl⟩, hsize⟩
    exact h length feed comments hsize

theorem leads_typeWithin : ∀ (fuel : Nat) (r : Reading σ) (loose : List NodeId),
    Stands hosting r loose →
    Leads (Steps hosting 0) (typeWithin cx fuel) r (GivesType hosting loose)
  | 0, r, loose, h => leads_quiet_bind quiet_next fun _ _ _ => leads_unexpected
  | fuel + 1, r, loose, h => by
    refine leads_quiet_bind quiet_next fun token feed comments => ?_
    have h' := h.retake feed comments
    split
    · refine leads_arrayLength_bind fun length feed₁ comments₁ hsize => ?_
      refine leads_quiet_bind (quiet_expectChar _) fun _ feed₂ comments₂ => ?_
      refine (leads_typeWithin fuel _ loose ((h'.retake feed₁ comments₁).retake feed₂ comments₂)).bind
        fun element r₃ _ hg => ?_
      refine leads_inspect_bind ?_
      split
      · exact leads_failAt
      · rename_i hnested
        have helement := And.intro hg.isType (Bool.eq_false_iff.2 hnested)
        split
        · rename_i size
          exact (leads_wrap hg.gives (fun _ => "") token.position (.array size element)
            ⟨hsize size rfl, helement⟩ rfl (by decide : 3 < 6) (Nat.le_refl 3)).mono
              fun _ _ _ h => ⟨h.1, by rw [h.2]; rfl⟩
        · exact (leads_wrap hg.gives (fun _ => "") token.position (.list element) helement rfl
            (by decide : 3 < 6) (Nat.le_refl 3)).mono fun _ _ _ h => ⟨h.1, by rw [h.2]; rfl⟩
    · refine leads_quiet_bind (quiet_expectChar _) fun _ feed₁ comments₁ => ?_
      refine (leads_typeWithin fuel _ loose (h'.retake feed₁ comments₁)).bind
        fun key r₂ _ hkey => ?_
      refine leads_inspect_bind ?_
      split
      · exact leads_failAt
      · rename_i hflat
        have hkl := NodeKind.level_of_not_composite hkey.isType (Bool.eq_false_iff.2 hflat)
        refine leads_quiet_bind (quiet_expectChar _) fun _ feed₄ comments₄ => ?_
        have hkey₄ := (hkey.retake feed₄ comments₄).gives
        refine (leads_typeWithin fuel _ (key :: loose) hkey₄.stands).bind fun value r₅ hr₅ hg => ?_
        refine leads_inspect_bind ?_
        split
        · exact leads_failAt
        · rename_i hflat'
          have hvl := NodeKind.level_of_not_composite hg.isType (Bool.eq_false_iff.2 hflat')
          have hkl' : (r₅.arena.kind key).level = 0 :=
            (hr₅.grows.level hkey₄.own.lt_size).trans hkl
          exact (leads_join hg.gives (Nat.zero_le _) (by rw [hkl']; exact Nat.zero_le 3) ""
            token.position (.map key value) ⟨hkl', hvl⟩ rfl (by decide : 3 < 6)
            (Nat.le_refl 3)).mono fun _ _ _ h => ⟨h.1, by rw [h.2]; rfl⟩
    · split
      · exact (leads_builtinRef h' (Nat.zero_le _) _ _).mono fun _ _ _ h => .of_ref h
      · exact leads_unexpected
    · exact (leads_finishRef h' (Nat.zero_le _) _ _).mono fun _ _ _ h => .of_ref h
    · exact leads_unexpected

theorem leads_typeExpression (h : Stands hosting r loose) :
    Leads (Steps hosting 0) (typeExpression cx) r (GivesType hosting loose) :=
  leads_typeWithin cx.budget r loose h

end SchemaLang.Parse
