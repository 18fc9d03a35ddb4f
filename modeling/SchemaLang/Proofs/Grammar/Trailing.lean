import SchemaLang.Grammar.Script
import SchemaLang.Proofs.Grammar.Tokens
import SchemaLang.Proofs.Grammar.Walking

/-!
# Attributes at the end of a body

Each member of a declaration takes all attributes that wait when it is made. So of the attributes that
are written in the body of a declaration, the only ones that can wait at its end are those right
before the closing brace, which no member takes (`Parse.endsBody_declaration`): the next declaration
takes them, or the script. The body of an enum ends with a value, and no attribute waits after it
(`Parse.clears_enumDeclaration`).
-/

namespace SchemaLang.Parse

variable {σ α β : Type} {cx : ReadingContext σ} {r r' : Reading σ}

/-- The part leaves alone the attributes that wait. -/
def KeepsWaiting (m : Parse σ α) : Prop :=
  ∀ r x r', m r = .ok x r' → r'.attrs = r.attrs

/-- No attribute waits after the part. -/
def Clears (m : Parse σ α) : Prop :=
  ∀ r x r', m r = .ok x r' → r'.attrs = []

/-- No attribute waits after the part where none did before it. -/
def Spares (m : Parse σ α) : Prop :=
  ∀ r x r', r.attrs = [] → m r = .ok x r' → r'.attrs = []

theorem KeepsWaiting.spares {m : Parse σ α} (h : KeepsWaiting m) : Spares m :=
  fun r x r' hr hrun => (h r x r' hrun).trans hr

theorem Clears.spares {m : Parse σ α} (h : Clears m) : Spares m :=
  fun r x r' _ hrun => h r x r' hrun

theorem KeepsWaiting.bind {m : Parse σ α} {f : α → Parse σ β} (h : KeepsWaiting m)
    (hf : ∀ x, KeepsWaiting (f x)) : KeepsWaiting (m >>= f) := by
  intro r y r'' hrun
  obtain ⟨x, r', hx, hy⟩ := of_bind_ok hrun
  exact (hf x r' y r'' hy).trans (h r x r' hx)

theorem Spares.bind {m : Parse σ α} {f : α → Parse σ β} (h : Spares m) (hf : ∀ x, Spares (f x)) :
    Spares (m >>= f) := by
  intro r y r'' hr hrun
  obtain ⟨x, r', hx, hy⟩ := of_bind_ok hrun
  exact hf x r' y r'' (h r x r' hr hx) hy

theorem Clears.bind {m : Parse σ α} {f : α → Parse σ β} (h : Clears m) (hf : ∀ x, Spares (f x)) :
    Clears (m >>= f) := by
  intro r y r'' hrun
  obtain ⟨x, r', hx, hy⟩ := of_bind_ok hrun
  exact hf x r' y r'' (h r x r' hx) hy

/-- Whatever comes first, the last part clears. -/
theorem clears_bind {m : Parse σ α} {f : α → Parse σ β} (hf : ∀ x, Clears (f x)) :
    Clears (m >>= f) := by
  intro r y r'' hrun
  obtain ⟨x, r', hx, hy⟩ := of_bind_ok hrun
  exact hf x r' y r'' hy

theorem clears_throw (e : Diagnostic) : Clears (throw e : Parse σ α) :=
  fun _ _ _ hrun => nomatch hrun

theorem Quiet.keepsWaiting {m : Parse σ α} (h : Quiet m) : KeepsWaiting m := by
  intro r x r' hrun
  obtain ⟨feed, comments, ⟨y, hy⟩ | ⟨e, he⟩⟩ := h r
  · cases hy.symm.trans hrun
    rfl
  · cases he.symm.trans hrun

theorem Quiet.spares {m : Parse σ α} (h : Quiet m) : Spares m :=
  h.keepsWaiting.spares

theorem keepsWaiting_attachComments (node : NodeId) :
    KeepsWaiting (attachComments node : Parse σ Unit) :=
  quiet_peek.keepsWaiting.bind fun _ r _ _ hrun => by
    cases hrun
    rfl

theorem clears_attachAttrs (node : NodeId) : Clears (attachAttrs node : Parse σ Unit) := by
  rintro r _ _ ⟨⟩
  rfl

theorem spares_repeatWhile {step : Parse σ Bool} (h : Spares step) :
    ∀ fuel : Nat, Spares (repeatWhile step fuel)
  | 0 => (Quiet.pure ()).spares
  | fuel + 1 => h.bind fun more => by
    split
    · exact spares_repeatWhile h fuel
    · exact (Quiet.pure ()).spares

/-- References, arguments, types and bases leave alone the attributes that wait. -/
theorem paces_keepsWaiting : Paces (fun _ => True) (KeepsWaiting (σ := σ)) where
  pure x := (Quiet.pure x).keepsWaiting
  bind := KeepsWaiting.bind
  look h := quiet_peek.keepsWaiting.bind fun token => h token trivial
  advance := quiet_advance.keepsWaiting
  failAt position cause _ _ := (quiet_failAt position cause).keepsWaiting
  build _ r _ _ hrun := by
    cases hrun
    rfl
  inspect query := (quiet_inspect query).keepsWaiting
  attachComments := keepsWaiting_attachComments

/-! ## Members and declarations -/

theorem clears_declare (name : String) (position : Position) (type : NodeId) :
    Clears (declare cx name position type) :=
  clears_bind fun _ => clears_bind fun _ => clears_attachAttrs type

theorem clears_enumValue (enum : NodeId) (enumName : String) (base : EnumBase) :
    Clears (enumValue cx enum enumName base) := by
  refine clears_bind fun _ => clears_bind fun ident => clears_bind fun _ => ?_
  refine clears_bind fun negative => clears_bind fun literal => ?_
  split
  · rename_i size _
    dsimp only
    generalize (if negative = true then -size else size) = value
    split
    · refine clears_bind fun _ => clears_bind fun node => (clears_attachAttrs node).bind fun _ => ?_
      refine (quiet_matchChar ',').spares.bind fun more => ?_
      exact (keepsWaiting_attachComments node).spares.bind fun _ => (Quiet.pure more).spares
    · exact clears_throw _
  · exact clears_throw _

/-- All attributes in the body of an enum stand on its values. -/
theorem clears_enumDeclaration : Clears (enumDeclaration cx) := by
  refine clears_bind fun ident => clears_bind fun base => clears_bind fun enum => ?_
  refine (clears_declare ident.1 ident.2 enum).bind fun _ => ?_
  refine (quiet_expectChar '\x7b').spares.bind fun _ => ?_
  refine (spares_repeatWhile (clears_enumValue enum ident.1 base).spares cx.budget).bind fun _ => ?_
  exact (quiet_expectChar '\x7d').spares

theorem clears_slot (method : NodeId) (isResult : Bool) : Clears (slot cx method isResult) := by
  refine clears_bind fun _ => clears_bind fun first => clears_bind fun type => ?_
  refine clears_bind fun node => (clears_attachAttrs node).bind fun _ => ?_
  exact (keepsWaiting_attachComments node).spares.bind fun _ => (quiet_matchChar ',').spares

theorem spares_signature (method : NodeId) : Spares (signature cx method) := by
  have hslots : ∀ isResult, Spares (slots cx method isResult) := fun isResult =>
    spares_repeatWhile (clears_slot method isResult).spares cx.budget
  have hresults : Spares (do
      expectChar ')'
      let token ← peek
      if token.kind == .arrow then
        advance
        expectChar '('
        slots cx method true
        expectChar ')'
      expectChar ';' : Parse σ Unit) := by
    refine (quiet_expectChar ')').spares.bind fun _ => quiet_peek.spares.bind fun token => ?_
    dsimp only
    split
    · refine quiet_advance.spares.bind fun _ => (quiet_expectChar '(').spares.bind fun _ => ?_
      refine (hslots true).bind fun _ => (quiet_expectChar ')').spares.bind fun _ => ?_
      exact (quiet_expectChar ';').spares
    · exact (quiet_expectChar ';').spares
  refine (quiet_expectChar '(').spares.bind fun _ => (quiet_nextIs ')').spares.bind fun closed => ?_
  dsimp only
  split
  · exact (hslots false).bind fun _ => hresults
  · exact hresults

/-! ## The end of a body -/

/-- The second state is at the end of attributes that no member follows: what waits there was read
from the first state on. -/
def Trails (cx : ReadingContext σ) (r r' : Reading σ) : Prop :=
  ∃ r₁, attributes cx r = .ok () r₁ ∧ r'.attrs = r₁.attrs ∧ r'.arena = r₁.arena

/-- At the end of a body no attribute waits, or those do that trail its last member. -/
def EndsBody (cx : ReadingContext σ) (r' : Reading σ) : Prop :=
  r'.attrs = [] ∨ ∃ r, r.attrs = [] ∧ Trails cx r r'

/-- A part that takes tokens only. -/
theorem EndsBody.quiet {m : Parse σ α} {x : α} (h : EndsBody cx r) (hm : Quiet m)
    (hrun : m r = .ok x r') : EndsBody cx r' := by
  obtain ⟨feed, comments, ⟨y, hy⟩ | ⟨e, he⟩⟩ := hm r
  · cases hy.symm.trans hrun
    exact h
  · cases he.symm.trans hrun

/-- The members of a table or a contract: each takes what waits. -/
theorem endsBody_members {member : Parse σ Bool} (hmember : Clears member) :
    ∀ (fuel : Nat) {r : Reading σ}, r.attrs = [] →
      repeatWhile (do
        attributes cx
        if ← nextIsIdent then member else pure false) fuel r = .ok () r' → EndsBody cx r'
  | 0, r, hr, hrun => by
    cases hrun
    exact .inl hr
  | fuel + 1, r, hr, hrun => by
    obtain ⟨more, r₂, hround, hrest⟩ := of_bind_ok hrun
    obtain ⟨_, r₁, hattrs, hround⟩ := of_bind_ok hround
    obtain ⟨found, r₁', hfound, hround⟩ := of_bind_ok hround
    cases found with
    | true =>
      have hcleared : r₂.attrs = [] := hmember r₁' more r₂ hround
      cases more with
      | true => exact endsBody_members hmember fuel hcleared hrest
      | false =>
        cases hrest
        exact .inl hcleared
    | false =>
      cases hround
      cases hrest
      have hends : EndsBody cx r₁ := .inr ⟨r, hr, r₁, hattrs, rfl, rfl⟩
      exact hends.quiet quiet_nextIsIdent hfound

theorem endsBody_fields (table : NodeId) (hr : r.attrs = [])
    (hrun : repeatWhile (field cx table) cx.budget r = .ok () r') : EndsBody cx r' := by
  refine endsBody_members ?_ cx.budget hr hrun
  refine clears_bind fun ident => clears_bind fun type => clears_bind fun _ => ?_
  refine clears_bind fun count => ?_
  split
  · exact clears_throw _
  · refine clears_bind fun node => clears_bind fun _ => (clears_attachAttrs node).bind fun _ => ?_
    exact (Quiet.pure true).spares

theorem endsBody_methods (contract : NodeId) (hr : r.attrs = [])
    (hrun : repeatWhile (method cx contract) cx.budget r = .ok () r') : EndsBody cx r' := by
  refine endsBody_members ?_ cx.budget hr hrun
  refine clears_bind fun ident => clears_bind fun count => ?_
  split
  · exact clears_throw _
  · refine clears_bind fun node => (clears_attachAttrs node).bind fun _ => ?_
    refine (keepsWaiting_attachComments node).spares.bind fun _ => (spares_signature node).bind fun _ => ?_
    exact (keepsWaiting_attachComments node).spares.bind fun _ => (Quiet.pure true).spares

/-- A body between braces. -/
theorem endsBody_braced {body : Parse σ Unit}
    (hbody : ∀ {r r'}, r.attrs = [] → body r = .ok () r' → EndsBody cx r') (hr : r.attrs = [])
    (hrun : (do
      expectChar '\x7b'
      body
      expectChar '\x7d' : Parse σ Unit) r = .ok () r') : EndsBody cx r' := by
  obtain ⟨_, r₁, hopen, hrun⟩ := of_bind_ok hrun
  obtain ⟨_, r₂, hrun₂, hclose⟩ := of_bind_ok hrun
  have hr₁ := (quiet_expectChar '\x7b').spares r () r₁ hr hopen
  exact (hbody hr₁ hrun₂).quiet (quiet_expectChar '\x7d') hclose

theorem endsBody_tableDeclaration {isStruct : Bool}
    (hrun : tableDeclaration cx isStruct r = .ok () r') : EndsBody cx r' := by
  obtain ⟨ident, r₁, -, hrun⟩ := of_bind_ok hrun
  obtain ⟨table, r₂, -, hrun⟩ := of_bind_ok hrun
  obtain ⟨_, r₃, hdeclare, hrun⟩ := of_bind_ok hrun
  have hr₃ := clears_declare ident.1 ident.2 table r₂ () r₃ hdeclare
  cases isStruct with
  | true =>
    obtain ⟨_, r₄, hmark, hrun⟩ := of_bind_ok hrun
    have hr₄ := (paces_keepsWaiting.markStruct table ident.2).spares r₃ () r₄ hr₃ hmark
    exact endsBody_braced (endsBody_fields table) hr₄ hrun
  | false => exact endsBody_braced (endsBody_fields table) hr₃ hrun

theorem endsBody_contractDeclaration (hrun : contractDeclaration cx r = .ok () r') :
    EndsBody cx r' := by
  obtain ⟨ident, r₁, -, hrun⟩ := of_bind_ok hrun
  obtain ⟨contract, r₂, -, hrun⟩ := of_bind_ok hrun
  obtain ⟨_, r₃, hdeclare, hrun⟩ := of_bind_ok hrun
  obtain ⟨found, r₄, hfound, hrun⟩ := of_bind_ok hrun
  have hr₃ := clears_declare ident.1 ident.2 contract r₂ () r₃ hdeclare
  have hr₄ := (quiet_matchChar '(').spares r₃ found r₄ hr₃ hfound
  cases found with
  | true =>
    obtain ⟨_, r₅, hbases, hrun⟩ := of_bind_ok hrun
    obtain ⟨_, r₆, hclose, hrun⟩ := of_bind_ok hrun
    have hr₅ := spares_repeatWhile (paces_keepsWaiting.baseContract contract).spares _ r₄ () r₅ hr₄ hbases
    have hr₆ := (quiet_expectChar ')').spares r₅ () r₆ hr₅ hclose
    exact endsBody_braced (endsBody_methods contract) hr₆ hrun
  | false => exact endsBody_braced (endsBody_methods contract) hr₄ hrun

/-- After a declaration no attribute waits, or those do that stand right before its closing brace. -/
theorem endsBody_declaration (hrun : declaration cx r = .ok true r') : EndsBody cx r' := by
  obtain ⟨_, r₁, -, hrun⟩ := of_bind_ok hrun
  obtain ⟨⟨kind, position⟩, r₂, -, hrun⟩ := of_bind_ok hrun
  cases kind with
  | keyword word =>
    cases word with
    | enum =>
      obtain ⟨_, r₃, henum, hrun⟩ := of_bind_ok hrun
      cases hrun
      exact .inl (clears_enumDeclaration r₂ () _ henum)
    | table | struct =>
      obtain ⟨_, r₃, htable, hrun⟩ := of_bind_ok hrun
      cases hrun
      exact endsBody_tableDeclaration htable
    | contract =>
      obtain ⟨_, r₃, hcontract, hrun⟩ := of_bind_ok hrun
      cases hrun
      exact endsBody_contractDeclaration hcontract
    | _ => cases hrun
  | _ => cases hrun

end SchemaLang.Parse
