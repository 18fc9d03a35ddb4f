import SchemaLang.Proofs.Grammar.Lexing
import SchemaLang.Proofs.Layout.Bare

/-!
# Two readings of the same tokens

Two feeds are alike when they hold tokens of the same kinds, wherever these stand and whatever
comments come before them. Reading alike feeds into alike arenas goes in lockstep: after every step
both readings have succeeded with the same value, or both have failed for the same kind of reason,
and their states are alike again. Only comments and positions, which no step looks at, are left out
of the relation.

* `Lockstep`: two steps of which each does to its state what the other does to a related one.
* `Reading.Alike`: the states of the two readings. `H` relates what their hosts keep.
* `Importer.Mirrors`: the hosts behave the same way, wherever an import stands.
-/

namespace SchemaLang

open Arena

variable {σ τ α β γ δ : Type}

/-! ## Steps in lockstep -/

/-- Both results are values related by `V`, or failures of one kind, in states related by `S`. -/
def Alongside (S : σ → τ → Prop) (V : α → β → Prop) :
    EStateM.Result Diagnostic σ α → EStateM.Result Diagnostic τ β → Prop
  | .ok x s, .ok y t => V x y ∧ S s t
  | .error e s, .error e' t => e.cause.kind = e'.cause.kind ∧ S s t
  | _, _ => False

/-- From states related by `S` both steps end alongside each other. -/
def Lockstep (S : σ → τ → Prop) (m : EStateM Diagnostic σ α) (m' : EStateM Diagnostic τ β)
    (V : α → β → Prop) : Prop :=
  ∀ s t, S s t → Alongside S V (m s) (m' t)

namespace Lockstep

variable {S : σ → τ → Prop} {m : EStateM Diagnostic σ α} {m' : EStateM Diagnostic τ β}
  {V : α → β → Prop} {W : γ → δ → Prop}

theorem pure {x : α} {y : β} (h : V x y) : Lockstep S (Pure.pure x) (Pure.pure y) V :=
  fun _ _ hs => ⟨h, hs⟩

theorem bind {f : α → EStateM Diagnostic σ γ} {f' : β → EStateM Diagnostic τ δ}
    (h : Lockstep S m m' V) (hf : ∀ x y, V x y → Lockstep S (f x) (f' y) W) :
    Lockstep S (m >>= f) (m' >>= f') W := by
  intro s t hst
  have hm := h s t hst
  cases hs : m s with
  | ok x s₁ =>
    cases ht : m' t with
    | ok y t₁ =>
      rw [hs, ht] at hm
      rw [bind_ok hs, bind_ok ht]
      exact hf x y hm.1 s₁ t₁ hm.2
    | error e t₁ =>
      rw [hs, ht] at hm
      exact hm.elim
  | error e s₁ =>
    cases ht : m' t with
    | ok y t₁ =>
      rw [hs, ht] at hm
      exact hm.elim
    | error e' t₁ =>
      rw [hs, ht] at hm
      rw [bind_error hs, bind_error ht]
      exact hm

/-- Steps whose values are the same go on with one value. -/
theorem bind_eq {m' : EStateM Diagnostic τ α} {f : α → EStateM Diagnostic σ γ}
    {f' : α → EStateM Diagnostic τ δ} (h : Lockstep S m m' Eq)
    (hf : ∀ x, Lockstep S (f x) (f' x) W) : Lockstep S (m >>= f) (m' >>= f') W :=
  h.bind fun x _ hxy => hxy ▸ hf x

theorem forM {ι : Type} {f : ι → EStateM Diagnostic σ PUnit} {f' : ι → EStateM Diagnostic τ PUnit}
    (h : ∀ x, Lockstep S (f x) (f' x) Eq) :
    ∀ xs : List ι, Lockstep S (xs.forM f) (xs.forM f') Eq
  | [] => .pure rfl
  | x :: xs => by
    show Lockstep S (f x >>= fun _ => xs.forM f) (f' x >>= fun _ => xs.forM f') Eq
    exact (h x).bind_eq fun _ => forM h xs

end Lockstep

/-! ## Alike states -/

/-- The feeds hold tokens of the same kinds, and end the same way. -/
inductive Feed.Alike : Feed → Feed → Prop where
  | more {leading leading' : List Comment} {token token' : Token} {rest rest' : Feed}
      (kind : token.kind = token'.kind) (tail : Alike rest rest') :
      Alike (.more leading token rest) (.more leading' token' rest')
  | done {leading leading' : List Comment} {position position' : Position} :
      Alike (.done leading position) (.done leading' position')
  | broken {failure failure' : Diagnostic} (kind : failure.cause.kind = failure'.cause.kind) :
      Alike (.broken failure) (.broken failure')

namespace Feed.Alike

variable {feed feed' : Feed}

protected theorem refl : ∀ feed : Feed, feed.Alike feed
  | .more _ _ rest => .more rfl (Alike.refl rest)
  | .done .. => .done
  | .broken _ => .broken rfl

theorem size_eq (h : feed.Alike feed') : feed.size = feed'.size := by
  have honto : ∀ count, feed.sizeOnto count = feed'.sizeOnto count := by
    induction h with
    | more _ _ ih => exact fun count => ih (count + 1)
    | done => exact fun _ => rfl
    | broken => exact fun _ => rfl
  exact honto 0

/-- Feeds that reach the end of their files and spell the same tokens. -/
theorem of_spells {kinds : List TokenKind} (h : feed.Spells kinds) (h' : feed'.Spells kinds)
    (hend : .eof ∈ kinds) : feed.Alike feed' := by
  induction h generalizing feed' with
  | done =>
    cases h' with
    | done => exact .done
    | more _ hne _ => exact absurd rfl hne
  | broken => cases hend
  | more hkind hne _ ih =>
    cases h' with
    | done => exact absurd rfl hne
    | more hkind' _ hrest => exact .more (hkind.trans hkind'.symm) (ih hrest
        ((List.mem_cons.1 hend).resolve_left fun h => hne h.symm))

end Feed.Alike

/-- The states of two readings, but for comments and positions. -/
structure Reading.Alike (H : σ → τ → Prop) (r : Reading σ) (r' : Reading τ) : Prop where
  feed : r.feed.Alike r'.feed
  attrs : r.attrs = r'.attrs
  arena : r.arena.Alike r'.arena
  host : H r.host r'.host

/-- The states that importers work on. -/
def Importer.Alike (H : σ → τ → Prop) (x : Arena × σ) (y : Arena × τ) : Prop :=
  x.1.Alike y.1 ∧ H x.2 y.2

/-- Asked from alike states for the same path, at whatever positions, the importers give the same
package, or fail for the same kind of reason, and leave alike states. -/
def Importer.Mirrors (H : σ → τ → Prop) (importer : Importer σ) (importer' : Importer τ) : Prop :=
  ∀ (path : String) (position position' : Position),
    Lockstep (Importer.Alike H) (importer path position) (importer' path position') Eq

/-- The readings are of one script, and their hosts behave the same way. -/
structure ReadingContext.Alike (H : σ → τ → Prop) (cx : ReadingContext σ)
    (cx' : ReadingContext τ) : Prop where
  script : cx.script = cx'.script
  package : cx.package = cx'.package
  budget : cx.budget = cx'.budget
  importer : cx.importer.Mirrors H cx'.importer

namespace Parse

variable {H : σ → τ → Prop}

/-- Tokens of one kind, wherever they stand. -/
def SameKind (token token' : Token) : Prop :=
  token.kind = token'.kind

/-- Texts that were read, wherever they stand. -/
def SameText (text text' : String × Position) : Prop :=
  text.1 = text'.1

/-! ## Steps on the arena -/

theorem lockstep_build {operation operation' : Arena → α × Arena}
    (h : ∀ a b, a.Alike b → bareResult (operation a) = bareResult (operation' b)) :
    Lockstep (Reading.Alike H) (build operation) (build operation') Eq := by
  rintro ⟨feed, comments, attrs, a, host⟩ ⟨feed', comments', attrs', b, host'⟩ ⟨hf, ha, hab, hh⟩
  obtain ⟨hvalue, harena⟩ := Prod.mk.inj (h a b hab)
  exact ⟨hvalue, hf, ha, harena, hh⟩

theorem lockstep_change {operation operation' : Arena → Arena}
    (h : ∀ a b, a.Alike b → (operation a).Alike (operation' b)) :
    Lockstep (Reading.Alike H) (change operation) (change operation') Eq :=
  lockstep_build fun a b hab => Prod.ext rfl (h a b hab)

theorem lockstep_inspect {query query' : Arena → α} (h : ∀ a b, a.Alike b → query a = query' b) :
    Lockstep (Reading.Alike H) (inspect query) (inspect query') Eq :=
  fun _ _ hr => ⟨h _ _ hr.arena, hr⟩

theorem lockstep_failAt {V : α → β → Prop} (position position' : Position) {cause cause' : Cause}
    (h : cause.kind = cause'.kind) :
    Lockstep (Reading.Alike H) (failAt position cause : Parse σ α)
      (failAt position' cause' : Parse τ β) V :=
  fun _ _ hr => ⟨h, hr⟩

theorem lockstep_buildUnique (what : Duplicate) (name : String) (position position' : Position)
    {operation operation' : Arena → Except NodeId α × Arena}
    (h : ∀ a b, a.Alike b → bareResult (operation a) = bareResult (operation' b)) :
    Lockstep (Reading.Alike H) (buildUnique what name position operation)
      (buildUnique what name position' operation') Eq := by
  refine (lockstep_build h).bind_eq fun result => ?_
  cases result with
  | ok value => exact .pure rfl
  | error existing =>
    refine Lockstep.bind (V := fun _ _ => True) (fun _ _ hr => ⟨trivial, hr⟩) fun _ _ _ => ?_
    exact lockstep_failAt _ _ rfl

/-! ## Tokens -/

theorem lockstep_peek : Lockstep (Reading.Alike H) peek peek SameKind := by
  rintro ⟨feed, comments, attrs, a, host⟩ ⟨feed', comments', attrs', b, host'⟩ ⟨hf, ha, hab, hh⟩
  cases hf with
  | @more leading leading' token token' rest rest' hkind hrest =>
    cases leading <;> cases leading' <;> exact ⟨hkind, .more hkind hrest, ha, hab, hh⟩
  | done => exact ⟨rfl, .done, ha, hab, hh⟩
  | broken hkind => exact ⟨hkind, .broken hkind, ha, hab, hh⟩

theorem lockstep_advance : Lockstep (Reading.Alike H) advance advance Eq := by
  rintro ⟨feed, comments, attrs, a, host⟩ ⟨feed', comments', attrs', b, host'⟩ ⟨hf, ha, hab, hh⟩
  cases hf with
  | more hkind hrest => exact ⟨rfl, hrest, ha, hab, hh⟩
  | done => exact ⟨rfl, .done, ha, hab, hh⟩
  | broken hkind => exact ⟨rfl, .broken hkind, ha, hab, hh⟩

theorem lockstep_next : Lockstep (Reading.Alike H) next next SameKind :=
  lockstep_peek.bind fun _ _ htoken => lockstep_advance.bind_eq fun _ => .pure htoken

theorem lockstep_nextIs (c : Char) : Lockstep (Reading.Alike H) (nextIs c) (nextIs c) Eq :=
  lockstep_peek.bind fun _ _ (htoken : _ = _) => .pure (by rw [htoken])

theorem lockstep_matchChar (c : Char) :
    Lockstep (Reading.Alike H) (matchChar c) (matchChar c) Eq := by
  refine (lockstep_nextIs c).bind_eq fun found => ?_
  split
  · exact lockstep_advance.bind_eq fun _ => .pure rfl
  · exact .pure rfl

theorem lockstep_unexpected {V : α → β → Prop} (token token' : Token) (expected : String) :
    Lockstep (Reading.Alike H) (unexpected token expected : Parse σ α)
      (unexpected token' expected : Parse τ β) V :=
  lockstep_failAt _ _ rfl

/-- A step that goes on by the kind of the next token. -/
theorem lockstep_bind_token {m : Parse σ Token} {m' : Parse τ Token} {V : α → β → Prop}
    {f : Token → Parse σ α} {f' : Token → Parse τ β}
    (h : Lockstep (Reading.Alike H) m m' SameKind)
    (hf : ∀ kind position position',
      Lockstep (Reading.Alike H) (f ⟨kind, position⟩) (f' ⟨kind, position'⟩) V) :
    Lockstep (Reading.Alike H) (m >>= f) (m' >>= f') V := by
  refine h.bind ?_
  rintro ⟨kind, position⟩ ⟨kind', position'⟩ (rfl : kind = kind')
  exact hf kind position position'

theorem lockstep_bind_text {m : Parse σ (String × Position)} {m' : Parse τ (String × Position)}
    {V : α → β → Prop} {f : String × Position → Parse σ α} {f' : String × Position → Parse τ β}
    (h : Lockstep (Reading.Alike H) m m' SameText)
    (hf : ∀ text position position',
      Lockstep (Reading.Alike H) (f (text, position)) (f' (text, position')) V) :
    Lockstep (Reading.Alike H) (m >>= f) (m' >>= f') V := by
  refine h.bind ?_
  rintro ⟨text, position⟩ ⟨text', position'⟩ (rfl : text = text')
  exact hf text position position'

theorem lockstep_expectChar (c : Char) :
    Lockstep (Reading.Alike H) (expectChar c) (expectChar c) Eq := by
  refine lockstep_bind_token lockstep_next fun kind position position' => ?_
  dsimp only
  split
  · exact .pure rfl
  · exact lockstep_unexpected _ _ _

theorem lockstep_expectIdent (what : String) :
    Lockstep (Reading.Alike H) (expectIdent what) (expectIdent what) SameText := by
  refine lockstep_bind_token lockstep_next fun kind position position' => ?_
  cases kind with
  | ident name => exact .pure rfl
  | _ => exact lockstep_unexpected _ _ _

theorem lockstep_expectString (what : String) :
    Lockstep (Reading.Alike H) (expectString what) (expectString what) SameText := by
  refine lockstep_bind_token lockstep_next fun kind position position' => ?_
  cases kind with
  | string value => exact .pure rfl
  | _ => exact lockstep_unexpected _ _ _

theorem lockstep_nextIsIdent :
    Lockstep (Reading.Alike H) nextIsIdent nextIsIdent Eq := by
  refine lockstep_bind_token lockstep_peek fun kind position position' => ?_
  cases kind <;> exact .pure rfl

theorem lockstep_repeatWhile {step : Parse σ Bool} {step' : Parse τ Bool}
    (h : Lockstep (Reading.Alike H) step step' Eq) :
    ∀ fuel, Lockstep (Reading.Alike H) (repeatWhile step fuel) (repeatWhile step' fuel) Eq
  | 0 => .pure rfl
  | fuel + 1 => by
    refine h.bind_eq fun more => ?_
    split
    · exact lockstep_repeatWhile h fuel
    · exact .pure rfl

/-! ## Comments and attributes -/

theorem lockstep_attachComments (node : NodeId) :
    Lockstep (Reading.Alike H) (attachComments node) (attachComments node) Eq := by
  refine lockstep_peek.bind fun _ _ _ => ?_
  rintro ⟨feed, comments, attrs, a, host⟩ ⟨feed', comments', attrs', b, host'⟩ ⟨hf, ha, hab, hh⟩
  refine ⟨rfl, hf, ha, ?_, hh⟩
  show (bindComments ..).bare = (bindComments ..).bare
  rw [bare_bindComments, bare_bindComments, hab]

theorem lockstep_attachAllComments (node : NodeId) :
    Lockstep (Reading.Alike H) (attachAllComments node) (attachAllComments node) Eq := by
  rintro ⟨feed, comments, attrs, a, host⟩ ⟨feed', comments', attrs', b, host'⟩ ⟨hf, ha, hab, hh⟩
  refine ⟨rfl, hf, ha, ?_, hh⟩
  show (bindComments ..).bare = (bindComments ..).bare
  rw [bare_bindComments, bare_bindComments, hab]

theorem lockstep_holdAttr (attr : NodeId) :
    Lockstep (Reading.Alike H) (holdAttr attr) (holdAttr attr) Eq :=
  fun _ _ ⟨hf, ha, hab, hh⟩ => ⟨rfl, hf, congrArg (· ++ [attr]) ha, hab, hh⟩

theorem lockstep_attachAttrs (node : NodeId) :
    Lockstep (Reading.Alike H) (attachAttrs node) (attachAttrs node) Eq := by
  rintro ⟨feed, comments, attrs, a, host⟩ ⟨feed', comments', attrs', b, host'⟩ ⟨hf, ha, hab, hh⟩
  cases ha
  refine ⟨rfl, hf, rfl, ?_, hh⟩
  clear hf hh
  dsimp only at hab ⊢
  induction attrs generalizing a b with
  | nil => exact hab
  | cons attr attrs ih =>
    refine ih (a.addAttr node attr) (b.addAttr node attr) ?_
    rw [Arena.Alike, bare_addAttr, bare_addAttr, hab]

/-! ## References and arguments -/

section

variable {cx : ReadingContext σ} {cx' : ReadingContext τ}

theorem lockstep_importPackage (hcx : cx.Alike H cx') (path : String)
    (position position' : Position) :
    Lockstep (Reading.Alike H) (importPackage cx path position)
      (importPackage cx' path position') Eq := by
  rintro ⟨feed, comments, attrs, a, host⟩ ⟨feed', comments', attrs', b, host'⟩ ⟨hf, ha, hab, hh⟩
  have himport := hcx.importer path position position' (a, host) (b, host') ⟨hab, hh⟩
  unfold importPackage
  dsimp only
  cases hs : cx.importer path position (a, host) with
  | ok q s =>
    cases ht : cx'.importer path position' (b, host') with
    | ok q' t =>
      rw [hs, ht] at himport
      exact ⟨himport.1, hf, ha, himport.2.1, himport.2.2⟩
    | error e t =>
      rw [hs, ht] at himport
      exact himport.elim
  | error e s =>
    cases ht : cx'.importer path position' (b, host') with
    | ok q' t =>
      rw [hs, ht] at himport
      exact himport.elim
    | error e' t =>
      rw [hs, ht] at himport
      exact ⟨himport.1, hf, ha, himport.2.1, himport.2.2⟩

theorem lockstep_pathTail : ∀ (fuel : Nat) (path : List String),
    Lockstep (Reading.Alike H) (pathTail fuel path) (pathTail fuel path) Eq
  | 0, _ => .pure rfl
  | fuel + 1, path => by
    refine (lockstep_matchChar '.').bind_eq fun found => ?_
    split
    · exact lockstep_bind_text (lockstep_expectIdent _) fun name _ _ =>
        lockstep_pathTail fuel (path ++ [name])
    · exact .pure rfl

theorem lockstep_newNode {cx : ReadingContext σ} {cx' : ReadingContext τ} (hcx : cx.Alike H cx')
    (name : String) (position position' : Position) (kind : NodeKind) :
    Lockstep (Reading.Alike H)
      (build fun arena => arena.alloc name (some cx.script) position kind)
      (build fun arena => arena.alloc name (some cx'.script) position' kind) Eq :=
  lockstep_build fun a b hab => by rw [bare_alloc, bare_alloc, hab, hcx.script]

theorem lockstep_finishRef (hcx : cx.Alike H cx') (first : String)
    (position position' : Position) :
    Lockstep (Reading.Alike H) (finishRef cx first position) (finishRef cx' first position') Eq := by
  unfold finishRef
  rw [hcx.budget]
  exact (lockstep_pathTail _ _).bind_eq fun path => lockstep_newNode hcx _ _ _ _

theorem lockstep_typeRef (hcx : cx.Alike H cx') :
    Lockstep (Reading.Alike H) (typeRef cx) (typeRef cx') Eq :=
  lockstep_bind_text (lockstep_expectIdent _) fun first _ _ => lockstep_finishRef hcx first _ _

theorem lockstep_signed (hcx : cx.Alike H cx') (negative : Bool) (position position' : Position) :
    Lockstep (Reading.Alike H) (signed cx negative position) (signed cx' negative position') Eq := by
  refine lockstep_bind_token lockstep_next fun kind _ _ => ?_
  cases kind with
  | int value => exact lockstep_newNode hcx _ _ _ _
  | float value => exact lockstep_newNode hcx _ _ _ _
  | _ => exact lockstep_unexpected _ _ _

theorem lockstep_operand (hcx : cx.Alike H cx') :
    Lockstep (Reading.Alike H) (operand cx) (operand cx') Eq := by
  refine lockstep_bind_token lockstep_next fun kind position position' => ?_
  cases kind with
  | int value => exact lockstep_newNode hcx _ _ _ _
  | float value => exact lockstep_newNode hcx _ _ _ _
  | string value => exact lockstep_newNode hcx _ _ _ _
  | bool value => exact lockstep_newNode hcx _ _ _ _
  | char c =>
    dsimp only
    split
    · exact lockstep_signed hcx true _ _
    · split
      · exact lockstep_signed hcx false _ _
      · exact lockstep_unexpected _ _ _
  | ident first => exact lockstep_finishRef hcx first _ _
  | _ => exact lockstep_unexpected _ _ _

theorem lockstep_unionTail (hcx : cx.Alike H cx') : ∀ (fuel : Nat) (value : NodeId),
    Lockstep (Reading.Alike H) (unionTail cx fuel value) (unionTail cx' fuel value) Eq
  | 0, _ => .pure rfl
  | fuel + 1, value => by
    refine lockstep_bind_token lockstep_peek fun kind position position' => ?_
    dsimp only
    split
    · refine lockstep_advance.bind_eq fun _ => (lockstep_operand hcx).bind_eq fun right => ?_
      refine Lockstep.bind_eq (lockstep_build fun a b hab => ?_) fun value =>
        lockstep_unionTail hcx fuel value
      rw [bare_newUnion, bare_newUnion, hab, hcx.script]
    · exact .pure rfl

theorem lockstep_argument (hcx : cx.Alike H cx') :
    Lockstep (Reading.Alike H) (argument cx) (argument cx') Eq := by
  unfold argument
  rw [hcx.budget]
  exact (lockstep_operand hcx).bind_eq fun value => lockstep_unionTail hcx _ value

theorem lockstep_namedArgument (hcx : cx.Alike H cx') (args : NodeId) :
    Lockstep (Reading.Alike H) (namedArgument cx args) (namedArgument cx' args) Eq := by
  refine lockstep_bind_token lockstep_next fun kind position position' => ?_
  cases kind with
  | label name =>
    refine (lockstep_argument hcx).bind_eq fun value => ?_
    refine Lockstep.bind_eq (lockstep_buildUnique _ _ _ _ fun a b hab => ?_) fun _ => ?_
    · rw [bare_insertNamedArg, bare_insertNamedArg, hab]
    · exact (lockstep_matchChar ',').bind_eq fun more =>
        (lockstep_attachComments value).bind_eq fun _ => .pure rfl
  | _ => exact lockstep_unexpected _ _ _

theorem lockstep_positionalArgument (hcx : cx.Alike H cx') (args : NodeId) :
    Lockstep (Reading.Alike H) (positionalArgument cx args) (positionalArgument cx' args) Eq := by
  refine (lockstep_argument hcx).bind_eq fun value => ?_
  refine Lockstep.bind_eq (lockstep_change fun a b hab => ?_) fun _ => ?_
  · rw [Arena.Alike, bare_pushArg, bare_pushArg, hab]
  · exact (lockstep_matchChar ',').bind_eq fun more =>
      (lockstep_attachComments value).bind_eq fun _ => .pure rfl

theorem lockstep_arguments (hcx : cx.Alike H cx') :
    Lockstep (Reading.Alike H) (arguments cx) (arguments cx') Eq := by
  refine lockstep_bind_token lockstep_peek fun kind position position' => ?_
  have hnamed : Lockstep (Reading.Alike H)
      (do
        let args ← build fun arena => arena.newNamedArgs cx.script position
        repeatWhile (namedArgument cx args) cx.budget
        pure (some args))
      (do
        let args ← build fun arena => arena.newNamedArgs cx'.script position'
        repeatWhile (namedArgument cx' args) cx'.budget
        pure (some args)) Eq := by
    rw [hcx.budget]
    exact (lockstep_newNode hcx _ _ _ _).bind_eq fun args =>
      (lockstep_repeatWhile (lockstep_namedArgument hcx args) _).bind_eq fun _ => .pure rfl
  have hlisted : Lockstep (Reading.Alike H)
      (do
        let args ← build fun arena => arena.newArgs cx.script position
        repeatWhile (positionalArgument cx args) cx.budget
        pure (some args))
      (do
        let args ← build fun arena => arena.newArgs cx'.script position'
        repeatWhile (positionalArgument cx' args) cx'.budget
        pure (some args)) Eq := by
    rw [hcx.budget]
    exact (lockstep_newNode hcx _ _ _ _).bind_eq fun args =>
      (lockstep_repeatWhile (lockstep_positionalArgument hcx args) _).bind_eq fun _ => .pure rfl
  dsimp only
  split
  · exact .pure rfl
  · exact hnamed
  · exact hlisted

theorem lockstep_newAttr (hcx : cx.Alike H cx') (type : NodeId) (position position' : Position) :
    Lockstep (Reading.Alike H) (build fun arena => arena.newAttr cx.script type position)
      (build fun arena => arena.newAttr cx'.script type position') Eq :=
  lockstep_build fun a b hab => by rw [bare_newAttr, bare_newAttr, hab, hcx.script]

theorem lockstep_attr (hcx : cx.Alike H cx') :
    Lockstep (Reading.Alike H) (attr cx) (attr cx') Eq := by
  refine lockstep_bind_token lockstep_peek fun kind position position' => ?_
  dsimp only
  split
  · refine lockstep_advance.bind_eq fun _ => (lockstep_typeRef hcx).bind_eq fun type => ?_
    refine (lockstep_newAttr hcx type position position').bind_eq fun node => ?_
    have hrest : Lockstep (Reading.Alike H)
        (do
          attachComments node
          holdAttr node
          pure true)
        (do
          attachComments node
          holdAttr node
          pure true) Eq :=
      (lockstep_attachComments node).bind_eq fun _ =>
        (lockstep_holdAttr node).bind_eq fun _ => .pure rfl
    refine (lockstep_matchChar '(').bind_eq fun found => ?_
    split
    · refine (lockstep_arguments hcx).bind_eq fun args => ?_
      cases args with
      | none => exact (lockstep_expectChar ')').bind_eq fun _ => hrest
      | some args =>
        refine Lockstep.bind_eq (lockstep_change fun a b hab => ?_) fun _ =>
          (lockstep_expectChar ')').bind_eq fun _ => hrest
        rw [Arena.Alike, bare_setAttrArgs, bare_setAttrArgs, hab]
    · exact hrest
  · exact .pure rfl

theorem lockstep_attributes (hcx : cx.Alike H cx') :
    Lockstep (Reading.Alike H) (attributes cx) (attributes cx') Eq := by
  unfold attributes
  rw [hcx.budget]
  exact lockstep_repeatWhile (lockstep_attr hcx) _

end

end Parse

end SchemaLang
