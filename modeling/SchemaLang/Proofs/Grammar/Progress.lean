import SchemaLang.Proofs.Grammar.Streaming
import SchemaLang.Proofs.Grammar.Metered
import SchemaLang.Proofs.Outcome

/-!
# Reading a script comes to an end

A loop of the grammar goes on for as long as its step says so, and a type is read by reading the types
nested in it. This comes to an end because nothing of it succeeds without taking a token: no round of a
loop that is followed by another one, and no type (`Parse.Advances`). At the end of the file every step
says no or fails.

What takes a token shows from how a part of a reading is put together (`Parse.Moves`). Of two parts in a
row the first one takes it (`bindTaken`) or the second one has to (`bind`).

The metered grammar is walked through along with the one that runs (`Metered.Follows`): from a reading with
fewer tokens than the budget both do the same, and a larger budget of the metered one changes nothing. So
reading a script is not cut off, and ends in the same way (`Metered.finishes_readScript`).
-/

namespace SchemaLang

namespace Parse

variable {σ α β : Type}

/-! ## Taking tokens -/

/-- Of no value it is said that a token was taken. -/
abbrev never : α → Bool := fun _ => false

/-- Of every value it is said that a token was taken. -/
abbrev always : α → Bool := fun _ => true

/-- Where the step succeeds with a value of which `taken` says so, it has taken a token. -/
def Progresses (taken : α → Bool) (step : Parse σ α) : Prop :=
  ∀ r x r', step r = .ok x r' → taken x = true → r'.feed.size < r.feed.size

/-- The step goes on in the feed, and progresses. -/
def Moves (taken : α → Bool) (m : Parse σ α) : Prop :=
  ∀ r, Leads Proceeds m r fun x r' => taken x = true → r'.feed.size < r.feed.size

namespace Moves

variable {taken : α → Bool} {taken' : β → Bool} {m : Parse σ α} {f : α → Parse σ β}

theorem progresses (h : Moves taken m) : Progresses taken m :=
  fun r _ _ hrun => ((h r).ok hrun).2

theorem pure {x : α} (h : taken x = false) : Moves taken (Pure.pure x : Parse σ α) :=
  fun _ => Leads.pure fun hx => by rw [h] at hx; cases hx

theorem failAt {position : Position} {cause : Cause} :
    Moves taken (Parse.failAt position cause : Parse σ α) :=
  fun _ => Leads.throw

theorem weaken (h : ∀ r, Leads Proceeds m r fun _ _ => True) : Moves never m :=
  fun r => (h r).mono fun _ _ _ _ => nofun

theorem build {operation : Arena → α × Arena} :
    Moves never (Parse.build operation : Parse σ α) :=
  .weaken (proceeds_of_same fun _ => ⟨_, _, rfl, rfl⟩)

theorem inspect {query : Arena → α} : Moves never (Parse.inspect query : Parse σ α) :=
  .weaken (proceeds_of_same fun _ => ⟨_, _, rfl, rfl⟩)

/-- The second part has to take the token where the first one has not. -/
theorem chain (h : Moves taken m) (hf : ∀ x, Moves (fun y => !taken x && taken' y) (f x)) :
    Moves taken' (m >>= f) := by
  refine fun r => (h r).bind fun x r' hr hlt => (hf x r').mono fun y r'' hr' hlt' htaken => ?_
  have hle := hr.size_le
  have hle' := hr'.size_le
  cases hx : taken x with
  | true => exact Nat.lt_of_le_of_lt hle' (hlt hx)
  | false =>
    have hy : (!taken x && taken' y) = true := by rw [hx, htaken]; rfl
    exact Nat.lt_of_lt_of_le (hlt' hy) hle

theorem bind (h : Moves never m) (hf : ∀ x, Moves taken' (f x)) :
    Moves taken' (m >>= f) :=
  h.chain hf

theorem bindTaken (h : Moves always m) (hf : ∀ x, Moves never (f x)) :
    Moves taken' (m >>= f) :=
  h.chain hf

theorem buildUnique {what : Duplicate} {name : String} {position : Position}
    {operation : Arena → Except NodeId α × Arena} :
    Moves never (Parse.buildUnique what name position operation : Parse σ α) := by
  refine build.bind fun result => ?_
  cases result with
  | ok value => exact .pure rfl
  | error existing => exact inspect.bind fun first => .failAt

end Moves

/-- A token before the end stays in front of the feed when it is looked at. -/
theorem leads_peek (r : Reading σ) : Leads Proceeds peek r fun token r' =>
    token.kind ≠ .eof → ∃ rest, r'.feed = .more [] token rest := by
  obtain ⟨feed, comments, attrs, arena, host⟩ := r
  cases feed with
  | more leading token rest => cases leading <;> exact ⟨.look (.refl _), fun _ => ⟨rest, rfl⟩⟩
  | done leading position => exact ⟨.lookEnd (.refl _), fun hne => absurd rfl hne⟩
  | broken failure => exact .refl _

theorem leads_advance {r : Reading σ} {leading : List Comment} {token : Token} {rest : Feed}
    (h : r.feed = .more leading token rest) :
    Leads Proceeds advance r fun _ r' => r'.feed.size < r.feed.size := by
  obtain ⟨feed, comments, attrs, arena, host⟩ := r
  obtain rfl : feed = .more leading token rest := h
  have hsize := Feed.size_more leading token rest
  exact ⟨.take (.look (.refl _)), by dsimp only; omega⟩

/-- A token that is taken is gone, unless it is the end of the file. -/
theorem leads_next (r : Reading σ) : Leads Proceeds next r fun token r' =>
    token.kind ≠ .eof → r'.feed.size < r.feed.size := by
  refine (leads_peek r).bind fun token r' hr hfront => ?_
  by_cases heof : token.kind = .eof
  · exact (walks_proceeds.advance r').bind fun _ _ _ _ => Leads.pure fun hne => absurd heof hne
  · obtain ⟨rest, hfeed⟩ := hfront heof
    exact (leads_advance hfeed).bind fun _ r'' _ hlt =>
      Leads.pure fun _ => Nat.lt_of_lt_of_le hlt hr.size_le

/-- Where the end of the file is taken, the rest has to take the token. -/
theorem Moves.take {taken : α → Bool} {f : Token → Parse σ α}
    (h : ∀ token, Moves never (f token))
    (heof : ∀ position, Moves taken (f ⟨.eof, position⟩)) : Moves taken (next >>= f) := by
  refine fun r => (leads_next r).bind fun token r' hr hlt => ?_
  by_cases hkind : token.kind = .eof
  · obtain ⟨kind, position⟩ := token
    obtain rfl : kind = .eof := hkind
    exact (heof position r').mono fun _ _ _ hlt htaken => Nat.lt_of_lt_of_le (hlt htaken) hr.size_le
  · exact (h token r').mono fun _ _ hr' _ _ => Nat.lt_of_le_of_lt hr'.size_le (hlt hkind)

/-- A token that is looked for is taken where it is found. -/
theorem Moves.lookFor {taken : α → Bool} {kind : TokenKind} {f : Token → Parse σ α} {x : α}
    (hkind : kind ≠ .eof) (h : ∀ token, Moves never (f token)) (hx : taken x = false) :
    Moves taken (do
      let token ← peek
      if token.kind == kind then
        advance
        f token
      else Pure.pure x) := by
  refine fun r => (leads_peek r).bind fun token r' hr hfront => ?_
  split
  · rename_i hfound
    obtain ⟨rest, hfeed⟩ := hfront (eq_of_beq hfound ▸ hkind)
    exact (leads_advance hfeed).bind fun _ r'' _ hlt => (h token r'').mono fun _ _ hr' _ _ =>
      Nat.lt_of_le_of_lt hr'.size_le (Nat.lt_of_lt_of_le hlt hr.size_le)
  · exact Leads.pure fun htaken => by rw [hx] at htaken; cases htaken

theorem moves_expectIdent (what : String) :
    Moves always (expectIdent what : Parse σ (String × Position)) := by
  refine .take (fun token => ?_) fun _ => .failAt
  split
  · exact .pure rfl
  · exact .failAt

section

variable {cx : ReadingContext σ}

theorem moves_importClause : Moves always (importClause cx) := by
  have hrest : ∀ (name path : String) (position : Position), Moves never (do
      let package ← importPackage cx path position
      let node ← bindImport cx name package position
      attachComments node) := fun _ path position =>
    (Moves.weaken (proceeds_importPackage path position)).bind fun _ => Moves.buildUnique.bind fun node =>
      .weaken (walks_proceeds.attachComments node)
  refine .take (fun token => ?_) fun _ => Moves.failAt.bindTaken fun _ => hrest _ _ _
  split
  · exact hrest _ _ _
  · exact (Moves.weaken (walks_proceeds.expectString _)).bind fun _ => hrest _ _ _
  · exact Moves.failAt.bind fun _ => hrest _ _ _

theorem moves_groupedImport : Moves id (groupedImport cx) := by
  refine (Moves.weaken (walks_proceeds.nextIs ')')).bind fun closed => ?_
  split
  · exact .pure rfl
  · exact moves_importClause.bindTaken fun _ => .pure rfl

end

/-! ## Rounds of the tails -/

/-- The next name of a dotted path. -/
def pathStep (path : List String) : Parse σ (Option (List String)) := do
  if ← matchChar '.' then
    let (name, _) ← expectIdent "type name"
    pure (some (path ++ [name]))
  else pure none

theorem pathTail_succ (fuel : Nat) (path : List String) :
    (pathTail (fuel + 1) path : Parse σ _) =
      pathStep path >>= fun next => next.elim (pure path) (pathTail fuel) := by
  rw [pathTail, pathStep, bind_assoc]
  refine bind_congr fun more => ?_
  split
  · simp only [bind_assoc, pure_bind, Option.elim_some]
  · exact (pure_bind ..).symm

variable (cx : ReadingContext σ)

/-- The next operand of a chain. -/
def unionStep (value : NodeId) : Parse σ (Option NodeId) := do
  let bar ← peek
  if bar.kind == .char '|' then
    advance
    let right ← operand cx
    let value ← build fun arena => arena.newUnion cx.script value right bar.position
    pure (some value)
  else pure none

theorem unionTail_succ (fuel : Nat) (value : NodeId) :
    unionTail cx (fuel + 1) value =
      unionStep cx value >>= fun next => next.elim (pure value) (unionTail cx fuel) := by
  rw [unionTail, unionStep, bind_assoc]
  refine bind_congr fun bar => ?_
  split
  · simp only [bind_assoc, pure_bind, Option.elim_some]
  · exact (pure_bind ..).symm

end Parse

/-- The context with a larger budget. -/
def ReadingContext.plus {σ : Type} (cx : ReadingContext σ) (spare : Nat) : ReadingContext σ :=
  { cx with budget := cx.budget + spare }

namespace Metered

open Parse (Moves Proceeds always never)

variable {σ α β : Type}

/-! ## What both grammars do -/

theorem bind_run {e : Metered σ α} {f : α → Metered σ β} {m : Parse σ α} {f' : α → Parse σ β}
    {r : Reading σ} (h : e r = some (outcome (m r)))
    (hf : ∀ x r', m r = .ok x r' → f x r' = some (outcome (f' x r'))) :
    (e >>= f) r = some (outcome ((m >>= f') r)) := by
  have hbind : (e >>= f) r = (e r).bind fun (result, r') =>
      match result with
      | .ok x => f x r'
      | .error failure => some (.error failure, r') := by
    show (e r).bind _ = _
    congr 1
    funext ⟨result, r'⟩
    cases result <;> rfl
  rw [hbind, h]
  cases hm : m r with
  | ok x r' => rw [bind_ok hm, ← hf x r' hm]; rfl
  | error failure r' => rw [bind_error hm]; rfl

/-- From a reading with fewer than `n` tokens the metered part is not cut off and ends as the other one
does, which goes on in the feed and takes a token where the value says so. -/
structure Follows (n : Nat) (taken : α → Bool) (e : Metered σ α) (m : Parse σ α) : Prop where
  ends : ∀ r, r.feed.size < n → e r = some (outcome (m r))
  moves : Moves taken m

namespace Follows

variable {n k : Nat} {taken : α → Bool} {taken' : β → Bool} {e : Metered σ α}
  {m : Parse σ α} {f : α → Metered σ β} {f' : α → Parse σ β}

theorem once (h : Moves taken m) : Follows n taken (once m) m :=
  ⟨fun _ _ => rfl, h⟩

theorem pure {x : α} (h : taken x = false) :
    Follows n taken (Pure.pure x : Metered σ α) (Pure.pure x) :=
  ⟨fun _ _ => rfl, .pure h⟩

theorem failAt {position : Position} {cause : Cause} :
    Follows n taken (Metered.once (Parse.failAt position cause) : Metered σ α)
      (Parse.failAt position cause) :=
  once .failAt

/-- A part without loops. -/
theorem plain (h : ∀ r, Leads Proceeds m r fun _ _ => True) :
    Follows n never (Metered.once m) m :=
  once (.weaken h)

theorem mono (h : Follows n taken e m) (hk : k ≤ n) : Follows k taken e m :=
  ⟨fun r hr => h.ends r (Nat.lt_of_lt_of_le hr hk), h.moves⟩

theorem weaken (h : Follows n taken e m) : Follows n never e m :=
  ⟨h.ends, .weaken fun r => (h.moves r).mono fun _ _ _ _ => trivial⟩

theorem ends_bind (h : Follows n taken e m)
    (hf : ∀ x r, r.feed.size < n → f x r = some (outcome (f' x r))) (r : Reading σ)
    (hr : r.feed.size < n) : (e >>= f) r = some (outcome ((m >>= f') r)) :=
  bind_run (h.ends r hr) fun x r' hrun =>
    hf x r' (Nat.lt_of_le_of_lt ((h.moves r).ok hrun).1.size_le hr)

theorem chain (h : Follows n taken e m)
    (hf : ∀ x, Follows n (fun y => !taken x && taken' y) (f x) (f' x)) :
    Follows n taken' (e >>= f) (m >>= f') :=
  ⟨h.ends_bind fun x => (hf x).ends, h.moves.chain fun x => (hf x).moves⟩

/-- The second part has to take the token. -/
theorem bind (h : Follows n never e m) (hf : ∀ x, Follows n taken' (f x) (f' x)) :
    Follows n taken' (e >>= f) (m >>= f') :=
  h.chain hf

/-- The first part took the token. -/
theorem bindTaken (h : Follows n always e m)
    (hf : ∀ x, Follows n never (f x) (f' x)) : Follows n taken' (e >>= f) (m >>= f') :=
  h.chain hf

/-- What comes behind a token starts with fewer tokens. -/
theorem take {f : Token → Metered σ α} {f' : Token → Parse σ α} (hk : n ≤ k + 1)
    (h : ∀ token, Follows k never (f token) (f' token))
    (heof : ∀ position, Follows n taken (f ⟨.eof, position⟩) (f' ⟨.eof, position⟩)) :
    Follows n taken (Metered.once Parse.next >>= f) (Parse.next >>= f') := by
  refine ⟨fun r hr => bind_run rfl fun token r' hrun => ?_,
    .take (fun token => (h token).moves) fun position => (heof position).moves⟩
  obtain ⟨hproceeds, hlt⟩ := (Parse.leads_next r).ok hrun
  have hle := hproceeds.size_le
  by_cases hkind : token.kind = .eof
  · obtain ⟨kind, position⟩ := token
    obtain rfl : kind = .eof := hkind
    exact (heof position).ends r' (by omega)
  · have hlt := hlt hkind
    exact (h token).ends r' (by omega)

/-- A token that is looked for is taken where it is found. -/
theorem lookFor {kind : TokenKind} {f : Token → Metered σ α} {f' : Token → Parse σ α} {x : α}
    (hkind : kind ≠ .eof) (h : ∀ token, Follows n never (f token) (f' token))
    (hx : taken x = false) :
    Follows n taken
      (do
        let token ← Metered.once Parse.peek
        if token.kind == kind then
          Metered.once Parse.advance
          f token
        else Pure.pure x)
      (do
        let token ← Parse.peek
        if token.kind == kind then
          Parse.advance
          f' token
        else Pure.pure x) := by
  have hadvance : Follows n never (Metered.once Parse.advance) (Parse.advance (σ := σ)) :=
    plain Parse.walks_proceeds.advance
  have hpeek : Follows n never (Metered.once Parse.peek) (Parse.peek (σ := σ)) :=
    plain Parse.proceeds_peek
  refine ⟨hpeek.ends_bind fun token r hr => ?_, .lookFor hkind (fun token => (h token).moves) hx⟩
  split
  · exact (hadvance.bind fun _ => h token).ends r hr
  · rfl

/-! ## Loops -/

/-- A loop whose rounds take tokens has no more rounds than there are tokens. -/
theorem iterate (tail : Nat → α → Parse σ α) {e : α → Metered σ (Option α)}
    {m : α → Parse σ (Option α)} (hzero : ∀ x, tail 0 x = Pure.pure x)
    (hsucc : ∀ fuel x, tail (fuel + 1) x = m x >>= fun next =>
      next.elim (Pure.pure x) (tail fuel))
    (h : ∀ x, Follows n Option.isSome (e x) (m x)) {fuel : Nat} (hfuel : n ≤ fuel) (x : α) :
    Follows n never (Metered.iterate e (fuel + k) x) (tail fuel x) := by
  have hends : ∀ (fuel : Nat) (x : α) (r : Reading σ), r.feed.size < n → r.feed.size < fuel →
      Metered.iterate e (fuel + k) x r = some (outcome (tail fuel x r)) := by
    intro fuel
    induction fuel with
    | zero => exact fun x r _ hr => absurd hr (Nat.not_lt_zero _)
    | succ fuel ih =>
      intro x r hn hr
      rw [Nat.add_right_comm, Metered.iterate, hsucc]
      refine bind_run ((h x).ends r hn) fun more r' hrun => ?_
      have hlt := (((h x).moves r).ok hrun).2
      cases more with
      | none => rfl
      | some y =>
        have hlt := hlt rfl
        exact ih y r' (by omega) (by omega)
  have hmoves : ∀ (fuel : Nat) (x : α), Moves never (tail fuel x) := by
    intro fuel
    induction fuel with
    | zero => exact fun x => hzero x ▸ .pure rfl
    | succ fuel ih =>
      intro x
      rw [hsucc]
      refine (h x).weaken.moves.bind fun more => ?_
      cases more with
      | none => exact .pure rfl
      | some y => exact ih y
  exact ⟨fun r hr => hends fuel x r hr (Nat.lt_of_lt_of_le hr hfuel), hmoves fuel x⟩

theorem loop {e : Metered σ Bool} {m : Parse σ Bool} (h : Follows n id e m) {fuel : Nat}
    (hfuel : n ≤ fuel) :
    Follows n never (Metered.loop e (fuel + k)) (Parse.repeatWhile m fuel) := by
  refine iterate (fun fuel _ => Parse.repeatWhile m fuel) (m := fun _ => do
    if ← m then Pure.pure (some ()) else Pure.pure none) (fun _ => rfl) (fun fuel _ => ?_)
    (fun _ => h.chain fun more => ?_) hfuel ()
  · rw [Parse.repeatWhile, bind_assoc]
    refine bind_congr fun more => ?_
    split
    · exact (pure_bind ..).symm
    · exact (pure_bind ..).symm
  · cases more with
    | true => exact .pure rfl
    | false => exact .pure rfl

/-! ## Parts without loops -/

theorem build {operation : Arena → α × Arena} :
    Follows n never (Metered.once (Parse.build operation) : Metered σ α)
      (Parse.build operation) :=
  once .build

theorem inspect {query : Arena → α} :
    Follows n never (Metered.once (Parse.inspect query) : Metered σ α)
      (Parse.inspect query) :=
  once .inspect

theorem buildUnique {what : Duplicate} {name : String} {position : Position}
    {operation : Arena → Except NodeId α × Arena} :
    Follows n never
      (Metered.once (Parse.buildUnique what name position operation) : Metered σ α)
      (Parse.buildUnique what name position operation) :=
  once .buildUnique

theorem peek : Follows n never (Metered.once Parse.peek) (Parse.peek (σ := σ)) :=
  plain Parse.proceeds_peek

theorem matchChar {c : Char} : Follows n never (Metered.once (Parse.matchChar c))
    (Parse.matchChar (σ := σ) c) :=
  plain (Parse.walks_proceeds.matchChar c)

theorem expectChar {c : Char} : Follows n never (Metered.once (Parse.expectChar c))
    (Parse.expectChar (σ := σ) c) :=
  plain (Parse.walks_proceeds.expectChar c)

theorem expectIdent {what : String} :
    Follows n always (Metered.once (Parse.expectIdent what))
      (Parse.expectIdent (σ := σ) what) :=
  once (Parse.moves_expectIdent what)

theorem attachComments {node : NodeId} :
    Follows n never (Metered.once (Parse.attachComments node))
      (Parse.attachComments (σ := σ) node) :=
  plain (Parse.walks_proceeds.attachComments node)

theorem attachAttrs {node : NodeId} :
    Follows n never (Metered.once (Parse.attachAttrs node))
      (Parse.attachAttrs (σ := σ) node) :=
  plain (Parse.walks_proceeds.attachAttrs node)

/-! ## References, arguments and attributes -/

theorem pathStep (path : List String) :
    Follows n Option.isSome (Metered.pathStep path) (Parse.pathStep (σ := σ) path) := by
  refine matchChar.bind fun more => ?_
  split
  · exact expectIdent.bindTaken fun _ => .pure rfl
  · exact .pure rfl

variable {cx : ReadingContext σ}

section

variable (hb : n ≤ cx.budget)

include hb

theorem finishRef (first : String) (position : Position) : Follows n never
    (Metered.finishRef (cx.plus k) first position) (Parse.finishRef cx first position) :=
  (iterate Parse.pathTail (fun _ => rfl) Parse.pathTail_succ pathStep hb [first]).bind fun _ => build

theorem typeRef : Follows n always (Metered.typeRef (cx.plus k)) (Parse.typeRef cx) :=
  expectIdent.bindTaken fun _ => finishRef hb _ _

theorem operand : Follows n always (Metered.operand (cx.plus k)) (Parse.operand cx) := by
  refine take (Nat.le_succ n) (fun ⟨kind, position⟩ => ?_) fun _ => failAt
  cases kind with
  | int => exact build
  | float => exact build
  | string => exact build
  | bool => exact build
  | char c =>
    dsimp only
    split
    · exact plain (Parse.walks_proceeds.signed _ _)
    split
    · exact plain (Parse.walks_proceeds.signed _ _)
    · exact failAt
  | ident first => exact finishRef hb first position
  | _ => exact failAt

theorem unionStep (value : NodeId) : Follows n Option.isSome (Metered.unionStep (cx.plus k) value)
    (Parse.unionStep cx value) :=
  lookFor nofun (fun _ => (operand hb).weaken.bind fun _ => build.bind fun _ => .pure rfl) rfl

theorem argument : Follows n always (Metered.argument (cx.plus k)) (Parse.argument cx) :=
  (operand hb).bindTaken fun value =>
    iterate (Parse.unionTail cx) (fun _ => rfl) (Parse.unionTail_succ cx) (unionStep hb) hb value

theorem namedArgument (args : NodeId) : Follows n id (Metered.namedArgument (cx.plus k) args)
    (Parse.namedArgument cx args) := by
  refine take (Nat.le_succ n) (fun ⟨kind, position⟩ => ?_) fun _ => failAt
  cases kind with
  | label name =>
    refine (argument hb).weaken.bind fun value => buildUnique.bind fun _ => ?_
    exact matchChar.bind fun _ => attachComments.bind fun _ => .pure rfl
  | _ => exact failAt

theorem positionalArgument (args : NodeId) : Follows n id
    (Metered.positionalArgument (cx.plus k) args) (Parse.positionalArgument cx args) :=
  (argument hb).bindTaken fun _ => build.bind fun _ => matchChar.bind fun _ =>
    attachComments.bind fun _ => .pure rfl

theorem arguments : Follows n never (Metered.arguments (cx.plus k)) (Parse.arguments cx) := by
  have hpositional : ∀ position : Position, Follows n never
      (do
        let args ← Metered.once (Parse.build fun arena => arena.newArgs cx.script position)
        Metered.loop (Metered.positionalArgument (cx.plus k) args) (cx.plus k).budget
        Pure.pure (some args))
      (do
        let args ← Parse.build fun arena => arena.newArgs cx.script position
        Parse.repeatWhile (Parse.positionalArgument cx args) cx.budget
        Pure.pure (some args)) := fun _ =>
    build.bind fun args => (loop (positionalArgument hb args) hb).bind fun _ => .pure rfl
  refine peek.bind fun ⟨kind, position⟩ => ?_
  by_cases hclosed : kind = .char ')'
  · subst hclosed
    exact .pure rfl
  rw [if_neg hclosed]
  cases kind with
  | label name =>
    exact build.bind fun args => (loop (namedArgument hb args) hb).bind fun _ => .pure rfl
  | char c =>
    dsimp only
    split
    next hchar => exact absurd hchar hclosed
    next hchar => cases hchar
    next => exact hpositional position
  | _ => exact hpositional position

theorem attr : Follows n id (Metered.attr (cx.plus k)) (Parse.attr cx) := by
  refine lookFor nofun (fun sign => ?_) rfl
  refine (typeRef hb).weaken.bind fun type => build.bind fun node => matchChar.bind fun opened => ?_
  have hrest : Follows n never
      (do
        Metered.once (Parse.attachComments node)
        Metered.once (Parse.holdAttr node)
        Pure.pure true : Metered σ Bool)
      (do
        Parse.attachComments node
        Parse.holdAttr node
        Pure.pure true) :=
    attachComments.bind fun _ => (plain (Parse.walks_proceeds.holdAttr node)).bind fun _ => .pure rfl
  split
  · refine (arguments hb).bind fun args => ?_
    cases args with
    | none => exact expectChar.bind fun _ => hrest
    | some args => exact build.bind fun _ => expectChar.bind fun _ => hrest
  · exact hrest

theorem attributes : Follows n never (Metered.attributes (cx.plus k)) (Parse.attributes cx) :=
  loop (attr hb) hb

end

/-! ## Types -/

theorem builtinRef {name : String} {position : Position} : Follows n never
    (Metered.once (Parse.builtinRef cx name position)) (Parse.builtinRef cx name position) :=
  plain (Parse.walks_proceeds.builtinRef name position)

/-- What is nested in a type starts behind a token, and with a depth that is less by one. -/
theorem typeWithin : ∀ fuel : Nat, Follows (min fuel cx.budget) always
    (Metered.typeWithin (cx.plus k) (fuel + k)) (Parse.typeWithin cx fuel)
  | 0 => by
    refine ⟨fun r hr => absurd hr ?_, .take (fun _ => .failAt) fun _ => .failAt⟩
    rw [Nat.zero_min]
    exact Nat.not_lt_zero _
  | fuel + 1 => by
    have hless : min (fuel + 1) cx.budget ≤ min fuel cx.budget + 1 := by omega
    have ih := (typeWithin fuel).weaken
    rw [Nat.add_right_comm, Metered.typeWithin]
    refine take hless (fun ⟨kind, position⟩ => ?_) fun _ => failAt
    by_cases hopened : kind = .char '['
    · subst hopened
      refine (plain Parse.walks_proceeds.arrayLength).bind fun length => expectChar.bind fun _ => ?_
      refine ih.bind fun element => inspect.bind fun nested => ?_
      split
      · exact failAt
      cases length with
      | some length => exact build
      | none => exact build
    rw [if_neg hopened]
    cases kind with
    | keyword word =>
      cases word with
      | map =>
        refine expectChar.bind fun _ => ih.bind fun key => inspect.bind fun nested => ?_
        split
        · exact failAt
        refine expectChar.bind fun _ => ih.bind fun value => inspect.bind fun nested => ?_
        split
        · exact failAt
        · exact build
      | _ => first | exact builtinRef | exact failAt
    | ident first => exact finishRef (Nat.min_le_right fuel cx.budget) first position
    | char c =>
      dsimp only
      split
      next hchar => exact absurd hchar hopened
      next hchar => cases hchar
      next hchar => cases hchar
      next hchar => cases hchar
      next => exact failAt
    | _ => exact failAt

/-- A body between braces. -/
theorem braced {e : Metered σ Unit} {m : Parse σ Unit} (h : Follows n never e m) :
    Follows n never
      (do
        Metered.once (Parse.expectChar '\x7b')
        e
        Metered.once (Parse.expectChar '\x7d'))
      (do
        Parse.expectChar '\x7b'
        m
        Parse.expectChar '\x7d') :=
  expectChar.bind fun _ => h.bind fun _ => expectChar

section

variable (hb : n ≤ cx.budget)

include hb

theorem typeExpression : Follows n always (Metered.typeExpression (cx.plus k))
    (Parse.typeExpression cx) :=
  (typeWithin cx.budget).mono (Nat.le_min.2 ⟨hb, hb⟩)

/-! ## Declarations -/

theorem enumValue (enum : NodeId) (enumName : String) (base : EnumBase) :
    Follows n id (Metered.enumValue (cx.plus k) enum enumName base)
      (Parse.enumValue cx enum enumName base) := by
  refine (attributes hb).bind fun _ => expectIdent.bindTaken fun ident => expectChar.bind fun _ => ?_
  refine matchChar.bind fun negative => ?_
  refine take (Nat.le_succ n) (fun ⟨kind, position⟩ => ?_) fun _ => failAt
  cases kind with
  | int size =>
    dsimp only
    generalize (if negative = true then -size else size) = value
    split
    · refine expectChar.bind fun _ => buildUnique.bind fun node => attachAttrs.bind fun _ => ?_
      exact matchChar.bind fun _ => attachComments.bind fun _ => .pure rfl
    · exact failAt
  | _ => exact failAt

theorem enumDeclaration : Follows n never (Metered.enumDeclaration (cx.plus k))
    (Parse.enumDeclaration cx) := by
  refine expectIdent.bindTaken fun ident => (plain Parse.walks_proceeds.enumBase).bind fun base => ?_
  refine build.bind fun enum => (plain (Parse.walks_proceeds.declare _ _ enum)).bind fun _ => ?_
  exact braced (loop (enumValue hb enum _ base) hb)

theorem field (table : NodeId) :
    Follows n id (Metered.field (cx.plus k) table) (Parse.field cx table) := by
  refine (attributes hb).bind fun _ => (plain Parse.walks_proceeds.nextIsIdent).bind fun named => ?_
  split
  · refine expectIdent.bindTaken fun ident => (typeExpression hb).weaken.bind fun type => ?_
    refine expectChar.bind fun _ => inspect.bind fun count => ?_
    split
    · exact failAt
    · refine buildUnique.bind fun node => attachComments.bind fun _ => ?_
      exact attachAttrs.bind fun _ => .pure rfl
  · exact .pure rfl

theorem tableDeclaration (isStruct : Bool) : Follows n never
    (Metered.tableDeclaration (cx.plus k) isStruct) (Parse.tableDeclaration cx isStruct) := by
  refine expectIdent.bindTaken fun ident => build.bind fun table => ?_
  refine (plain (Parse.walks_proceeds.declare _ _ table)).bind fun _ => ?_
  have hfields : Follows n never
      (Metered.loop (Metered.field (cx.plus k) table) (cx.plus k).budget)
      (Parse.repeatWhile (Parse.field cx table) cx.budget) := loop (field hb table) hb
  have hbody := braced hfields
  split
  · exact (plain (Parse.walks_proceeds.markStruct table _)).bind fun _ => hbody
  · exact hbody

theorem baseContract (contract : NodeId) : Follows n id (Metered.baseContract (cx.plus k) contract)
    (Parse.baseContract cx contract) :=
  (typeRef hb).bindTaken fun _ => inspect.bind fun _ => inspect.bind fun _ => buildUnique.bind fun _ =>
    attachComments.bind fun _ => matchChar

theorem slot (method : NodeId) (isResult : Bool) : Follows n id
    (Metered.slot (cx.plus k) method isResult) (Parse.slot cx method isResult) :=
  (attributes hb).bind fun _ => peek.bind fun _ => (typeExpression hb).bindTaken fun _ =>
    build.bind fun _ => attachAttrs.bind fun _ => attachComments.bind fun _ => matchChar

theorem slots (method : NodeId) (isResult : Bool) : Follows n never
    (Metered.slots (cx.plus k) method isResult) (Parse.slots cx method isResult) :=
  loop (slot hb method isResult) hb

theorem signature (method : NodeId) : Follows n never (Metered.signature (cx.plus k) method)
    (Parse.signature cx method) := by
  have hresults : Follows n never
      (do
        Metered.once (Parse.expectChar ')')
        let token ← Metered.once Parse.peek
        if token.kind == .arrow then
          Metered.once Parse.advance
          Metered.once (Parse.expectChar '(')
          Metered.slots (cx.plus k) method true
          Metered.once (Parse.expectChar ')')
        Metered.once (Parse.expectChar ';'))
      (do
        Parse.expectChar ')'
        let token ← Parse.peek
        if token.kind == .arrow then
          Parse.advance
          Parse.expectChar '('
          Parse.slots cx method true
          Parse.expectChar ')'
        Parse.expectChar ';') := by
    refine expectChar.bind fun _ => peek.bind fun token => ?_
    split
    · refine (plain Parse.walks_proceeds.advance).bind fun _ => expectChar.bind fun _ => ?_
      exact (slots hb method true).bind fun _ => expectChar.bind fun _ => expectChar
    · exact expectChar
  refine expectChar.bind fun _ => (plain (Parse.walks_proceeds.nextIs ')')).bind fun closed => ?_
  split
  · exact (slots hb method false).bind fun _ => hresults
  · exact hresults

theorem method (contract : NodeId) :
    Follows n id (Metered.method (cx.plus k) contract) (Parse.method cx contract) := by
  refine (attributes hb).bind fun _ => (plain Parse.walks_proceeds.nextIsIdent).bind fun named => ?_
  split
  · refine expectIdent.bindTaken fun ident => inspect.bind fun count => ?_
    split
    · exact failAt
    · refine buildUnique.bind fun node => attachAttrs.bind fun _ => attachComments.bind fun _ => ?_
      exact (signature hb node).bind fun _ => attachComments.bind fun _ => .pure rfl
  · exact .pure rfl

theorem contractDeclaration : Follows n never (Metered.contractDeclaration (cx.plus k))
    (Parse.contractDeclaration cx) := by
  refine expectIdent.bindTaken fun ident => build.bind fun contract => ?_
  refine (plain (Parse.walks_proceeds.declare _ _ contract)).bind fun _ => ?_
  refine matchChar.bind fun opened => ?_
  have hmethods : Follows n never
      (Metered.loop (Metered.method (cx.plus k) contract) (cx.plus k).budget)
      (Parse.repeatWhile (Parse.method cx contract) cx.budget) := loop (method hb contract) hb
  have hbody := braced hmethods
  split
  · exact (loop (baseContract hb contract) hb).bind fun _ => expectChar.bind fun _ => hbody
  · exact hbody

theorem declaration : Follows n id (Metered.declaration (cx.plus k)) (Parse.declaration cx) := by
  refine (attributes hb).bind fun _ => take (Nat.le_succ n) (fun ⟨kind, position⟩ => ?_)
    fun _ => .pure rfl
  cases kind with
  | eof => exact .pure rfl
  | keyword word =>
    cases word with
    | enum => exact (enumDeclaration hb).bind fun _ => .pure rfl
    | table => exact (tableDeclaration hb false).bind fun _ => .pure rfl
    | struct => exact (tableDeclaration hb true).bind fun _ => .pure rfl
    | contract => exact (contractDeclaration hb).bind fun _ => .pure rfl
    | _ => exact failAt
  | _ => exact failAt

/-! ## Scripts -/

theorem importStatement :
    Follows n id (Metered.importStatement (cx.plus k)) (Parse.importStatement cx) := by
  refine lookFor nofun (fun _ => matchChar.bind fun opened => ?_) rfl
  split
  · have hgrouped : Follows n id (Metered.once (Parse.groupedImport cx))
        (Parse.groupedImport cx) := once Parse.moves_groupedImport
    exact (loop hgrouped hb).bind fun _ => expectChar.bind fun _ => .pure rfl
  · exact (plain (Parse.walks_proceeds.importClause Parse.proceeds_importPackage)).bind fun _ =>
      .pure rfl

theorem script : Follows n never (Metered.script (cx.plus k)) (Parse.script cx) := by
  refine (loop (importStatement hb) hb).bind fun _ => ?_
  refine (plain (Parse.walks_proceeds.implicitImport Parse.proceeds_importPackage)).bind fun _ => ?_
  refine (loop (declaration hb) hb).bind fun _ => attachAttrs.bind fun _ => ?_
  exact plain (Parse.walks_proceeds.attachAllComments _)

end

end Follows

/-- A budget of more rounds than there are tokens is enough, and a larger one changes nothing. -/
theorem script_eq (cx : ReadingContext σ) {r : Reading σ} (h : r.feed.size < cx.budget) (k : Nat) :
    script (cx.plus k) r = some (outcome (Parse.script cx r)) :=
  (Follows.script (Nat.le_refl cx.budget)).ends r h

/-- Reading a script finishes, as it does with the budget that it has. -/
theorem finishes_readScript (importer : Importer σ) (node : NodeId) (source : Text.Source)
    (x : Arena × σ) :
    Finishes (fun budget => readScript budget importer node source x)
      (outcome (SchemaLang.readScript importer node source x)) := by
  obtain ⟨arena, host⟩ := x
  have htokens : ∀ {rounds : Nat}, (Lexer.ofSource (arena.scriptFile node) source).unread < rounds →
      Lexing.readAll rounds [] (.ofSource (arena.scriptFile node) source) =
        some (.ofSource (arena.scriptFile node) source) := Lexing.readAll_ofSource
  generalize (Lexer.ofSource (arena.scriptFile node) source).unread = bytes at htokens
  obtain ⟨feed, hfeed⟩ : ∃ feed, Feed.ofLexing (.ofSource (arena.scriptFile node) source) = feed :=
    ⟨_, rfl⟩
  -- one round more than there are bytes, and one more than there are tokens
  refine ⟨feed.size + 1 + (bytes + 1), fun budget hbudget => ?_⟩
  obtain ⟨spare, rfl⟩ : ∃ spare, budget = feed.size + 1 + spare :=
    Nat.exists_eq_add_of_le (Nat.le_trans (Nat.le_add_right ..) hbudget)
  have hscript := script_eq (r := ⟨feed, [], [], arena, host⟩)
    ⟨node, arena.scriptFile node, (arena.packageName? node).getD "", feed.size + 1, importer⟩
    (Nat.lt_succ_self feed.size) spare
  unfold readScript SchemaLang.readScript
  dsimp only
  rw [htokens (by omega), hfeed]
  show (script _ ⟨Feed.ofLexing (.ofSource (arena.scriptFile node) source), [], [], arena,
    host⟩).bind _ = _
  rw [ReadingContext.plus] at hscript
  rw [hfeed, hscript]
  cases Parse.script _ _ with
  | ok value reading => rfl
  | error failure reading => rfl

end Metered

namespace Parse

variable {σ : Type}

/-- Every round of a loop that is followed by another one has taken a token, and so has every type that
was read. -/
structure Advances (cx : ReadingContext σ) : Prop where
  importStatement : Progresses id (importStatement cx)
  groupedImport : Progresses id (groupedImport cx)
  declaration : Progresses id (declaration cx)
  attr : Progresses id (attr cx)
  enumValue (enum : NodeId) (name : String) (base : EnumBase) :
    Progresses id (enumValue cx enum name base)
  field (table : NodeId) : Progresses id (field cx table)
  method (contract : NodeId) : Progresses id (method cx contract)
  slot (method : NodeId) (isResult : Bool) : Progresses id (slot cx method isResult)
  baseContract (contract : NodeId) : Progresses id (baseContract cx contract)
  namedArgument (args : NodeId) : Progresses id (namedArgument cx args)
  positionalArgument (args : NodeId) : Progresses id (positionalArgument cx args)
  unionStep (value : NodeId) : Progresses Option.isSome (unionStep cx value)
  pathStep (path : List String) : Progresses Option.isSome (pathStep (σ := σ) path)
  type (fuel : Nat) : Progresses always (typeWithin cx fuel)

theorem advances (cx : ReadingContext σ) : Advances cx := by
  have hb : cx.budget ≤ cx.budget := Nat.le_refl _
  exact {
    importStatement := (Metered.Follows.importStatement (k := 0) hb).moves.progresses
    groupedImport := moves_groupedImport.progresses
    declaration := (Metered.Follows.declaration (k := 0) hb).moves.progresses
    attr := (Metered.Follows.attr (k := 0) hb).moves.progresses
    enumValue enum name base :=
      (Metered.Follows.enumValue (k := 0) hb enum name base).moves.progresses
    field table := (Metered.Follows.field (k := 0) hb table).moves.progresses
    method contract := (Metered.Follows.method (k := 0) hb contract).moves.progresses
    slot method isResult := (Metered.Follows.slot (k := 0) hb method isResult).moves.progresses
    baseContract contract := (Metered.Follows.baseContract (k := 0) hb contract).moves.progresses
    namedArgument args := (Metered.Follows.namedArgument (k := 0) hb args).moves.progresses
    positionalArgument args := (Metered.Follows.positionalArgument (k := 0) hb args).moves.progresses
    unionStep value := (Metered.Follows.unionStep (k := 0) hb value).moves.progresses
    pathStep path := (Metered.Follows.pathStep (n := 0) path).moves.progresses
    type fuel := (Metered.Follows.typeWithin (k := 0) fuel).moves.progresses }

end Parse

/-- Reading always gets on. A scan that gives a token before the end of the file takes a byte of it, so
that taking all tokens of a file is not cut off after one round more than there are bytes, and gives no
more tokens than that. Whatever imports are answered with, a round of a loop that is followed by another
one has taken a token, and so has a type that was read. So reading a script finishes: with enough rounds,
however many there are, no loop of it and no way down a type is cut off. -/
theorem reading_progresses :
    (∀ (lexer lexer' : Lexer) (token : Token), lexer.scan = (.ok token, lexer') →
      token.kind ≠ .eof → lexer'.unread < lexer.unread) ∧
    (∀ (file : String) (bytes : ByteArray),
      (Lexer.ofSource file (.ofBytes bytes)).unread ≤ bytes.size ∧
      (∀ rounds, bytes.size < rounds → Lexing.readAll rounds [] (.ofSource file (.ofBytes bytes)) =
        some (Lexing.ofSource file (.ofBytes bytes))) ∧
      (Lexing.ofSource file (.ofBytes bytes)).tokens.length ≤ bytes.size + 1) ∧
    ∀ {σ : Type}, (∀ cx : ReadingContext σ, Parse.Advances cx) ∧
      ∀ (importer : Importer σ) (script : NodeId) (source : Text.Source) (x : Arena × σ),
        Finishes (fun budget => Metered.readScript budget importer script source x)
          (outcome (readScript importer script source x)) :=
  ⟨fun _ _ _ h hne => Lexer.unread_scan_lt h hne,
    fun file bytes => ⟨Lexer.unread_ofBytes_le file bytes, fun _ => Lexing.readAll_ofBytes,
      Lexing.length_tokens_ofBytes_le file bytes⟩,
    Parse.advances, Metered.finishes_readScript⟩

/-- A quote that is not closed comes behind one token, which takes a byte. Reading the script finishes. -/
theorem reading_progresses_broken :
    (∃ token lexer', (Lexer.ofSource "a" brokenSource).scan = (.ok token, lexer') ∧
      token.kind ≠ .eof ∧ lexer'.unread < (Lexer.ofSource "a" brokenSource).unread) ∧
    ∃ result, Finishes
      (fun budget => Metered.readScript budget (fun _ _ => pure 0) 0 brokenSource (Arena.empty, ()))
      result := by
  have hscan : (Lexer.ofSource "a" brokenSource).scan = (.ok ⟨.char '@', ⟨"a", 1, 1⟩⟩,
      ⟨"a", ['"'], true, ⟨1, 2⟩, none⟩) := rfl
  exact ⟨⟨_, _, hscan, nofun, reading_progresses.1 _ _ _ hscan nofun⟩, _,
    reading_progresses.2.2.2 _ _ _ _⟩

end SchemaLang
