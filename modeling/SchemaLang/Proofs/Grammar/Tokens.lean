import SchemaLang.Grammar.Script
import SchemaLang.Proofs.Step

/-!
# Steps that only look at tokens

Most steps of a reading take tokens and fail or go on. Such a step is quiet: it changes the feed and
the comments that wait, and nothing else, whether it fails or not.
-/

namespace SchemaLang.Parse

variable {σ α β : Type}

/-- The reading with another feed and other comments. -/
def retake (r : Reading σ) (feed : Feed) (comments : List Comment) : Reading σ :=
  { r with feed := feed, comments := comments }

@[simp] theorem retake_arena (r : Reading σ) (feed : Feed) (comments : List Comment) :
    (retake r feed comments).arena = r.arena := rfl

@[simp] theorem retake_attrs (r : Reading σ) (feed : Feed) (comments : List Comment) :
    (retake r feed comments).attrs = r.attrs := rfl

@[simp] theorem retake_host (r : Reading σ) (feed : Feed) (comments : List Comment) :
    (retake r feed comments).host = r.host := rfl

/-- The step changes the feed and the waiting comments only. -/
def Quiet (m : Parse σ α) : Prop :=
  ∀ r, ∃ feed comments, (∃ x, m r = .ok x (retake r feed comments)) ∨
    ∃ e, m r = .error e (retake r feed comments)

theorem Quiet.pure (x : α) : Quiet (Pure.pure x : Parse σ α) :=
  fun r => ⟨r.feed, r.comments, Or.inl ⟨x, rfl⟩⟩

theorem Quiet.bind {m : Parse σ α} {f : α → Parse σ β} (h : Quiet m) (hf : ∀ x, Quiet (f x)) :
    Quiet (m >>= f) := by
  intro r
  obtain ⟨feed, comments, ⟨x, hx⟩ | ⟨e, he⟩⟩ := h r
  · obtain ⟨feed', comments', hr⟩ := hf x (retake r feed comments)
    refine ⟨feed', comments', ?_⟩
    rw [bind_ok hx]
    exact hr
  · exact ⟨feed, comments, Or.inr ⟨e, bind_error he⟩⟩

theorem quiet_failAt (position : Position) (cause : Cause) :
    Quiet (failAt position cause : Parse σ α) :=
  fun r => ⟨r.feed, r.comments, Or.inr ⟨_, rfl⟩⟩

theorem quiet_unexpected (token : Token) (expected : String) :
    Quiet (unexpected token expected : Parse σ α) :=
  quiet_failAt _ _

theorem quiet_inspect (query : Arena → α) : Quiet (inspect query : Parse σ α) :=
  fun r => ⟨r.feed, r.comments, Or.inl ⟨_, rfl⟩⟩

theorem quiet_peek : Quiet (peek : Parse σ Token) := by
  rintro ⟨feed, comments, attrs, arena, host⟩
  unfold peek
  cases feed with
  | more leading token rest =>
    cases leading with
    | nil => exact ⟨_, _, Or.inl ⟨_, rfl⟩⟩
    | cons comment others => exact ⟨_, _, Or.inl ⟨_, rfl⟩⟩
  | done leading position => exact ⟨_, _, Or.inl ⟨_, rfl⟩⟩
  | broken failure => exact ⟨_, _, Or.inr ⟨_, rfl⟩⟩

theorem quiet_advance : Quiet (advance : Parse σ Unit) := by
  rintro ⟨feed, comments, attrs, arena, host⟩
  cases feed <;> exact ⟨_, _, Or.inl ⟨_, rfl⟩⟩

theorem quiet_next : Quiet (next : Parse σ Token) :=
  quiet_peek.bind fun _ => quiet_advance.bind fun _ => .pure _

theorem quiet_nextIs (c : Char) : Quiet (nextIs c : Parse σ Bool) :=
  quiet_peek.bind fun _ => .pure _

theorem quiet_matchChar (c : Char) : Quiet (matchChar c : Parse σ Bool) := by
  refine (quiet_nextIs c).bind fun found => ?_
  split
  · exact quiet_advance.bind fun _ => .pure _
  · exact .pure _

theorem quiet_expectChar (c : Char) : Quiet (expectChar c : Parse σ Unit) := by
  refine quiet_next.bind fun token => ?_
  split
  · exact .pure _
  · exact quiet_unexpected _ _

theorem quiet_expectIdent (what : String) :
    Quiet (expectIdent what : Parse σ (String × Position)) := by
  refine quiet_next.bind fun token => ?_
  split
  · exact .pure _
  · exact quiet_unexpected _ _

theorem quiet_expectString (what : String) :
    Quiet (expectString what : Parse σ (String × Position)) := by
  refine quiet_next.bind fun token => ?_
  split
  · exact .pure _
  · exact quiet_unexpected _ _

theorem quiet_nextIsIdent : Quiet (nextIsIdent : Parse σ Bool) := by
  refine quiet_peek.bind fun token => ?_
  split
  · exact .pure _
  · exact .pure _

theorem quiet_pathTail : ∀ (fuel : Nat) (path : List String),
    Quiet (pathTail fuel path : Parse σ (List String))
  | 0, path => .pure path
  | fuel + 1, path => by
    refine (quiet_matchChar '.').bind fun found => ?_
    split
    · exact (quiet_expectIdent _).bind fun name => quiet_pathTail fuel _
    · exact .pure _

theorem quiet_enumBase : Quiet (enumBase : Parse σ EnumBase) := by
  refine (quiet_matchChar '(').bind fun found => ?_
  split
  · refine quiet_next.bind fun token => ?_
    dsimp only
    split
    · exact (quiet_expectChar ')').bind fun _ => .pure _
    · exact quiet_unexpected _ _
  · exact .pure _

end SchemaLang.Parse
