import Mathlib.Order.Defs.Unbundled

/-!
# Steps that change a state and may fail

Reading, linking and compiling are steps that keep what they have changed when they fail. What such
a step does is said by `Leads R m s Q`: run from `s`, the step `m` ends in a state that is related to
`s` by `R`, whether it fails or not, and when it succeeds its value and its state satisfy `Q`.

The relation composes along a run as soon as it is reflexive and transitive, so that it can carry
what holds of every step (which nodes stay as they are), while `Q` carries what the next step needs.

* `Leads.follow`: a step that goes on as another one.
* `Leads.bind`: one step after another.
* `Leads.forM`: a loop whose state satisfies an invariant.
* `Agrees`: two steps that do the same from a state.
-/

namespace SchemaLang

variable {ε σ α β : Type} {R : σ → σ → Prop} {m : EStateM ε σ α} {f : α → EStateM ε σ β}
  {s s' : σ}

/-! ## Running a step -/

theorem bind_ok {x : α} (h : m s = .ok x s') : (m >>= f) s = f x s' := by
  show EStateM.bind m f s = _
  unfold EStateM.bind
  rw [h]

theorem bind_error {e : ε} (h : m s = .error e s') : (m >>= f) s = .error e s' := by
  show EStateM.bind m f s = _
  unfold EStateM.bind
  rw [h]

/-- What the steps of a run that succeeds do. -/
theorem of_bind_ok {y : β} {s'' : σ} (h : (m >>= f) s = .ok y s'') :
    ∃ x s', m s = .ok x s' ∧ f x s' = .ok y s'' := by
  cases hm : m s with
  | ok x s' => exact ⟨x, s', rfl, (bind_ok hm).symm.trans h⟩
  | error e s' =>
    rw [bind_error hm] at h
    cases h

/-- Which step of a run fails. -/
theorem of_bind_error {e : ε} {s'' : σ} (h : (m >>= f) s = .error e s'') :
    m s = .error e s'' ∨ ∃ x s', m s = .ok x s' ∧ f x s' = .error e s'' := by
  cases hm : m s with
  | ok x s' => exact Or.inr ⟨x, s', rfl, (bind_ok hm).symm.trans h⟩
  | error e' s' =>
    rw [bind_error hm] at h
    cases h
    exact Or.inl rfl

theorem except_bind_eq_ok {x : Except ε α} {f : α → Except ε β} {y : β} :
    (x >>= f) = .ok y ↔ ∃ z, x = .ok z ∧ f z = .ok y := by
  cases x with
  | error e => exact ⟨nofun, fun ⟨_, h, _⟩ => nomatch h⟩
  | ok z => exact ⟨fun h => ⟨z, rfl, h⟩, fun ⟨_, h, h'⟩ => by cases h; exact h'⟩

theorem forM_cons_ok {f : α → EStateM ε σ PUnit} {x : α} (rest : List α)
    (h : f x s = .ok ⟨⟩ s') : (x :: rest).forM f s = rest.forM f s' := by
  show (f x >>= fun _ => rest.forM f) s = _
  exact bind_ok h

theorem forM_cons_error {f : α → EStateM ε σ PUnit} {x : α} {e : ε} (rest : List α)
    (h : f x s = .error e s') : (x :: rest).forM f s = .error e s' := by
  show (f x >>= fun _ => rest.forM f) s = _
  exact bind_error h

/-- A loop whose steps succeed. The invariant may speak of the elements that are left. -/
theorem forM_ok {f : α → EStateM ε σ PUnit} {I : List α → σ → Prop}
    (hf : ∀ x rest s, I (x :: rest) s → ∃ s', f x s = .ok ⟨⟩ s' ∧ I rest s') :
    ∀ (xs : List α) (s : σ), I xs s → ∃ s', xs.forM f s = .ok ⟨⟩ s' ∧ I [] s'
  | [], s, h => ⟨s, rfl, h⟩
  | x :: rest, s, h => by
    obtain ⟨s', hs', h'⟩ := hf x rest s h
    rw [forM_cons_ok rest hs']
    exact forM_ok hf rest s' h'

/-! ## What a step leads to -/

/-- From `s` the step ends in a state related to `s`, and where it succeeds `Q` holds. -/
def Leads (R : σ → σ → Prop) (m : EStateM ε σ α) (s : σ) (Q : α → σ → Prop) : Prop :=
  match m s with
  | .ok x s' => R s s' ∧ Q x s'
  | .error _ s' => R s s'

namespace Leads

variable {Q Q' : α → σ → Prop}

theorem of_ok {x : α} (h : m s = .ok x s') (hr : R s s') (hq : Q x s') : Leads R m s Q := by
  unfold Leads
  rw [h]
  exact ⟨hr, hq⟩

theorem of_error {e : ε} (h : m s = .error e s') (hr : R s s') : Leads R m s Q := by
  unfold Leads
  rw [h]
  exact hr

theorem ok {x : α} (h : Leads R m s Q) (hm : m s = .ok x s') : R s s' ∧ Q x s' := by
  unfold Leads at h
  rwa [hm] at h

theorem error {e : ε} (h : Leads R m s Q) (hm : m s = .error e s') : R s s' := by
  unfold Leads at h
  rwa [hm] at h

theorem weaken {R' : σ → σ → Prop} (h : Leads R m s Q) (hr : ∀ s', R s s' → R' s s') :
    Leads R' m s Q := by
  unfold Leads at *
  split
  · rename_i hm
    rw [hm] at h
    exact ⟨hr _ h.1, h.2⟩
  · rename_i hm
    rw [hm] at h
    exact hr _ h

theorem mono (h : Leads R m s Q) (hq : ∀ x s', R s s' → Q x s' → Q' x s') : Leads R m s Q' := by
  unfold Leads at *
  split
  · rename_i hm
    rw [hm] at h
    exact ⟨h.1, hq _ _ h.1 h.2⟩
  · rename_i hm
    rw [hm] at h
    exact h

/-- What two relations carry along the same step. -/
theorem both {R' : σ → σ → Prop} (h : Leads R m s Q) (h' : Leads R' m s Q') :
    Leads R' m s fun x s' => Q x s' ∧ Q' x s' := by
  cases hm : m s with
  | ok x s' =>
    obtain ⟨hr', hq'⟩ := h'.ok hm
    exact of_ok hm hr' ⟨(h.ok hm).2, hq'⟩
  | error e s' => exact of_error hm (h'.error hm)

section

variable [IsPreorder σ R]

theorem pure {x : α} (h : Q x s) : Leads R (Pure.pure x : EStateM ε σ α) s Q :=
  ⟨refl s, h⟩

theorem throw {e : ε} : Leads R (MonadExcept.throw e : EStateM ε σ α) s Q :=
  refl (r := R) s

/-- A step that goes on as another step does from another state. -/
theorem follow {m' : EStateM ε σ α} (h : m s = m' s') (hr : R s s') (hm : Leads R m' s' Q) :
    Leads R m s Q := by
  unfold Leads at *
  rw [h]
  split
  · rename_i heq
    rw [heq] at hm
    exact ⟨trans_of R hr hm.1, hm.2⟩
  · rename_i heq
    rw [heq] at hm
    exact trans_of R hr hm

theorem bind {P : α → σ → Prop} {Q : β → σ → Prop} (h : Leads R m s P)
    (hf : ∀ x s', R s s' → P x s' → Leads R (f x) s' Q) : Leads R (m >>= f) s Q := by
  cases hm : m s with
  | ok x s₁ =>
    obtain ⟨hr, hp⟩ := h.ok hm
    exact follow (bind_ok hm) hr (hf x s₁ hr hp)
  | error e s₁ => exact of_error (bind_error hm) (h.error hm)

/-- A loop. The invariant may speak of the elements that are left. -/
theorem forM {f : α → EStateM ε σ PUnit} {I : List α → σ → Prop}
    (hf : ∀ x rest s, I (x :: rest) s → Leads R (f x) s fun _ s' => I rest s') :
    ∀ (xs : List α) (s : σ), I xs s → Leads R (xs.forM f) s fun _ s' => I [] s'
  | [], s, h => pure h
  | x :: rest, s, h => by
    show Leads R (f x >>= fun _ => rest.forM f) s _
    exact (hf x rest s h).bind fun _ s' _ h' => forM hf rest s' h'

end

end Leads

/-! ## Steps that do the same -/

/-- From `s` the steps do the same, and where they succeed `Q` holds. -/
def Agrees (m m' : EStateM ε σ α) (s : σ) (Q : α → σ → Prop) : Prop :=
  m s = m' s ∧ ∀ x s', m' s = .ok x s' → Q x s'

namespace Agrees

variable {m' : EStateM ε σ α} {f' : α → EStateM ε σ β} {P Q : α → σ → Prop}

theorem same (h : ∀ x s', m s = .ok x s' → Q x s') : Agrees m m s Q :=
  ⟨rfl, h⟩

theorem mono (h : Agrees m m' s P) (hq : ∀ x s', P x s' → Q x s') : Agrees m m' s Q :=
  ⟨h.1, fun x s' hm => hq x s' (h.2 x s' hm)⟩

theorem bind {Q : β → σ → Prop} (h : Agrees m m' s P)
    (hf : ∀ x s', P x s' → Agrees (f x) (f' x) s' Q) : Agrees (m >>= f) (m' >>= f') s Q := by
  obtain ⟨hrun, hp⟩ := h
  cases hm : m' s with
  | ok x s' =>
    obtain ⟨hrun', hq⟩ := hf x s' (hp x s' hm)
    refine ⟨?_, fun y s'' hy => hq y s'' ?_⟩
    · rw [bind_ok (hrun.trans hm), bind_ok hm, hrun']
    · rwa [bind_ok hm] at hy
  | error e s' =>
    refine ⟨?_, fun y s'' hy => ?_⟩
    · rw [bind_error (hrun.trans hm), bind_error hm]
    · rw [bind_error hm] at hy
      cases hy

theorem forM {f f' : α → EStateM ε σ PUnit} {I : List α → σ → Prop}
    (hf : ∀ x rest s, I (x :: rest) s → Agrees (f x) (f' x) s fun _ s' => I rest s') :
    ∀ (xs : List α) (s : σ), I xs s → Agrees (xs.forM f) (xs.forM f') s fun _ s' => I [] s'
  | [], s, h => same fun _ _ hs => by cases hs; exact h
  | x :: rest, s, h => by
    show Agrees (f x >>= fun _ => rest.forM f) (f' x >>= fun _ => rest.forM f') s _
    exact (hf x rest s h).bind fun _ s' h' => forM hf rest s' h'

end Agrees

end SchemaLang
