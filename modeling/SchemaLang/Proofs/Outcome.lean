import Mathlib.Data.List.Chain
import Mathlib.Data.List.Nodup
import SchemaLang.Proofs.Step

/-!
# How a step ends

`Leads` says what a step keeps, however it ends. Here the two ends are told apart: `Ends m s Q E` says
that `Q` holds where the step `m` succeeds from `s`, and `E` where it fails. So `E` can say what a
failure reports, and where it comes from.

A run that is given a number of rounds may be cut off. It comes to an end if enough of them are enough for
good (`Finishes`).

A failure that reports a chain of things that wait for one another takes it from a list of these, from
the first place where the thing that closes the chain waits (`closes_of_waiting`).
-/

namespace SchemaLang

variable {ε σ α β : Type} {m : EStateM ε σ α} {f : α → EStateM ε σ β} {s s' : σ}

/-! ## Both ends of a step -/

/-- From `s` the step succeeds with `Q`, or fails with `E`. -/
def Ends (m : EStateM ε σ α) (s : σ) (Q : α → σ → Prop) (E : ε → σ → Prop) : Prop :=
  match m s with
  | .ok x s' => Q x s'
  | .error e s' => E e s'

namespace Ends

variable {P Q Q' : α → σ → Prop} {E E' : ε → σ → Prop}

theorem of_ok {x : α} (h : m s = .ok x s') (hq : Q x s') : Ends m s Q E := by
  unfold Ends
  rw [h]
  exact hq

theorem of_error {e : ε} (h : m s = .error e s') (he : E e s') : Ends m s Q E := by
  unfold Ends
  rw [h]
  exact he

theorem ok {x : α} (h : Ends m s Q E) (hm : m s = .ok x s') : Q x s' := by
  unfold Ends at h
  rwa [hm] at h

theorem error {e : ε} (h : Ends m s Q E) (hm : m s = .error e s') : E e s' := by
  unfold Ends at h
  rwa [hm] at h

theorem pure {x : α} (h : Q x s) : Ends (Pure.pure x : EStateM ε σ α) s Q E :=
  h

theorem throw {e : ε} (h : E e s) : Ends (MonadExcept.throw e : EStateM ε σ α) s Q E :=
  h

theorem mono (h : Ends m s Q E) (hq : ∀ x s', Q x s' → Q' x s') (he : ∀ e s', E e s' → E' e s') :
    Ends m s Q' E' := by
  unfold Ends at *
  split
  · rename_i hm
    rw [hm] at h
    exact hq _ _ h
  · rename_i hm
    rw [hm] at h
    exact he _ _ h

theorem bind {Q : β → σ → Prop} (h : Ends m s P E)
    (hf : ∀ x s', P x s' → Ends (f x) s' Q E) : Ends (m >>= f) s Q E := by
  unfold Ends
  cases hm : m s with
  | ok x s₁ =>
    rw [bind_ok hm]
    exact hf x s₁ (h.ok hm)
  | error e s₁ =>
    rw [bind_error hm]
    exact h.error hm

/-- A loop. The invariant may speak of the elements that are left. -/
theorem forM {f : α → EStateM ε σ PUnit} {I : List α → σ → Prop}
    (hf : ∀ x rest s, I (x :: rest) s → Ends (f x) s (fun _ s' => I rest s') E) :
    ∀ (xs : List α) (s : σ), I xs s → Ends (xs.forM f) s (fun _ s' => I [] s') E
  | [], s, h => pure h
  | x :: rest, s, h => by
    show Ends (f x >>= fun _ => rest.forM f) s _ _
    exact (hf x rest s h).bind fun _ s' h' => forM hf rest s' h'

end Ends

theorem except_bind_eq_error {x : Except ε α} {f : α → Except ε β} {e : ε} :
    (x >>= f) = .error e ↔ x = .error e ∨ ∃ y, x = .ok y ∧ f y = .error e := by
  cases x with
  | error e' => exact ⟨fun h => by cases h; exact Or.inl rfl, fun h => by
      rcases h with h | ⟨_, h, -⟩
      · cases h
        rfl
      · cases h⟩
  | ok y => exact ⟨fun h => Or.inr ⟨y, rfl, h⟩, fun h => by
      rcases h with h | ⟨_, h, h'⟩
      · cases h
      · cases h
        exact h'⟩

/-! ## Runs that may be cut off -/

/-- A run is `none` where it is cut off after the rounds that it is given. With enough of them, however
many there are, it gives `x`. -/
def Finishes (run : Nat → Option α) (x : α) : Prop :=
  ∃ enough, ∀ rounds, enough ≤ rounds → run rounds = some x

/-! ## Chains that close -/

/-- Each element is related to the next one, the last element is the first one again, and no other
element comes twice. -/
def Closes {α : Type} (r : α → α → Prop) (chain : List α) : Prop :=
  ∃ first between, chain = first :: (between ++ [first]) ∧ (first :: between).Nodup ∧
    chain.IsChain r

/-- Every element of a closed chain leads back to itself. -/
theorem Closes.transGen {α : Type} {r : α → α → Prop} {chain : List α} (h : Closes r chain) {x : α}
    (hx : x ∈ chain) : Relation.TransGen r x x := by
  obtain ⟨first, between, rfl, -, hlinks⟩ := h
  -- the way from the first element to any other one, and from there to the last
  have hfrom : ∀ (y : α) (rest : List α), (y :: rest).IsChain r →
      ∀ z ∈ y :: rest, Relation.ReflTransGen r y z := by
    intro y rest
    induction rest generalizing y with
    | nil =>
      intro _ z hz
      rw [List.mem_singleton.1 hz]
    | cons next rest ih =>
      intro hchain z hz
      rw [List.isChain_cons_cons] at hchain
      rcases List.mem_cons.1 hz with rfl | hz
      · exact .refl
      · exact .head hchain.1 (ih next hchain.2 z hz)
  have hto : ∀ (rest : List α) (z : α), (rest ++ [first]).IsChain r → z ∈ rest →
      Relation.TransGen r z first := by
    intro rest z hchain hz
    obtain ⟨before, after, rfl⟩ := List.append_of_mem hz
    have hafter : (z :: (after ++ [first])).IsChain r := by
      rw [List.append_assoc] at hchain
      exact hchain.right_of_append
    cases after with
    | nil => exact .single (List.isChain_cons_cons.1 hafter).1
    | cons next after =>
      obtain ⟨hnext, hrest⟩ := List.isChain_cons_cons.1 hafter
      exact .head' hnext (hfrom next _ hrest first (by simp))
  have hcycle : Relation.TransGen r first first := hto (first :: between) first hlinks (by simp)
  rcases List.mem_cons.1 hx with rfl | hx'
  · exact hcycle
  rcases List.mem_append.1 hx' with hm | hm
  · exact (hto (first :: between) x hlinks (List.mem_cons_of_mem _ hm)).trans_left
      (hfrom first _ hlinks x hx)
  · rw [List.mem_singleton.1 hm]
    exact hcycle

/-- A closed chain, seen through a function that tells its elements apart. -/
theorem Closes.map {α β : Type} {r : α → α → Prop} {r' : β → β → Prop} {chain : List α} (f : α → β)
    (h : Closes r chain) (hf : ∀ x ∈ chain, ∀ y ∈ chain, f x = f y → x = y)
    (hr : ∀ x y, r x y → r' (f x) (f y)) : Closes r' (chain.map f) := by
  obtain ⟨first, between, rfl, hnodup, hlinks⟩ := h
  refine ⟨f first, between.map f, by simp, ?_, ?_⟩
  · rw [← List.map_cons]
    refine hnodup.map_on fun x hx y hy => hf x ?_ y ?_
    · rw [← List.cons_append]
      exact List.mem_append_left _ hx
    · rw [← List.cons_append]
      exact List.mem_append_left _ hy
  · rw [List.isChain_map]
    exact hlinks.imp hr

/-- No cycle is reached from where all chains come to an end. -/
theorem not_transGen_of_acc {α : Type} {r : α → α → Prop} {x : α}
    (h : Acc (fun y x => r x y) x) : ∀ y, Relation.ReflTransGen r x y → ¬ Relation.TransGen r y y := by
  induction h with
  | intro x _ ih =>
    intro y hxy hcycle
    rcases hxy.cases_head with rfl | ⟨z, hxz, hzy⟩
    · obtain ⟨z, hxz, hzx⟩ := Relation.TransGen.head'_iff.1 hcycle
      exact ih z hxz z .refl (Relation.TransGen.tail' hzx hxz)
    · exact ih z hxz y hzy hcycle

variable [BEq α] [LawfulBEq α]

theorem dropWhile_eq_cons {x : α} {waiting : List α} (h : x ∈ waiting) :
    ∃ rest, waiting.dropWhile (· != x) = x :: rest := by
  induction waiting with
  | nil => cases h
  | cons y waiting ih =>
    by_cases hyx : y = x
    · subst hyx
      exact ⟨waiting, by simp⟩
    · have hmem : x ∈ waiting := (List.mem_cons.1 h).resolve_left fun e => hyx e.symm
      rw [List.dropWhile_cons_of_pos (by simpa using hyx)]
      exact ih hmem

/-- The chain that `x` closes when it comes upon itself among those that wait for it. -/
theorem closes_of_waiting {r : α → α → Prop} {x : α} {waiting : List α} (hmem : x ∈ waiting)
    (hnodup : waiting.Nodup) (hchain : (waiting ++ [x]).IsChain r) :
    Closes r (waiting.dropWhile (· != x) ++ [x]) := by
  obtain ⟨rest, hrest⟩ := dropWhile_eq_cons hmem
  have hsuffix := List.dropWhile_suffix (l := waiting) (· != x)
  refine ⟨x, rest, by rw [hrest]; rfl, ?_, ?_⟩
  · rw [← hrest]
    exact hnodup.sublist hsuffix.sublist
  · obtain ⟨before, hbefore⟩ := hsuffix
    have hall : (before ++ (waiting.dropWhile (· != x) ++ [x])).IsChain r := by
      rwa [← List.append_assoc, hbefore]
    exact hall.right_of_append

end SchemaLang
