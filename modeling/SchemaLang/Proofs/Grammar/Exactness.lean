import SchemaLang.Proofs.Grammar.Tokens
import SchemaLang.Proofs.Grammar.Trees

/-!
# Reading exactly what is written

What a part of a reading accepts is said against the items that it may read: `Parse.Reads` relates a
step to the tokens `T i` of the items `i`. When the step succeeds, it has taken the tokens of one
item and left the rest; and when the tokens at hand are those of an item and something follows that
cannot go on with it, the step succeeds, takes them and leaves the rest. Both directions compose, so
that one derivation for each rule of the grammar gives both.

* `Feed.Spells`: the kinds of the tokens of a feed.
* `Reads.bind`, `Reads.prepend`: one part after another, and a part after some tokens.
* `Reads.repeatWhile`: a loop. Every round but the last takes a token, so its fuel suffices.
-/

namespace SchemaLang

/-! ## What a feed spells -/

/-- The kinds of the tokens of a feed, of which the end of the file is the last. A feed that breaks
off has none after its failure. -/
inductive Feed.Spells : Feed → List TokenKind → Prop where
  | done {leading : List Comment} {position : Position} : Spells (.done leading position) [.eof]
  | broken {failure : Diagnostic} : Spells (.broken failure) []
  | more {leading : List Comment} {token : Token} {rest : Feed} {kind : TokenKind}
      {kinds : List TokenKind} (kind_eq : token.kind = kind) (kind_ne : kind ≠ .eof)
      (spells : Spells rest kinds) : Spells (.more leading token rest) (kind :: kinds)

/-- The number of tokens before the end of the file. -/
def TokenKind.count (kinds : List TokenKind) : Nat :=
  kinds.countP (· ≠ .eof)

theorem TokenKind.count_append (xs ys : List TokenKind) :
    count (xs ++ ys) = count xs + count ys :=
  List.countP_append

theorem TokenKind.count_cons {kind : TokenKind} (h : kind ≠ .eof) (kinds : List TokenKind) :
    count (kind :: kinds) = count kinds + 1 := by
  simp [count, h]

theorem TokenKind.count_pos {kind : TokenKind} {kinds : List TokenKind} (h : kind ∈ kinds)
    (hne : kind ≠ .eof) : 0 < count kinds :=
  List.countP_pos_iff.2 ⟨kind, h, by simpa using hne⟩

namespace Feed.Spells

variable {feed : Feed} {kinds kinds' : List TokenKind}

theorem eq (h : feed.Spells kinds) (h' : feed.Spells kinds') : kinds = kinds' := by
  induction h generalizing kinds' with
  | done => cases h'; rfl
  | broken => cases h'; rfl
  | more hkind _ _ ih =>
    cases h' with
    | more hkind' _ h' => rw [ih h', ← hkind, ← hkind']

theorem of_eof (h : feed.Spells (.eof :: kinds)) : kinds = [] := by
  cases h with
  | done => rfl
  | more _ hne _ => exact absurd rfl hne

theorem size_eq (h : feed.Spells kinds) : feed.size = TokenKind.count kinds := by
  have onto : ∀ n, feed.sizeOnto n = n + TokenKind.count kinds := by
    induction h with
    | done => intro n; rfl
    | broken => intro n; rfl
    | more _ hne _ ih =>
      intro n
      rw [sizeOnto, ih, TokenKind.count_cons hne]
      omega
  rw [size, onto, Nat.zero_add]

end Feed.Spells

namespace Parse

variable {σ α β I J : Type}

/-! ## One token -/

variable {r r₁ : Reading σ} {ks rest : List TokenKind} {k : TokenKind}

theorem peek_of_spells (h : r.feed.Spells (k :: ks)) : ∃ token feed comments,
    peek r = .ok token (retake r feed comments) ∧ token.kind = k ∧ feed.Spells (k :: ks) := by
  obtain ⟨feed, comments, attrs, arena, host⟩ := r
  cases h with
  | done => exact ⟨⟨.eof, _⟩, _, _, rfl, rfl, .done⟩
  | @more leading token rest _ _ hkind hne hr =>
    cases leading with
    | nil => exact ⟨token, _, _, rfl, hkind, .more hkind hne hr⟩
    | cons comment others => exact ⟨token, _, _, rfl, hkind, .more hkind hne hr⟩

theorem peek_of_spells_nil (h : r.feed.Spells []) : ∃ e r', (peek : Parse σ Token) r = .error e r' := by
  obtain ⟨feed, comments, attrs, arena, host⟩ := r
  cases h with
  | broken => exact ⟨_, _, rfl⟩

theorem advance_of_spells (h : r.feed.Spells (k :: ks)) (hk : k ≠ .eof) :
    ∃ feed, advance r = .ok () (retake r feed r.comments) ∧ feed.Spells ks := by
  obtain ⟨feed, comments, attrs, arena, host⟩ := r
  cases h with
  | done => exact absurd rfl hk
  | more _ hne hr => exact ⟨_, rfl, hr⟩

theorem advance_of_spells_eof (h : r.feed.Spells (.eof :: ks)) : advance r = .ok () r := by
  obtain ⟨feed, comments, attrs, arena, host⟩ := r
  cases h with
  | done => rfl
  | more _ hne _ => exact absurd rfl hne

theorem next_of_spells (h : r.feed.Spells (k :: ks)) (hk : k ≠ .eof) : ∃ token feed comments,
    next r = .ok token (retake r feed comments) ∧ token.kind = k ∧ feed.Spells ks := by
  obtain ⟨token, feed, comments, hpeek, hkind, hs⟩ := peek_of_spells h
  obtain ⟨feed', hadvance, hs'⟩ := advance_of_spells (r := retake r feed comments) hs hk
  exact ⟨token, feed', comments, (bind_ok hpeek).trans (bind_ok hadvance), hkind, hs'⟩

theorem next_of_spells_eof (h : r.feed.Spells (.eof :: ks)) : ∃ token feed comments,
    next r = .ok token (retake r feed comments) ∧ token.kind = .eof ∧ feed.Spells [.eof] := by
  obtain ⟨token, feed, comments, hpeek, hkind, hs⟩ := peek_of_spells h
  have hadvance := advance_of_spells_eof (r := retake r feed comments) hs
  rw [hs.of_eof] at hs
  exact ⟨token, feed, comments, (bind_ok hpeek).trans (bind_ok hadvance), hkind, hs⟩

theorem next_of_spells_nil (h : r.feed.Spells []) : ∃ e r', (next : Parse σ Token) r = .error e r' := by
  obtain ⟨e, r', hpeek⟩ := peek_of_spells_nil h
  exact ⟨e, r', bind_error hpeek⟩

theorem expectString_of_spells {value : String} (what : String)
    (h : r.feed.Spells (.string value :: ks)) : ∃ position feed comments,
    expectString what r = .ok (value, position) (retake r feed comments) ∧ feed.Spells ks := by
  obtain ⟨⟨kind, position⟩, feed, comments, hnext, rfl, hs⟩ :=
    next_of_spells h TokenKind.noConfusion
  exact ⟨position, feed, comments, bind_ok hnext, hs⟩

theorem nextIs_of_spells (c : Char) (h : r.feed.Spells (k :: ks)) : ∃ feed comments,
    nextIs c r = .ok (k == .char c) (retake r feed comments) ∧ feed.Spells (k :: ks) := by
  obtain ⟨token, feed, comments, hpeek, rfl, hs⟩ := peek_of_spells h
  exact ⟨feed, comments, bind_ok hpeek, hs⟩

theorem matchChar_of_spells {c : Char} (h : r.feed.Spells (.char c :: ks)) : ∃ feed comments,
    matchChar c r = .ok true (retake r feed comments) ∧ feed.Spells ks := by
  obtain ⟨feed, comments, hnext, hs⟩ := nextIs_of_spells c h
  rw [beq_self_eq_true] at hnext
  obtain ⟨feed', hadvance, hs'⟩ :=
    advance_of_spells (r := retake r feed comments) hs TokenKind.noConfusion
  exact ⟨feed', comments, (bind_ok hnext).trans (bind_ok hadvance), hs'⟩

theorem matchChar_of_ne {c : Char} (h : r.feed.Spells (k :: ks)) (hk : k ≠ .char c) :
    ∃ feed comments, matchChar c r = .ok false (retake r feed comments) ∧
      feed.Spells (k :: ks) := by
  obtain ⟨feed, comments, hnext, hs⟩ := nextIs_of_spells c h
  rw [beq_false_of_ne hk] at hnext
  exact ⟨feed, comments, bind_ok hnext, hs⟩

theorem expectChar_of_spells {c : Char} (h : r.feed.Spells (.char c :: ks)) : ∃ feed comments,
    expectChar c r = .ok () (retake r feed comments) ∧ feed.Spells ks := by
  obtain ⟨⟨kind, position⟩, feed, comments, hnext, rfl, hs⟩ :=
    next_of_spells h TokenKind.noConfusion
  refine ⟨feed, comments, (bind_ok hnext).trans ?_, hs⟩
  rw [if_pos (beq_self_eq_true _)]
  rfl

/-! ## What a step reads -/

/-- From `r`, whose feed spells `ks`, the step reads one of the items `i` that satisfy `G`: when it
succeeds, the tokens of an item are taken; and it succeeds where the tokens of an item come next and
a token follows that `F` allows. Either way `Q` holds of the item, the value and the state. -/
structure Reads (m : Parse σ α) (r : Reading σ) (ks : List TokenKind) (T : I → List TokenKind)
    (F : I → TokenKind → Prop) (G : I → Prop) (Q : I → α → Reading σ → Prop) : Prop where
  sound : ∀ {x r'}, m r = .ok x r' →
    ∃ i rest, ks = T i ++ rest ∧ r'.feed.Spells rest ∧ G i ∧ Q i x r'
  complete : ∀ i k rest, ks = T i ++ k :: rest → F i k → G i →
    ∃ x r', m r = .ok x r' ∧ r'.feed.Spells (k :: rest) ∧ Q i x r'

/-- The tokens at hand, which the budget of the reading covers. -/
structure Faces (cx : ReadingContext σ) (r : Reading σ) (ks : List TokenKind) : Prop where
  spells : r.feed.Spells ks
  covered : TokenKind.count ks < cx.budget

variable {cx : ReadingContext σ} {m m' : Parse σ α} {f : α → Parse σ β}
  {T : I → List TokenKind} {F : I → TokenKind → Prop} {G : I → Prop}
  {Q : I → α → Reading σ → Prop} {R : I → β → Reading σ → Prop}

theorem Faces.drop {t : List TokenKind} (h : Faces cx r (t ++ ks))
    (hs : r₁.feed.Spells ks) : Faces cx r₁ ks := by
  have := h.covered
  rw [TokenKind.count_append] at this
  exact ⟨hs, by omega⟩

theorem Faces.tail (h : Faces cx r (k :: ks)) (hs : r₁.feed.Spells ks) : Faces cx r₁ ks :=
  h.drop (t := [k]) hs

theorem Faces.keep (h : Faces cx r ks) (hs : r₁.feed.Spells ks) : Faces cx r₁ ks :=
  ⟨hs, h.covered⟩

namespace Reads

/-- A step that goes on as another step does from another state with the same tokens. -/
theorem follow (h : m r = m' r₁) (hm : Reads m' r₁ ks T F G Q) : Reads m r ks T F G Q where
  sound hx := hm.sound (h ▸ hx)
  complete i k rest hks hF hG := h ▸ hm.complete i k rest hks hF hG

/-- A step after some tokens have been taken, seen as reading larger items. -/
theorem prepend {T' : J → List TokenKind} {F' : J → TokenKind → Prop} {G' : J → Prop}
    {Q' : J → α → Reading σ → Prop} (taken : List TokenKind) (h : Reads m r rest T F G Q)
    (hs : ∀ i, G i → ∃ j, T' j = taken ++ T i ∧ G' j ∧ ∀ x r', Q i x r' → Q' j x r')
    (hc : ∀ j k rest', taken ++ rest = T' j ++ k :: rest' → F' j k → G' j →
      ∃ i, T' j = taken ++ T i ∧ F i k ∧ G i ∧ ∀ x r', Q i x r' → Q' j x r') :
    Reads m r (taken ++ rest) T' F' G' Q' where
  sound {x r'} hx := by
    obtain ⟨i, rest', rfl, hspells, hG, hQ⟩ := h.sound hx
    obtain ⟨j, hT, hG', hQ'⟩ := hs i hG
    exact ⟨j, rest', by rw [hT, List.append_assoc], hspells, hG', hQ' x r' hQ⟩
  complete j k rest' hks hF hG := by
    obtain ⟨i, hT, hFi, hGi, hQ'⟩ := hc j k rest' hks hF hG
    rw [hT, List.append_assoc] at hks
    obtain ⟨x, r', hx, hspells, hQ⟩ := h.complete i k rest' (List.append_cancel_left hks) hFi hGi
    exact ⟨x, r', hx, hspells, hQ' x r' hQ⟩

/-- A step seen as reading other items. -/
theorem convert {T' : J → List TokenKind} {F' : J → TokenKind → Prop} {G' : J → Prop}
    {Q' : J → α → Reading σ → Prop} (h : Reads m r ks T F G Q)
    (hs : ∀ i, G i → ∃ j, T' j = T i ∧ G' j ∧ ∀ x r', Q i x r' → Q' j x r')
    (hc : ∀ j k rest, ks = T' j ++ k :: rest → F' j k → G' j →
      ∃ i, T' j = T i ∧ F i k ∧ G i ∧ ∀ x r', Q i x r' → Q' j x r') :
    Reads m r ks T' F' G' Q' :=
  prepend [] h hs hc

theorem mono {Q' : I → α → Reading σ → Prop} (h : Reads m r ks T F G Q)
    (hq : ∀ i x r', G i → Q i x r' → Q' i x r') : Reads m r ks T F G Q' where
  sound hx := by
    obtain ⟨i, rest, hks, hs, hG, hQ⟩ := h.sound hx
    exact ⟨i, rest, hks, hs, hG, hq i _ _ hG hQ⟩
  complete i k rest hks hF hG := by
    obtain ⟨x, r', hx, hs, hQ⟩ := h.complete i k rest hks hF hG
    exact ⟨x, r', hx, hs, hq i x r' hG hQ⟩

/-- What is known of every run that succeeds goes along. -/
theorem also {P : α → Reading σ → Prop} (h : Reads m r ks T F G Q)
    (hp : ∀ x r', m r = .ok x r' → P x r') : Reads m r ks T F G fun i x r' => Q i x r' ∧ P x r' where
  sound hx := by
    obtain ⟨i, rest, hks, hs, hG, hQ⟩ := h.sound hx
    exact ⟨i, rest, hks, hs, hG, hQ, hp _ _ hx⟩
  complete i k rest hks hF hG := by
    obtain ⟨x, r', hx, hs, hQ⟩ := h.complete i k rest hks hF hG
    exact ⟨x, r', hx, hs, hQ, hp x r' hx⟩

/-- A step that fails where no item can be read. -/
theorem fail (h : ∃ e r', m r = .error e r')
    (hn : ∀ i k rest, ks = T i ++ k :: rest → F i k → ¬ G i) : Reads m r ks T F G Q where
  sound hx := by
    obtain ⟨e, r', he⟩ := h
    rw [he] at hx
    cases hx
  complete i k rest hks hF hG := absurd hG (hn i k rest hks hF)

/-- A step that takes no token. -/
theorem pure {x : α} {F : TokenKind → Prop} {Q : α → Reading σ → Prop} (hs : r.feed.Spells ks)
    (hq : Q x r) :
    Reads (Pure.pure x) r ks (fun _ : Unit => []) (fun _ => F) (fun _ => True) fun _ => Q where
  sound hx := by
    cases hx
    exact ⟨(), ks, rfl, hs, trivial, hq⟩
  complete _ k rest hks _ _ := by
    rw [List.nil_append] at hks
    exact ⟨x, r, rfl, hks ▸ hs, hq⟩

theorem bind {T₂ : I → J → List TokenKind} {F₂ : I → J → TokenKind → Prop} {G₂ : I → J → Prop}
    {Q₂ : I → J → β → Reading σ → Prop} (hr : Faces cx r ks) (h : Reads m r ks T F G Q)
    (hf : ∀ i x r₁ rest, ks = T i ++ rest → Faces cx r₁ rest → G i → Q i x r₁ →
      Reads (f x) r₁ rest (T₂ i) (F₂ i) (G₂ i) (Q₂ i))
    (hF : ∀ i j k, F₂ i j k → F i ((T₂ i j).headD k)) :
    Reads (m >>= f) r ks (fun x : I × J => T x.1 ++ T₂ x.1 x.2) (fun x => F₂ x.1 x.2)
      (fun x => G x.1 ∧ G₂ x.1 x.2) fun x => Q₂ x.1 x.2 where
  sound {y r'} hy := by
    cases hm : m r with
    | error e r₁ =>
      rw [bind_error hm] at hy
      cases hy
    | ok x r₁ =>
      rw [bind_ok hm] at hy
      obtain ⟨i, rest, rfl, hs, hG, hQ⟩ := h.sound hm
      obtain ⟨j, rest', rfl, hs', hG', hQ'⟩ := (hf i x r₁ rest rfl (hr.drop hs) hG hQ).sound hy
      exact ⟨(i, j), rest', by simp, hs', ⟨hG, hG'⟩, hQ'⟩
  complete := by
    rintro ⟨i, j⟩ k rest hks hF₂ ⟨hG, hG'⟩
    obtain ⟨k', rest', heq, hhead⟩ : ∃ k' rest', T₂ i j ++ k :: rest = k' :: rest' ∧
        k' = (T₂ i j).headD k := by
      cases T₂ i j with
      | nil => exact ⟨k, rest, rfl, rfl⟩
      | cons head tail => exact ⟨head, tail ++ k :: rest, rfl, rfl⟩
    have hks' : ks = T i ++ k' :: rest' := by
      rw [← heq, hks, List.append_assoc]
    obtain ⟨x, r₁, hm, hs, hQ⟩ := h.complete i k' rest' hks' (hhead ▸ hF i j k hF₂) hG
    obtain ⟨y, r', hy, hs', hQ'⟩ :=
      (hf i x r₁ _ hks' ((hks' ▸ hr).drop hs) hG hQ).complete j k rest heq.symm hF₂ hG'
    exact ⟨y, r', (bind_ok hm).trans hy, hs', hQ'⟩

/-- A step with another one after it that takes no token and always succeeds. -/
theorem finish (h : Reads m r ks T F G Q)
    (hf : ∀ i x r₁, Q i x r₁ → ∃ y r', f x r₁ = .ok y r' ∧ r'.feed = r₁.feed ∧ R i y r') :
    Reads (m >>= f) r ks T F G R where
  sound {y r'} hy := by
    cases hm : m r with
    | error e r₁ =>
      rw [bind_error hm] at hy
      cases hy
    | ok x r₁ =>
      rw [bind_ok hm] at hy
      obtain ⟨i, rest, hks, hs, hG, hQ⟩ := h.sound hm
      obtain ⟨y', r₂, hy', hfeed, hQ'⟩ := hf i x r₁ hQ
      rw [hy'] at hy
      cases hy
      exact ⟨i, rest, hks, hfeed ▸ hs, hG, hQ'⟩
  complete i k rest hks hF hG := by
    obtain ⟨x, r₁, hm, hs, hQ⟩ := h.complete i k rest hks hF hG
    obtain ⟨y, r', hy, hfeed, hQ'⟩ := hf i x r₁ hQ
    exact ⟨y, r', (bind_ok hm).trans hy, hfeed ▸ hs, hQ'⟩

/-! ## Steps on tokens -/

theorem peek_bind {f : Token → Parse σ β} (hr : Faces cx r ks)
    (hf : ∀ token feed comments rest, ks = token.kind :: rest →
      Faces cx (retake r feed comments) ks →
      Reads (f token) (retake r feed comments) ks T F G R) :
    Reads (peek >>= f) r ks T F G R := by
  cases ks with
  | nil =>
    obtain ⟨e, r', he⟩ := peek_of_spells_nil hr.spells
    exact fail ⟨e, r', bind_error he⟩ fun i k rest h => by simp at h
  | cons k ks =>
    obtain ⟨token, feed, comments, hpeek, rfl, hs⟩ := peek_of_spells hr.spells
    exact follow (bind_ok hpeek) (hf token feed comments ks rfl (hr.keep hs))

/-- The next token is taken, unless the file ends. -/
theorem next_bind {f : Token → Parse σ β} (hr : Faces cx r ks)
    (hf : ∀ token feed comments rest, ks = token.kind :: rest →
      (token.kind ≠ .eof → Faces cx (retake r feed comments) rest) →
      (token.kind = .eof → Faces cx (retake r feed comments) ks) →
      Reads (f token) (retake r feed comments) ks T F G R) :
    Reads (next >>= f) r ks T F G R := by
  cases ks with
  | nil =>
    obtain ⟨e, r', he⟩ := next_of_spells_nil hr.spells
    exact fail ⟨e, r', bind_error he⟩ fun i k rest h => by simp at h
  | cons k ks =>
    by_cases hk : k = .eof
    · subst hk
      obtain rfl := hr.spells.of_eof
      obtain ⟨token, feed, comments, hnext, hkind, hs⟩ := next_of_spells_eof hr.spells
      exact follow (bind_ok hnext) (hf token feed comments [] (by rw [hkind])
        (fun h => absurd hkind h) fun _ => hr.keep hs)
    · obtain ⟨token, feed, comments, hnext, rfl, hs⟩ := next_of_spells hr.spells hk
      exact follow (bind_ok hnext) (hf token feed comments ks rfl (fun _ => hr.tail hs)
        fun h => absurd h hk)

/-- A character is asked for. -/
theorem expectChar_bind {c : Char} {f : Unit → Parse σ β} (hr : Faces cx r ks)
    (hf : ∀ feed comments rest, ks = .char c :: rest → Faces cx (retake r feed comments) rest →
      Reads (f ()) (retake r feed comments) rest T F G R) :
    Reads (expectChar c >>= f) r ks (fun i => .char c :: T i) F G R := by
  unfold expectChar
  rw [bind_assoc]
  refine next_bind hr fun token feed comments rest hks hr₁ _ => ?_
  by_cases hc : token.kind = .char c
  · rw [if_pos (by simpa using hc)]
    rw [hc] at hks hr₁
    subst hks
    exact prepend [.char c] (hf feed comments rest rfl (hr₁ TokenKind.noConfusion))
      (fun i hG => ⟨i, rfl, hG, fun _ _ h => h⟩)
      fun i k rest' _ hF hG => ⟨i, rfl, hF, hG, fun _ _ h => h⟩
  · rw [if_neg (by simpa using hc)]
    refine fail ⟨_, _, rfl⟩ fun i k rest' h => ?_
    rw [hks] at h
    exact absurd (List.cons.inj h).1 hc

/-- A character is asked for at the end. -/
theorem expectChar {c : Char} {F : TokenKind → Prop} {Q : Reading σ → Prop} (hr : Faces cx r ks)
    (hq : ∀ feed comments, Q (retake r feed comments)) :
    Reads (Parse.expectChar c) r ks (fun _ : Unit => [.char c]) (fun _ => F) (fun _ => True)
      fun _ _ => Q := by
  rw [← bind_pure (Parse.expectChar c)]
  exact expectChar_bind hr fun feed comments rest _ hr₁ => pure hr₁.spells (hq feed comments)

/-- A name is asked for. -/
theorem expectIdent_bind {what : String} {f : String × Position → Parse σ β}
    {T : String → I → List TokenKind} {F : String → I → TokenKind → Prop}
    {G : String → I → Prop} {R : String → I → β → Reading σ → Prop} (hr : Faces cx r ks)
    (hf : ∀ name position feed comments rest, ks = .ident name :: rest →
      Faces cx (retake r feed comments) rest →
      Reads (f (name, position)) (retake r feed comments) rest (T name) (F name) (G name)
        (R name)) :
    Reads (expectIdent what >>= f) r ks (fun x : String × I => .ident x.1 :: T x.1 x.2)
      (fun x => F x.1 x.2) (fun x => G x.1 x.2) fun x => R x.1 x.2 := by
  unfold expectIdent
  rw [bind_assoc]
  refine next_bind hr fun token feed comments rest hks hr₁ _ => ?_
  split
  · rename_i name hname
    rw [hname] at hks hr₁
    subst hks
    refine prepend [.ident name]
      (hf name token.position feed comments rest rfl (hr₁ TokenKind.noConfusion))
      (fun i hG => ⟨(name, i), rfl, hG, fun _ _ h => h⟩) ?_
    rintro ⟨other, i⟩ k rest' hks hF hG
    obtain rfl : name = other := TokenKind.ident.inj (List.cons.inj hks).1
    exact ⟨i, rfl, hF, hG, fun _ _ h => h⟩
  · rename_i hname
    refine fail ⟨_, _, rfl⟩ fun i k rest' h => ?_
    rw [hks] at h
    exact absurd (List.cons.inj h).1 (hname _)

/-- A string is asked for. -/
theorem expectString_bind {what : String} {f : String × Position → Parse σ β}
    {T : String → I → List TokenKind} {F : String → I → TokenKind → Prop}
    {G : String → I → Prop} {R : String → I → β → Reading σ → Prop} (hr : Faces cx r ks)
    (hf : ∀ value position feed comments rest, ks = .string value :: rest →
      Faces cx (retake r feed comments) rest →
      Reads (f (value, position)) (retake r feed comments) rest (T value) (F value) (G value)
        (R value)) :
    Reads (expectString what >>= f) r ks (fun x : String × I => .string x.1 :: T x.1 x.2)
      (fun x => F x.1 x.2) (fun x => G x.1 x.2) fun x => R x.1 x.2 := by
  unfold expectString
  rw [bind_assoc]
  refine next_bind hr fun token feed comments rest hks hr₁ _ => ?_
  split
  · rename_i value hvalue
    rw [hvalue] at hks hr₁
    subst hks
    refine prepend [.string value]
      (hf value token.position feed comments rest rfl (hr₁ TokenKind.noConfusion))
      (fun i hG => ⟨(value, i), rfl, hG, fun _ _ h => h⟩) ?_
    rintro ⟨other, i⟩ k rest' hks hF hG
    obtain rfl : value = other := TokenKind.string.inj (List.cons.inj hks).1
    exact ⟨i, rfl, hF, hG, fun _ _ h => h⟩
  · rename_i hvalue
    refine fail ⟨_, _, rfl⟩ fun i k rest' h => ?_
    rw [hks] at h
    exact absurd (List.cons.inj h).1 (hvalue _)

/-- What is read where a token comes next, after it, and what else. -/
theorem look_bind {kind : TokenKind} {g : Token → Unit → Parse σ β} {h : Token → Parse σ β}
    {T' : J → List TokenKind} {F' : J → TokenKind → Prop} {G' : J → Prop}
    {R' : J → β → Reading σ → Prop} (hr : Faces cx r ks) (hkind : kind ≠ .eof)
    (hthen : ∀ token feed comments rest, ks = kind :: rest →
      Faces cx (retake r feed comments) rest →
      Reads (g token ()) (retake r feed comments) rest T F G R)
    (helse : ∀ token feed comments, Faces cx (retake r feed comments) ks →
      Reads (h token) (retake r feed comments) ks T' F' G' R') :
    Reads (peek >>= fun token => if token.kind == kind then advance >>= g token else h token) r ks
      (Sum.elim (fun i => kind :: T i) T')
      (Sum.elim F fun j k => F' j k ∧ (T' j).headD k ≠ kind) (Sum.elim G G') (Sum.elim R R') := by
  refine peek_bind hr fun token feed comments rest hks hr₁ => ?_
  by_cases hc : token.kind = kind
  · rw [if_pos (by simpa using hc)]
    rw [hc] at hks
    subst hks
    obtain ⟨feed', hadvance, hs⟩ := advance_of_spells hr₁.spells hkind
    refine follow (bind_ok hadvance) (prepend [kind]
      (hthen token feed' comments rest rfl (hr₁.tail hs))
      (fun i hG => ⟨.inl i, rfl, hG, fun _ _ h => h⟩) ?_)
    rintro (i | j) k rest' hks hF hG
    · exact ⟨i, rfl, hF, hG, fun _ _ h => h⟩
    · refine absurd ?_ hF.2
      simp only [Sum.elim_inr] at hks
      cases hT : T' j with
      | nil => rw [hT] at hks; exact (List.cons.inj hks).1.symm
      | cons head tail => rw [hT] at hks; exact (List.cons.inj hks).1.symm
  · rw [if_neg (by simpa using hc)]
    refine (helse token feed comments hr₁).convert
      (fun j hG => ⟨.inr j, rfl, hG, fun _ _ h => h⟩) ?_
    rintro (i | j) k rest' h hF hG
    · rw [hks] at h
      exact absurd (List.cons.inj h).1 hc
    · exact ⟨j, rfl, hF.1, hG, fun _ _ h => h⟩

theorem matchChar_bind_eq (c : Char) (f : Bool → Parse σ β) :
    matchChar c >>= f = peek >>= fun token =>
      if token.kind == .char c then advance >>= fun _ => f true else f false := by
  unfold matchChar nextIs
  simp only [bind_assoc, pure_bind]
  congr 1
  funext token
  split <;> simp only [bind_assoc, pure_bind]

/-- What is read where a character comes next, after it, and what else. -/
theorem matchChar_bind {c : Char} {f : Bool → Parse σ β} {T' : J → List TokenKind}
    {F' : J → TokenKind → Prop} {G' : J → Prop} {R' : J → β → Reading σ → Prop}
    (hr : Faces cx r ks)
    (hthen : ∀ feed comments rest, ks = .char c :: rest → Faces cx (retake r feed comments) rest →
      Reads (f true) (retake r feed comments) rest T F G R)
    (helse : ∀ feed comments, Faces cx (retake r feed comments) ks →
      Reads (f false) (retake r feed comments) ks T' F' G' R') :
    Reads (matchChar c >>= f) r ks (Sum.elim (fun i => .char c :: T i) T')
      (Sum.elim F fun j k => F' j k ∧ (T' j).headD k ≠ .char c) (Sum.elim G G')
      (Sum.elim R R') := by
  rw [matchChar_bind_eq]
  exact look_bind hr TokenKind.noConfusion (fun _ => hthen) fun _ => helse

/-- What is read where a character comes next, from the character on, and what else. -/
theorem nextIs_bind {c : Char} {f : Bool → Parse σ β} {T' : J → List TokenKind}
    {F' : J → TokenKind → Prop} {G' : J → Prop} {R' : J → β → Reading σ → Prop}
    (hr : Faces cx r ks)
    (hthen : ∀ feed comments, Faces cx (retake r feed comments) ks →
      Reads (f true) (retake r feed comments) ks T F G R)
    (helse : ∀ feed comments, Faces cx (retake r feed comments) ks →
      Reads (f false) (retake r feed comments) ks T' F' G' R') :
    Reads (nextIs c >>= f) r ks (Sum.elim T T')
      (Sum.elim (fun i k => F i k ∧ (T i).headD k = .char c)
        fun j k => F' j k ∧ (T' j).headD k ≠ .char c) (Sum.elim G G') (Sum.elim R R') := by
  have hhead : ∀ {token : TokenKind} {rest rest' ts : List TokenKind} {k : TokenKind},
      token :: rest = ts ++ k :: rest' → ts.headD k = token := by
    rintro token rest rest' (_ | _) k h
    · exact (List.cons.inj h).1.symm
    · exact (List.cons.inj h).1.symm
  unfold nextIs
  rw [bind_assoc]
  refine peek_bind hr fun token feed comments rest hks hr₁ => ?_
  rw [pure_bind]
  by_cases hc : token.kind = .char c
  · rw [hc, beq_self_eq_true]
    refine (hthen feed comments hr₁).convert (fun i hG => ⟨.inl i, rfl, hG, fun _ _ h => h⟩) ?_
    rintro (i | j) k rest' h hF hG
    · exact ⟨i, rfl, hF.1, hG, fun _ _ h => h⟩
    · exact absurd ((hhead (hks ▸ h)).trans hc) hF.2
  · rw [beq_eq_false_iff_ne.2 hc]
    refine (helse feed comments hr₁).convert (fun j hG => ⟨.inr j, rfl, hG, fun _ _ h => h⟩) ?_
    rintro (i | j) k rest' h hF hG
    · exact absurd ((hhead (hks ▸ h)).symm.trans hF.2) hc
    · exact ⟨j, rfl, hF.1, hG, fun _ _ h => h⟩

/-- What is read where a name comes next, from the name on, and what else. -/
theorem nextIsIdent_bind {f : Bool → Parse σ β} {T' : J → List TokenKind}
    {F' : J → TokenKind → Prop} {G' : J → Prop} {R' : J → β → Reading σ → Prop}
    (hr : Faces cx r ks)
    (hthen : ∀ feed comments, Faces cx (retake r feed comments) ks →
      Reads (f true) (retake r feed comments) ks T F G R)
    (helse : ∀ feed comments, Faces cx (retake r feed comments) ks →
      Reads (f false) (retake r feed comments) ks T' F' G' R')
    (hT : ∀ i, ∃ name tail, T i = .ident name :: tail) :
    Reads (nextIsIdent >>= f) r ks (Sum.elim T T')
      (Sum.elim F fun j k => F' j k ∧ ∀ name, (T' j).headD k ≠ .ident name) (Sum.elim G G')
      (Sum.elim R R') := by
  unfold nextIsIdent
  rw [bind_assoc]
  refine peek_bind hr fun token feed comments rest hks hr₁ => ?_
  split
  · rename_i name hkind
    refine (hthen feed comments hr₁).convert (fun i hG => ⟨.inl i, rfl, hG, fun _ _ h => h⟩) ?_
    rintro (i | j) k rest' h hF hG
    · exact ⟨i, rfl, hF, hG, fun _ _ h => h⟩
    · refine absurd ?_ (hF.2 name)
      rw [hks, hkind] at h
      simp only [Sum.elim_inr] at h
      cases hT' : T' j with
      | nil => rw [hT'] at h; exact (List.cons.inj h).1.symm
      | cons head tail => rw [hT'] at h; exact (List.cons.inj h).1.symm
  · rename_i hkind
    refine (helse feed comments hr₁).convert (fun j hG => ⟨.inr j, rfl, hG, fun _ _ h => h⟩) ?_
    rintro (i | j) k rest' h hF hG
    · obtain ⟨name, tail, hi⟩ := hT i
      rw [hks, Sum.elim_inl, hi] at h
      exact absurd (List.cons.inj h).1 (hkind name)
    · exact ⟨j, rfl, hF.1, hG, fun _ _ h => h⟩

/-! ## Loops -/

/-- The rounds of a loop. A round reads an item after which the loop goes on, or one that ends it.
Rounds may enter keys, such as names; the keys entered so far satisfy a rule that every shorter list
of keys satisfies too. -/
theorem repeatWhile {A B κ : Type} {step : Parse σ Bool} {TA : A → List TokenKind}
    {TB : B → List TokenKind} {FA : A → TokenKind → Prop} {FB : B → TokenKind → Prop}
    (keysA : A → List κ) (keysB : B → List κ) (PA : A → Prop) (PB : B → Prop)
    (Allowed : List κ → Prop) (Inv End : List κ → Reading σ → Prop)
    (hstep : ∀ names r ks, Inv names r → Faces cx r ks →
      Reads step r ks (Sum.elim TA TB) (Sum.elim FA FB)
        (Sum.elim (fun a => Allowed (names ++ keysA a) ∧ PA a)
          fun b => Allowed (names ++ keysB b) ∧ PB b)
        (Sum.elim (fun a more r' => more = true ∧ Inv (names ++ keysA a) r')
          fun b more r' => more = false ∧ End (names ++ keysB b) r'))
    (hcount : ∀ a, 0 < TokenKind.count (TA a))
    (hgo : ∀ a a' k, FA a ((TA a').headD k))
    (hstop : ∀ a b k, FB b k → FA a ((TB b).headD k))
    (hallowed : ∀ xs ys, Allowed (xs ++ ys) → Allowed xs) :
    ∀ (fuel : Nat) (names : List κ) (r : Reading σ) (ks : List TokenKind), Inv names r →
      Faces cx r ks → TokenKind.count ks < fuel →
      Reads (Parse.repeatWhile step fuel) r ks
        (fun x : List A × B => x.1.flatMap TA ++ TB x.2) (fun x => FB x.2)
        (fun x => Allowed (names ++ (x.1.flatMap keysA ++ keysB x.2)) ∧ (∀ a ∈ x.1, PA a) ∧ PB x.2)
        fun x _ r' => End (names ++ (x.1.flatMap keysA ++ keysB x.2)) r'
  | 0, _, _, _, _, _, hfuel => absurd hfuel (Nat.not_lt_zero _)
  | fuel + 1, names, r, ks, hi, hr, hfuel => by
    have hround := hstep names r ks hi hr
    -- the rest of the loop after a round that went on
    have hrest : ∀ a r₁ rest, ks = TA a ++ rest → r₁.feed.Spells rest →
        Inv (names ++ keysA a) r₁ → Reads (Parse.repeatWhile step fuel) r₁ rest
          (fun x : List A × B => x.1.flatMap TA ++ TB x.2) (fun x => FB x.2)
          (fun x => Allowed ((names ++ keysA a) ++ (x.1.flatMap keysA ++ keysB x.2)) ∧
            (∀ a ∈ x.1, PA a) ∧ PB x.2)
          fun x _ r' => End ((names ++ keysA a) ++ (x.1.flatMap keysA ++ keysB x.2)) r' := by
      rintro a r₁ rest rfl hs hi₁
      have ha := hcount a
      rw [TokenKind.count_append] at hfuel
      exact repeatWhile keysA keysB PA PB Allowed Inv End hstep hcount hgo hstop hallowed fuel _ r₁ rest
        hi₁ (hr.drop hs) (by omega)
    constructor
    · intro x r' hx
      cases hrun : step r with
      | error e r₁ =>
        rw [Parse.repeatWhile, bind_error hrun] at hx
        cases hx
      | ok more r₁ =>
        rw [Parse.repeatWhile, bind_ok hrun] at hx
        obtain ⟨a | b, rest, hks, hs, hG, rfl, hi₁⟩ := hround.sound hrun
        · rw [if_pos rfl] at hx
          obtain ⟨⟨as, b⟩, rest', rfl, hs', hG', hi'⟩ := (hrest a r₁ rest hks hs hi₁).sound hx
          refine ⟨(a :: as, b), rest', ?_, hs', ⟨?_, ?_, hG'.2.2⟩, ?_⟩
          · simpa using hks
          · simpa using hG'.1
          · exact List.forall_mem_cons.2 ⟨hG.2, hG'.2.1⟩
          · simpa using hi'
        · rw [if_neg Bool.false_ne_true] at hx
          cases hx
          exact ⟨([], b), rest, hks, hs, ⟨hG.1, List.forall_mem_nil _, hG.2⟩, hi₁⟩
    · rintro ⟨as, b⟩ k rest hks hF ⟨hallow, hPA, hPB⟩
      cases as with
      | nil =>
        obtain ⟨more, r₁, hrun, hs, rfl, hi₁⟩ :=
          hround.complete (.inr b) k rest hks hF ⟨hallow, hPB⟩
        refine ⟨(), r₁, ?_, hs, hi₁⟩
        rw [Parse.repeatWhile, bind_ok hrun, if_neg Bool.false_ne_true]
        rfl
      | cons a as =>
        simp only [List.flatMap_cons, List.append_assoc] at hks hallow
        obtain ⟨k', rest', heq, hk'⟩ : ∃ k' rest',
            as.flatMap TA ++ (TB b ++ k :: rest) = k' :: rest' ∧ FA a k' := by
          cases as with
          | nil =>
            have hfollow := hstop a b k hF
            cases hT : TB b with
            | nil => rw [hT] at hfollow; exact ⟨k, rest, rfl, hfollow⟩
            | cons head tail => rw [hT] at hfollow; exact ⟨head, _, rfl, hfollow⟩
          | cons a' as' =>
            have hfollow := hgo a a' k
            have hpos := hcount a'
            cases hT : TA a' with
            | nil => rw [hT] at hpos; exact absurd hpos (Nat.lt_irrefl 0)
            | cons head tail =>
              rw [hT] at hfollow
              exact ⟨head, _, by rw [List.flatMap_cons, hT]; rfl, hfollow⟩
        rw [← List.append_assoc] at hallow
        obtain ⟨more, r₁, hrun, hs, rfl, hi₁⟩ := hround.complete (.inl a) k' rest' (heq ▸ hks) hk'
          ⟨hallowed _ _ hallow, hPA a (List.mem_cons_self ..)⟩
        obtain ⟨x, r', hx, hs', hi'⟩ := (hrest a r₁ _ (heq ▸ hks) hs hi₁).complete (as, b) k rest
          (by rw [← heq]; simp) hF
          ⟨hallow, fun a' ha' => hPA a' (List.mem_cons_of_mem _ ha'), hPB⟩
        refine ⟨x, r', ?_, hs', by simpa using hi'⟩
        rw [Parse.repeatWhile, bind_ok hrun, if_pos rfl]
        exact hx

/-- The tokens of an item, and a comma where more is to come. -/
def withComma {X : Type} (T : X → List TokenKind) (x : X × Bool) : List TokenKind :=
  T x.1 ++ if x.2 then [.char ','] else []

/-- A chain of items is read round by round, each with the comma after it. -/
theorem chain {X κ : Type} {step : Parse σ Bool} {T : X → List TokenKind} {F : TokenKind → Prop}
    (keys : X → List κ) (P : X → Prop) (Allowed : List κ → Prop)
    (Inv : List κ → Reading σ → Prop)
    (hstep : ∀ names r ks, Inv names r → Faces cx r ks →
      Reads step r ks (withComma T) (fun x k => x.2 = false → F k ∧ k ≠ .char ',')
        (fun x => Allowed (names ++ keys x.1) ∧ P x.1)
        fun x more r' => more = x.2 ∧ Inv (names ++ keys x.1) r')
    (hallowed : ∀ xs ys, Allowed (xs ++ ys) → Allowed xs) (names : List κ)
    (hi : Inv names r) (hr : Faces cx r ks) :
    Reads (Parse.repeatWhile step cx.budget) r ks (Phrase.Chain.tokens ',' T)
      (fun _ k => F k ∧ k ≠ .char ',')
      (fun c => Allowed (names ++ c.items.flatMap keys) ∧ ∀ x ∈ c.items, P x)
      fun c _ r' => Inv (names ++ c.items.flatMap keys) r' := by
  have hround : ∀ names r ks, Inv names r → Faces cx r ks → Reads step r ks
      (Sum.elim (fun x => T x ++ [.char ',']) T)
      (Sum.elim (fun _ _ => True) fun _ k => F k ∧ k ≠ .char ',')
      (Sum.elim (fun x => Allowed (names ++ keys x) ∧ P x) fun x => Allowed (names ++ keys x) ∧ P x)
      (Sum.elim (fun x more r' => more = true ∧ Inv (names ++ keys x) r')
        fun x more r' => more = false ∧ Inv (names ++ keys x) r') := by
    intro names r ks hi hr
    refine (hstep names r ks hi hr).convert ?_ ?_
    · rintro ⟨x, _ | _⟩ hG
      · exact ⟨.inr x, by simp [withComma], hG, fun _ _ h => h⟩
      · exact ⟨.inl x, by simp [withComma], hG, fun _ _ h => h⟩
    · rintro (x | x) k rest _ hF hG
      · exact ⟨(x, true), by simp [withComma], by simp, hG, fun _ _ h => h⟩
      · exact ⟨(x, false), by simp [withComma], fun _ => hF, hG, fun _ _ h => h⟩
  refine (repeatWhile keys keys P P Allowed Inv Inv hround (fun x => by simp [TokenKind.count])
    (fun _ _ _ => trivial) (fun _ _ _ _ => trivial) hallowed cx.budget names r ks hi hr
    hr.covered).convert ?_ ?_
  · rintro ⟨init, last⟩ ⟨hallow, hinit, hlast⟩
    obtain ⟨c, hitems, htokens⟩ := Phrase.Chain.exists_of_last init last
    refine ⟨c, htokens _ _, ⟨?_, ?_⟩, fun _ _ h => ?_⟩
    · simpa [hitems] using hallow
    · simpa [hitems, or_imp, forall_and] using ⟨hinit, hlast⟩
    · simpa [hitems] using h
  · intro c k rest _ hF ⟨hallow, hP⟩
    obtain ⟨init, last, hitems, htokens⟩ := c.exists_last
    rw [hitems] at hallow hP
    refine ⟨(init, last), htokens _ _, hF, ⟨?_, ?_, ?_⟩, fun _ _ h => ?_⟩
    · simpa using hallow
    · exact fun x hx => hP x (List.mem_append_left _ hx)
    · exact hP last (by simp)
    · simpa [hitems] using h

end Reads

end Parse

end SchemaLang
