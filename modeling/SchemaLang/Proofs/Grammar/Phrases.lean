import SchemaLang.Proofs.Grammar.Meaning
import SchemaLang.Proofs.Grammar.Trailing

/-!
# Reading references, arguments, attributes and types exactly

Each rule of the grammar up to types reads the trees of that rule. A tree may not be followed by a
token that would go on with it: a reference by a dot, an argument by a bar, an attribute without
arguments by a parenthesis.
-/

namespace SchemaLang.Parse

open Arena Phrase

variable {σ : Type} {cx : ReadingContext σ} {r : Reading σ} {ks : List TokenKind}

/-- The token is none of the characters. -/
def Stops (cs : List Char) (k : TokenKind) : Prop :=
  ∀ c ∈ cs, k ≠ .char c

theorem Stops.mono {cs ds : List Char} {k : TokenKind} (h : Stops ds k) (hsub : cs ⊆ ds) :
    Stops cs k :=
  fun c hc => h c (hsub hc)

theorem stops_char {cs : List Char} {c : Char} (h : c ∉ cs) : Stops cs (.char c) :=
  fun _ hd hc => h (TokenKind.char.inj hc ▸ hd)

theorem stops_ident (cs : List Char) (name : String) : Stops cs (.ident name) :=
  fun _ _ => TokenKind.noConfusion

/-! ## References -/

theorem reads_pathTail {a : Arena} : ∀ (fuel : Nat) (path : List String) (r : Reading σ)
    (ks : List TokenKind), r.arena = a → Faces cx r ks → TokenKind.count ks < fuel →
    Reads (pathTail fuel path) r ks
      (fun names : List String => names.flatMap fun name => [.char '.', .ident name])
      (fun _ => Stops ['.']) (fun _ => True)
      fun names x r' => x = path ++ names ∧ r'.arena = a
  | 0, _, _, _, _, _, hfuel => absurd hfuel (Nat.not_lt_zero _)
  | fuel + 1, path, r, ks, ha, hr, hfuel => by
    apply Reads.convert
    · apply Reads.matchChar_bind hr
      · rintro feed comments rest rfl hr₁
        apply Reads.expectIdent_bind hr₁
        rintro name position feed' comments' rest' rfl hr₂
        simp only [TokenKind.count_cons, ne_eq, reduceCtorEq, not_false_eq_true] at hfuel
        exact reads_pathTail (a := a) fuel (path ++ [name]) _ rest' ha hr₂ (by omega)
      · intro feed comments hr₁
        exact Reads.pure (F := fun _ => True) (Q := fun x r' => x = path ∧ r'.arena = a)
          hr₁.spells ⟨rfl, ha⟩
    · rintro (⟨name, names⟩ | _) _
      · exact ⟨name :: names, by simp, trivial, by simp⟩
      · exact ⟨[], rfl, trivial, by simp⟩
    · rintro (_ | ⟨name, names⟩) k rest hks hF _
      · exact ⟨.inr (), rfl, ⟨trivial, hF '.' (by simp)⟩, trivial, by simp⟩
      · exact ⟨.inl (name, names), by simp, hF, trivial, by simp⟩

/-- A part has made a node, which is a sequence or a composite type or not. -/
structure Made (a : Arena) (sequence composite : Bool) (n : Nat) (r' : Reading σ) : Prop where
  keeps : a.Keeps [] r'.arena
  hasKind : r'.arena.HasKind n fun kind =>
    kind.isSequence = sequence ∧ kind.isComposite = composite

/-- A node has been made, and older ones are as they were. -/
structure Leaf (a : Arena) (kind : NodeKind) (n : NodeId) (r' : Reading σ) : Prop where
  keeps : a.Keeps [] r'.arena
  newer : a.size ≤ n
  hasKind : r'.arena.HasKind n (· = kind)

theorem Leaf.made {a : Arena} {kind : NodeKind} {n : NodeId} (h : Leaf a kind n r) :
    Made a kind.isSequence kind.isComposite n r :=
  ⟨h.keeps, h.hasKind.mono (by rintro _ rfl; exact ⟨rfl, rfl⟩)⟩

theorem leaf_alloc (a : Arena) (name : String) (script : Option NodeId) (position : Position)
    (kind : NodeKind) : Leaf a kind (a.alloc name script position kind).1
      (rebuild r (a.alloc name script position kind).2) :=
  ⟨Keeps.alloc .., Nat.le_refl _, hasKind_alloc ..⟩

theorem reads_finishRef {a : Arena} (hr : Faces cx r ks) (ha : r.arena = a) (first : String)
    (position : Position) :
    Reads (finishRef cx first position) r ks
      (fun names : List String => names.flatMap fun name => [.char '.', .ident name])
      (fun _ => Stops ['.']) (fun _ => True)
      fun names n r' => Leaf a (.typeRef ⟨first :: names, none⟩) n r' ∧
        r'.arena.name n = Ref.dotted ⟨first, names⟩ := by
  refine (reads_pathTail (a := a) cx.budget [first] r ks ha hr hr.covered).finish ?_
  rintro names path r₁ ⟨rfl, rfl⟩
  exact ⟨_, _, build_eq _ r₁, rfl, leaf_alloc .., name_alloc_self ..⟩

theorem reads_typeRef {a : Arena} (hr : Faces cx r ks) (ha : r.arena = a) :
    Reads (typeRef cx) r ks Ref.tokens (fun _ => Stops ['.']) (fun _ => True)
      fun ref n r' => Leaf a (.typeRef ⟨ref.items, none⟩) n r' ∧ r'.arena.name n = ref.dotted := by
  apply Reads.convert
  · apply Reads.expectIdent_bind hr
    intro first position feed comments rest _ hr₁
    exact reads_finishRef (a := a) hr₁ ha first position
  · rintro ⟨first, names⟩ _
    exact ⟨⟨first, names⟩, rfl, trivial, fun _ _ h => h⟩
  · rintro ⟨first, names⟩ k rest _ hF _
    exact ⟨(first, names), rfl, hF, trivial, fun _ _ h => h⟩

/-! ## Arguments -/

/-- A node is made for one token. -/
theorem reads_leaf {I : Type} {T : I → List TokenKind} {F : I → TokenKind → Prop}
    {Q : I → NodeId → Reading σ → Prop} {operation : Arena → NodeId × Arena} {kind : TokenKind}
    {rest : List TokenKind} (hs : r.feed.Spells rest) (i : I)
    (hq : Q i (operation r.arena).1 (rebuild r (operation r.arena).2)) (hi : T i = [kind])
    (hT : ∀ j k rest', kind :: rest = T j ++ k :: rest' → j = i) :
    Reads (build operation) r (kind :: rest) T F (fun _ => True) Q where
  sound hx := by
    rw [build_eq] at hx
    cases hx
    exact ⟨i, rest, by rw [hi]; rfl, hs, trivial, hq⟩
  complete j k rest' hks _ _ := by
    obtain rfl := hT j k rest' hks
    rw [hi] at hks
    obtain ⟨-, rfl⟩ := List.cons.inj hks
    exact ⟨_, _, build_eq .., hs, hq⟩

theorem Number.eq_of_token {x y : Number} (h : x.token = y.token) : x = y := by
  cases x <;> cases y <;> cases h <;> rfl

theorem reads_signed {a : Arena} (hr : Faces cx r ks) (ha : r.arena = a) (negative : Bool)
    (position : Position) :
    Reads (signed cx negative position) r ks (fun number : Number => [number.token])
      (fun _ _ => True) (fun _ => True) fun number => Leaf a (number.kind negative) := by
  refine Reads.next_bind hr fun token feed comments rest hks hr₁ _ => ?_
  subst ha hks
  split
  · rename_i value hkind
    rw [hkind] at hr₁ ⊢
    exact reads_leaf (hr₁ TokenKind.noConfusion).spells (.int value) (leaf_alloc ..) rfl
      fun number k rest' h => Number.eq_of_token (List.cons.inj h).1.symm
  · rename_i value hkind
    rw [hkind] at hr₁ ⊢
    exact reads_leaf (hr₁ TokenKind.noConfusion).spells (.float value) (leaf_alloc ..) rfl
      fun number k rest' h => Number.eq_of_token (List.cons.inj h).1.symm
  · rename_i hint hfloat
    refine Reads.fail ⟨_, _, rfl⟩ fun number k rest' h _ _ => ?_
    cases number with
    | int value => exact hint value (List.cons.inj h).1
    | float value => exact hfloat value (List.cons.inj h).1

/-- The first token of an operand. -/
def Operand.head : Operand → TokenKind
  | .number number => number.token
  | .string value => .string value
  | .bool value => .bool value
  | .signed negative _ => .char (if negative then '-' else '+')
  | .ref path => .ident path.first

theorem Operand.head_eq {x : Operand} {kind k : TokenKind} {rest rest' : List TokenKind}
    (h : kind :: rest = x.tokens ++ k :: rest') : Operand.head x = kind := by
  cases x <;> exact (List.cons.inj h).1.symm

/-- An operand that starts with neither a sign nor a name is its first token. -/
theorem Operand.eq_of_head {x y : Operand} (h : Operand.head x = Operand.head y)
    (hc : ∀ c, Operand.head y ≠ .char c) (hi : ∀ name, Operand.head y ≠ .ident name) : x = y := by
  rcases y with ⟨_ | _⟩ | _ | _ | _ | _
  · rcases x with ⟨_ | _⟩ | _ | _ | _ | _ <;> cases h
    rfl
  · rcases x with ⟨_ | _⟩ | _ | _ | _ | _ <;> cases h
    rfl
  · rcases x with ⟨_ | _⟩ | _ | _ | _ | _ <;> cases h
    rfl
  · rcases x with ⟨_ | _⟩ | _ | _ | _ | _ <;> cases h
    rfl
  · exact absurd rfl (hc _)
  · exact absurd rfl (hi _)

theorem reads_literal {a : Arena} {operation : Arena → NodeId × Arena} {kind : TokenKind}
    {rest : List TokenKind} (hs : r.feed.Spells rest) (x : Operand)
    (hl : Leaf a (x.kind none) (operation r.arena).1 (rebuild r (operation r.arena).2))
    (hx : x.tokens = [kind]) (hc : ∀ c, kind ≠ .char c) (hi : ∀ name, kind ≠ .ident name) :
    Reads (build operation) r (kind :: rest) Operand.tokens (fun _ => Stops ['.']) (fun _ => True)
      fun x => Leaf a (x.kind none) := by
  have hhead : Operand.head x = kind := by
    cases x <;> exact (List.cons.inj hx).1
  refine reads_leaf hs x hl hx fun y k rest' h => Operand.eq_of_head ?_ (hhead ▸ hc) (hhead ▸ hi)
  rw [Operand.head_eq h, hhead]

theorem reads_signedOperand {a : Arena} {rest : List TokenKind} (hr : Faces cx r rest)
    (ha : r.arena = a) (negative : Bool) (position : Position) :
    Reads (signed cx negative position) r (.char (if negative then '-' else '+') :: rest)
      Operand.tokens (fun _ => Stops ['.']) (fun _ => True) fun x => Leaf a (x.kind none) := by
  refine Reads.prepend [_] (reads_signed (a := a) hr ha negative position) ?_ ?_
  · exact fun number _ => ⟨.signed negative number, rfl, trivial, fun _ _ h => h⟩
  · intro x k rest' hks _ _
    have hhead := Operand.head_eq hks
    rcases x with ⟨_ | _⟩ | _ | _ | ⟨negative', number⟩ | _ <;>
      simp [Operand.head, Number.token] at hhead
    obtain rfl : negative' = negative := by
      cases negative <;> cases negative' <;> simp_all
    exact ⟨number, rfl, trivial, trivial, fun _ _ h => h⟩

theorem reads_operand {a : Arena} (hr : Faces cx r ks) (ha : r.arena = a) :
    Reads (operand cx) r ks Operand.tokens (fun _ => Stops ['.']) (fun _ => True)
      fun x => Leaf a (x.kind none) := by
  refine Reads.next_bind hr fun token feed comments rest hks hr₁ _ => ?_
  subst ha hks
  dsimp only
  split
  case h_1 value hkind =>
    rw [hkind] at hr₁ ⊢
    exact reads_literal (hr₁ TokenKind.noConfusion).spells (.number (.int value)) (leaf_alloc ..)
      rfl (by simp) (by simp)
  case h_2 value hkind =>
    rw [hkind] at hr₁ ⊢
    exact reads_literal (hr₁ TokenKind.noConfusion).spells (.number (.float value)) (leaf_alloc ..)
      rfl (by simp) (by simp)
  case h_3 value hkind =>
    rw [hkind] at hr₁ ⊢
    exact reads_literal (hr₁ TokenKind.noConfusion).spells (.string value) (leaf_alloc ..)
      rfl (by simp) (by simp)
  case h_4 value hkind =>
    rw [hkind] at hr₁ ⊢
    exact reads_literal (hr₁ TokenKind.noConfusion).spells (.bool value) (leaf_alloc ..)
      rfl (by simp) (by simp)
  case h_5 c hkind =>
    rw [hkind] at hr₁ ⊢
    split
    · rename_i hc
      obtain rfl : c = '-' := by simpa using hc
      exact reads_signedOperand (a := r.arena) (hr₁ TokenKind.noConfusion) rfl true _
    · split
      · rename_i hc
        obtain rfl : c = '+' := by simpa using hc
        exact reads_signedOperand (a := r.arena) (hr₁ TokenKind.noConfusion) rfl false _
      · rename_i hminus hplus
        refine Reads.fail ⟨_, _, rfl⟩ fun x k rest' h _ _ => ?_
        have hhead := Operand.head_eq h
        rcases x with ⟨_ | _⟩ | _ | _ | ⟨_ | _, number⟩ | _ <;>
          simp [Operand.head, Number.token] at hhead
        · exact hplus (by rw [← hhead]; rfl)
        · exact hminus (by rw [← hhead]; rfl)
  case h_6 first hkind =>
    rw [hkind] at hr₁ ⊢
    refine Reads.prepend [.ident first] (reads_finishRef (a := r.arena)
      (hr₁ TokenKind.noConfusion) rfl first token.position) ?_ ?_
    · exact fun names _ => ⟨.ref ⟨first, names⟩, rfl, trivial, fun _ _ h => h.1⟩
    · intro x k rest' hks hF _
      have hhead := Operand.head_eq hks
      rcases x with ⟨_ | _⟩ | _ | _ | _ | ⟨first', names⟩ <;>
        simp [Operand.head, Number.token] at hhead
      subst hhead
      exact ⟨names, rfl, hF, trivial, fun _ _ h => h.1⟩
  case h_7 hint hfloat hstring hbool hchar hident =>
    refine Reads.fail ⟨_, _, rfl⟩ fun x k rest' h _ _ => ?_
    have hhead := Operand.head_eq h
    rcases x with ⟨_ | _⟩ | _ | _ | _ | _
    · exact hint _ hhead.symm
    · exact hfloat _ hhead.symm
    · exact hstring _ hhead.symm
    · exact hbool _ hhead.symm
    · exact hchar _ hhead.symm
    · exact hident _ hhead.symm

/-- The operands read so far, and the node that unites them. -/
structure United (a : Arena) (operands : List Operand) (n : NodeId) (r : Reading σ) : Prop where
  keeps : a.Keeps [] r.arena
  lt_size : n < r.arena.size
  unites : r.arena.Unites operands n

theorem Leaf.united {a : Arena} {x : Operand} {n : NodeId} (h : Leaf a (x.kind none) n r) :
    United a [x] n r :=
  ⟨h.keeps, h.hasKind.1, [n], [], .operand n, .cons h.hasKind .nil⟩

/-- One operand more. -/
theorem United.snoc {a : Arena} {operands : List Operand} {x : Operand} {value right : NodeId}
    {r' : Reading σ} (h : United a operands value r) (hx : Leaf r.arena (x.kind none) right r')
    (script : NodeId) (position : Position) :
    United a (operands ++ [x]) (r'.arena.newUnion script value right position).1
      (rebuild r' (r'.arena.newUnion script value right position).2) := by
  have hnew := keeps_newUnion r'.arena script position value right
  obtain ⟨leaves, unions, hchain, hleaves⟩ :=
    (h.unites.keep hx.keeps fun _ hm => absurd hm List.not_mem_nil).keep hnew
      fun _ hm => absurd hm List.not_mem_nil
  have hunion := ((hasKind_alloc r'.arena "" (some script) position (.union value right)).adopt
    r'.arena.size value).adopt r'.arena.size right
  refine ⟨h.keeps.quiet (hx.keeps.quiet hnew), hunion.1, leaves ++ [right], unions ++ [r'.arena.size],
    .union hchain hunion (Nat.lt_of_lt_of_le h.lt_size hx.newer) hx.hasKind.1, ?_⟩
  exact List.rel_append hleaves (.cons (hx.hasKind.keep hnew List.not_mem_nil) .nil)

/-- The operands after the first one. -/
theorem reads_unionTail {a : Arena} : ∀ (fuel : Nat) (operands : List Operand) (value : NodeId)
    (r : Reading σ) (ks : List TokenKind), United a operands value r → Faces cx r ks →
    TokenKind.count ks < fuel → Reads (unionTail cx fuel value) r ks
      (fun xs : List Operand => xs.flatMap fun x => .char '|' :: x.tokens)
      (fun _ => Stops ['.', '|']) (fun _ => True) fun xs => United a (operands ++ xs)
  | 0, _, _, _, _, _, _, hfuel => absurd hfuel (Nat.not_lt_zero _)
  | fuel + 1, operands, value, r, ks, hu, hr, hfuel => by
    apply Reads.convert
    · apply Reads.look_bind hr TokenKind.noConfusion
      · intro bar feed comments rest hks hr₁
        rw [hks, TokenKind.count_cons TokenKind.noConfusion] at hfuel
        apply Reads.bind hr₁ (reads_operand (a := r.arena) hr₁ rfl)
        · intro x right r₂ rest' hrest hr₂ _ hx
          rw [hrest, TokenKind.count_append] at hfuel
          apply Reads.build_bind hr₂
          intro hr₃
          exact reads_unionTail (a := a) fuel (operands ++ [x]) _ _ rest' (hu.snoc hx ..) hr₃
            (by omega)
        · intro x xs k hF
          cases xs with
          | nil => exact hF.mono (by simp)
          | cons y ys => exact stops_char (by simp)
      · intro bar feed comments hr₁
        exact Reads.pure (F := Stops ['.', '|']) (Q := United a operands) hr₁.spells
          ⟨hu.keeps, hu.lt_size, hu.unites⟩
    · rintro (⟨x, xs⟩ | _) _
      · exact ⟨x :: xs, by simp, trivial, by simp⟩
      · exact ⟨[], rfl, trivial, by simp⟩
    · rintro (_ | ⟨x, xs⟩) k rest hks hF _
      · exact ⟨.inr (), rfl, ⟨hF, hF '|' (by simp)⟩, trivial, by simp⟩
      · exact ⟨.inl (x, xs), by simp, hF, ⟨trivial, trivial⟩, by simp⟩

theorem reads_argument {a : Arena} (hr : Faces cx r ks) (ha : r.arena = a) :
    Reads (argument cx) r ks Arg.tokens (fun _ => Stops ['.', '|'])
      (fun _ => True) fun arg n r' => a.Keeps [] r'.arena ∧ r'.arena.IsArg arg n := by
  apply Reads.convert
  · apply Reads.bind hr (reads_operand (a := a) hr ha)
    · intro x value r₁ rest _ hr₁ _ hx
      exact reads_unionTail (a := a) cx.budget [x] value r₁ rest hx.united hr₁ hr₁.covered
    · intro x xs k hF
      cases xs with
      | nil => exact hF.mono (by simp)
      | cons y ys => exact stops_char (by simp)
  · rintro ⟨x, xs⟩ _
    exact ⟨⟨x, xs⟩, rfl, trivial, fun _ _ h => ⟨h.keeps, h.unites⟩⟩
  · rintro ⟨x, xs⟩ k rest _ hF _
    exact ⟨(x, xs), rfl, hF, ⟨trivial, trivial⟩, fun _ _ h => ⟨h.keeps, h.unites⟩⟩

/-- The labelled arguments read so far. -/
structure Labelled (a : Arena) (args : Nat) (written : List (String × Arg)) (r : Reading σ) : Prop where
  keeps : a.Keeps [] r.arena
  above : a.size ≤ args
  labels : r.arena.LabelsArgs written args
  nodup : (written.map (·.1)).Nodup

/-- The positional arguments read so far. -/
structure Listed (a : Arena) (args : Nat) (written : List Arg) (r : Reading σ) : Prop where
  keeps : a.Keeps [] r.arena
  above : a.size ≤ args
  lists : r.arena.ListsArgs written args

theorem reads_namedArgument {a : Arena} {args : Nat} {written : List (String × Arg)}
    (hr : Faces cx r ks) (h : Labelled a args written r) :
    Reads (namedArgument cx args) r ks (Reads.withComma labelledTokens)
      (fun x k => x.2 = false → Stops ['.', '|'] k ∧ k ≠ .char ',')
      (fun x => ((written ++ [x.1]).map (·.1)).Nodup ∧ True)
      fun x more r' => more = x.2 ∧ Labelled a args (written ++ [x.1]) r' := by
  refine Reads.next_bind hr fun label feed comments rest hks hr₁ _ => ?_
  subst hks
  split
  · rename_i name hkind
    rw [hkind] at hr₁ ⊢
    have hr₂ := hr₁ TokenKind.noConfusion
    have hnodup : ∀ arg : Arg, ((written ++ [(name, arg)]).map (·.1)).Nodup ↔
        (written.map (·.1)).Nodup ∧ name ∉ written.map (·.1) := fun arg => by
      rw [List.map_append, List.map_singleton]
      exact nodup_snoc
    refine Reads.prepend [.label name] (Reads.bind hr₂ (reads_argument (a := r.arena) hr₂ rfl)
      (fun arg value r₂ rest' _ hr₂ _ hq => Reads.unique_bind hr₂
        ((h.labels.keep hq.1 fun _ hm => absurd hm List.not_mem_nil).enters hq.2)
        fun _ b hnew hb hr₃ => Reads.comma_attachComments (E := Stops ['.', '|'])
          (P := Labelled a args (written ++ [(name, arg)])) hr₃ fun r' hk' => ?_) ?_) ?_ ?_
    · exact ⟨((h.keeps.quiet hq.1).above hb.1 h.above).quiet hk', h.above,
        hb.2.keep hk' fun _ hm => absurd hm List.not_mem_nil, (hnodup arg).2 ⟨h.nodup, hnew⟩⟩
    · intro arg more k hF
      cases more
      · exact (hF rfl).1
      · exact stops_char (by simp)
    · rintro ⟨arg, more⟩ ⟨-, hnew, -⟩
      exact ⟨((name, arg), more), by simp [Reads.withComma, labelledTokens],
        ⟨(hnodup arg).2 ⟨h.nodup, hnew⟩, trivial⟩, fun _ _ h => h⟩
    · rintro ⟨⟨name', arg⟩, more⟩ k rest' hks hF ⟨hG, -⟩
      obtain rfl : name = name' := TokenKind.label.inj (List.cons.inj hks).1
      exact ⟨(arg, more), by simp [Reads.withComma, labelledTokens], hF,
        ⟨trivial, ((hnodup arg).1 hG).2, trivial⟩, fun _ _ h => h⟩
  · rename_i hlabel
    exact Reads.fail ⟨_, _, rfl⟩ fun x k rest' hks _ _ => hlabel _ (List.cons.inj hks).1

theorem reads_positionalArgument {a : Arena} {args : Nat} {written : List Arg} (hr : Faces cx r ks)
    (h : Listed a args written r) :
    Reads (positionalArgument cx args) r ks (Reads.withComma Arg.tokens)
      (fun x k => x.2 = false → Stops ['.', '|'] k ∧ k ≠ .char ',')
      (fun _ => True ∧ True) fun x more r' => more = x.2 ∧ Listed a args (written ++ [x.1]) r' := by
  refine (Reads.bind hr (reads_argument (a := r.arena) hr rfl)
    (fun arg value r₁ rest _ hr₁ _ hq => Reads.build_bind hr₁ fun hr₂ =>
      Reads.comma_attachComments (E := Stops ['.', '|']) (P := Listed a args (written ++ [arg])) hr₂
        fun r' hk' => ?_) ?_).convert ?_ ?_
  · exact ⟨((h.keeps.quiet hq.1).above (keeps_pushArg ..) h.above).quiet hk', h.above,
      ((h.lists.keep hq.1 fun _ hm => absurd hm List.not_mem_nil).push hq.2).keep hk'
        fun _ hm => absurd hm List.not_mem_nil⟩
  · intro arg more k hF
    cases more
    · exact (hF rfl).1
    · exact stops_char (by simp)
  · rintro ⟨arg, more⟩ -
    exact ⟨(arg, more), rfl, ⟨trivial, trivial⟩, fun _ _ h => h⟩
  · rintro ⟨arg, more⟩ k rest _ hF -
    exact ⟨(arg, more), rfl, hF, ⟨trivial, trivial⟩, fun _ _ h => h⟩

theorem reads_labelled {a : Arena} {args : Nat} (hr : Faces cx r ks) (h : Labelled a args [] r) :
    Reads (repeatWhile (namedArgument cx args) cx.budget) r ks
      (Chain.tokens ',' labelledTokens) (fun _ k => Stops ['.', '|'] k ∧ k ≠ .char ',')
      (fun args => (args.items.map (·.1)).Nodup) fun c _ r' => Labelled a args c.items r' := by
  refine (Reads.chain (fun x : String × Arg => [x]) (fun _ => True)
    (fun written => (written.map (·.1)).Nodup) (Labelled a args)
    (fun written r ks hi hr => reads_namedArgument hr hi) (fun xs ys h => ?_) [] h hr).convert ?_ ?_
  · rw [List.map_append] at h
    exact (List.nodup_append.1 h).1
  · exact fun c hG => ⟨c, rfl, by simpa using hG.1, by simp⟩
  · exact fun c k rest _ hF hG => ⟨c, rfl, hF, ⟨by simpa using hG, fun _ _ => trivial⟩, by simp⟩

theorem reads_listed {a : Arena} {args : Nat} (hr : Faces cx r ks) (h : Listed a args [] r) :
    Reads (repeatWhile (positionalArgument cx args) cx.budget) r ks
      (Chain.tokens ',' Arg.tokens) (fun _ k => Stops ['.', '|'] k ∧ k ≠ .char ',')
      (fun _ => True) fun c _ r' => Listed a args c.items r' := by
  refine (Reads.chain (fun x : Arg => [x]) (fun _ => True) (fun _ => True) (Listed a args)
    (fun written r ks hi hr => reads_positionalArgument hr hi) (fun _ _ _ => trivial) [] h
    hr).convert ?_ ?_
  · exact fun c _ => ⟨c, rfl, trivial, by simp⟩
  · exact fun c k rest _ hF _ => ⟨c, rfl, hF, ⟨trivial, fun _ _ => trivial⟩, by simp⟩

/-- The first token of the arguments of an attribute, up to the parenthesis after them. -/
theorem Args.head_cases (args : Args) {kind : TokenKind} {rest rest' : List TokenKind}
    (h : kind :: rest = args.tokens ++ .char ')' :: rest') :
    match args with
    | .empty => kind = .char ')'
    | .labelled _ => ∃ name, kind = .label name
    | .listed _ => kind ≠ .char ')' ∧ ∀ name, kind ≠ .label name := by
  cases args with
  | empty => exact (List.cons.inj h).1
  | labelled args => exact ⟨args.first.1, (List.cons.inj h).1⟩
  | listed args =>
    obtain rfl : kind = Operand.head args.first.first := by
      simp only [Args.tokens, Chain.tokens, Arg.tokens, List.append_assoc] at h
      obtain ⟨⟨x, xs⟩, args⟩ := args
      cases x <;> exact (List.cons.inj h).1
    rcases args with ⟨⟨⟨_ | _⟩ | _ | _ | ⟨_ | _, _⟩ | _, _⟩, _⟩ <;>
      simp [Operand.head, Number.token]

theorem reads_arguments {a : Arena} (hr : Faces cx r ks) (ha : r.arena = a) :
    Reads (arguments cx) r ks Args.tokens (fun _ k => k = .char ')') Args.WellFormed
      fun written args r' => a.Keeps [] r'.arena ∧ r'.arena.IsArgs written args := by
  subst ha
  refine Reads.peek_bind hr fun token feed comments rest hks hr₁ => ?_
  split
  · rename_i hkind
    rw [hkind] at hks
    refine (Reads.pure (F := fun k => k = .char ')') (Q := fun args r' => r.arena.Keeps [] r'.arena ∧
      r'.arena.IsArgs .empty args) hr₁.spells ⟨Keeps.refl .., rfl⟩).convert ?_ ?_
    · exact fun _ _ => ⟨.empty, rfl, trivial, fun _ _ h => h⟩
    · rintro args k rest' h rfl _
      have hhead := Args.head_cases args (hks ▸ h)
      cases args <;> simp at hhead
      exact ⟨(), rfl, rfl, trivial, fun _ _ h => h⟩
  · rename_i name hkind
    rw [hkind] at hks
    apply Reads.convert
    · apply Reads.build_bind hr₁
      intro hr₂
      exact (reads_labelled (a := r.arena) hr₂ ⟨Keeps.alloc .., Nat.le_refl _,
        labels_newNamedArgs .., List.nodup_nil⟩).finish (R := fun c args r' =>
          r.arena.Keeps [] r'.arena ∧ r'.arena.IsArgs (.labelled c) args) fun _ _ r₁ h =>
            ⟨_, r₁, rfl, rfl, h.keeps, _, rfl, h.labels⟩
    · exact fun args hG => ⟨.labelled args, rfl, hG, fun _ _ h => h⟩
    · rintro args k rest' h rfl hG
      have hhead := Args.head_cases args (hks ▸ h)
      cases args with
      | empty => cases hhead
      | labelled args => exact ⟨args, rfl, ⟨stops_char (by simp), by simp⟩, hG, fun _ _ h => h⟩
      | listed args => exact absurd rfl (hhead.2 name)
  · rename_i hclose hlabel
    apply Reads.convert
    · apply Reads.build_bind hr₁
      intro hr₂
      exact (reads_listed (a := r.arena) hr₂ ⟨Keeps.alloc .., Nat.le_refl _, lists_newArgs ..⟩).finish
        (R := fun c args r' => r.arena.Keeps [] r'.arena ∧ r'.arena.IsArgs (.listed c) args)
        fun _ _ r₁ h => ⟨_, r₁, rfl, rfl, h.keeps, _, rfl, h.lists⟩
    · exact fun args hG => ⟨.listed args, rfl, hG, fun _ _ h => h⟩
    · rintro args k rest' h rfl hG
      have hhead := Args.head_cases args (hks ▸ h)
      cases args with
      | empty => exact absurd hhead hclose
      | labelled args =>
        obtain ⟨name, hname⟩ := hhead
        exact absurd hname (hlabel name)
      | listed args => exact ⟨args, rfl, ⟨stops_char (by simp), by simp⟩, trivial, fun _ _ h => h⟩

/-! ## Attributes -/

/-- The attributes read so far wait, with nodes that say what is written. -/
structure Dresses (a : Arena) (attrs : List Attr) (r : Reading σ) : Prop where
  keeps : a.Keeps [] r.arena
  nodes : ∀ attr ∈ attrs, ∃ n ∈ r.attrs, r.arena.IsAttr attr n

theorem Dresses.keep {a : Arena} {attrs : List Attr} {r' : Reading σ} (h : Dresses a attrs r)
    (hk : r.arena.Keeps [] r'.arena) (hattrs : r'.attrs = r.attrs) : Dresses a attrs r' where
  keeps := h.keeps.quiet hk
  nodes attr hattr := by
    obtain ⟨n, hn, h⟩ := h.nodes attr hattr
    exact ⟨n, hattrs ▸ hn, h.keep hk fun _ hm => absurd hm List.not_mem_nil⟩

theorem Dresses.retake {a : Arena} {attrs : List Attr} (h : Dresses a attrs r) (feed : Feed)
    (comments : List Comment) : Dresses a attrs (retake r feed comments) :=
  ⟨h.keeps, h.nodes⟩

/-- An attribute more waits. -/
theorem Dresses.hold {a : Arena} {attrs : List Attr} {attr : Attr} {n : NodeId} (h : Dresses a attrs r)
    (hattr : r.arena.IsAttr attr n) :
    Dresses a (attrs ++ [attr]) { r with attrs := r.attrs ++ [n] } where
  keeps := h.keeps
  nodes x hx := by
    rcases List.mem_append.1 hx with hx | hx
    · obtain ⟨m, hm, hnode⟩ := h.nodes x hx
      exact ⟨m, List.mem_append_left _ hm, hnode⟩
    · obtain rfl := List.mem_singleton.1 hx
      exact ⟨n, List.mem_append_right _ (List.mem_singleton_self n), hattr⟩

theorem reads_finishAttr {a : Arena} {attrs : List Attr} {attr : Attr} {node : NodeId}
    {F : TokenKind → Prop} (hr : Faces cx r ks) (h : Dresses a attrs r)
    (hattr : r.arena.IsAttr attr node) :
    Reads (do
      attachComments node
      holdAttr node
      pure true) r ks (fun _ : Unit => []) (fun _ => F) (fun _ => True)
      fun _ more r' => more = true ∧ Dresses a (attrs ++ [attr]) r' := by
  apply Reads.attachComments_bind hr
  intro r₁ hr₁ hk hattrs
  have h₁ := (h.keep hk hattrs).hold (hattr.keep hk fun _ hm => absurd hm List.not_mem_nil)
  exact Reads.follow (bind_ok rfl) (Reads.pure (r := { r₁ with attrs := r₁.attrs ++ [node] })
    hr₁.spells ⟨rfl, h₁⟩)

theorem reads_attr {a : Arena} {attrs : List Attr} (hr : Faces cx r ks) (h : Dresses a attrs r) :
    Reads (attr cx) r ks (Sum.elim Attr.tokens fun _ : Unit => [])
      (Sum.elim (fun _ => Stops ['.', '(']) fun _ => Stops ['.', '(', '@'])
      (Sum.elim Attr.WellFormed fun _ => True)
      (Sum.elim (fun attr more r' => more = true ∧ Dresses a (attrs ++ [attr]) r')
        fun _ more r' => more = false ∧ Dresses a attrs r') := by
  apply Reads.convert
  · apply Reads.look_bind hr TokenKind.noConfusion
    · intro sign feed comments rest hks hr₁
      apply Reads.bind hr₁ ((reads_typeRef (a := r.arena) hr₁ rfl).also (paces_keepsWaiting.typeRef _))
      · rintro type n r₂ rest₂ _ hr₂ _ ⟨⟨⟨hk₂, -, htype⟩, -⟩, hattrs₂⟩
        have hk₃ := keeps_newAttr r₂.arena cx.script sign.position n
        have h₃ : Dresses a attrs (rebuild r₂ (r₂.arena.newAttr cx.script n sign.position).2) :=
          h.keep (hk₂.quiet hk₃) hattrs₂
        have hattr := hasKind_newAttr r₂.arena cx.script n sign.position
        have htype := htype.keep hk₃ List.not_mem_nil
        apply Reads.build_bind hr₂
        intro hr₃
        apply Reads.matchChar_bind hr₃
        · intro feed₄ comments₄ rest₄ _ hr₄
          dsimp only
          rw [if_pos rfl]
          apply Reads.bind hr₄ ((reads_arguments (a := (r₂.arena.newAttr cx.script n
            sign.position).2) hr₄ rfl).also (paces_keepsWaiting.arguments _))
          · rintro args value r₅ rest₅ _ hr₅ _ ⟨⟨hk₅, hargs⟩, hattrs₅⟩
            have hattr := hattr.keep hk₅ List.not_mem_nil
            have htype := htype.keep hk₅ List.not_mem_nil
            cases value with
            | none =>
              apply Reads.expectChar_bind hr₅
              intro feed₆ comments₆ rest₆ _ hr₆
              have hbare : r₅.arena.IsAttr ⟨type, some args⟩ r₂.arena.size :=
                ⟨n, none, hattr, htype, hargs⟩
              exact reads_finishAttr (F := fun _ => True) hr₆ ((h₃.keep hk₅ hattrs₅).retake ..) hbare
            | some value =>
              apply Reads.build_bind hr₅
              intro hr₆
              apply Reads.expectChar_bind hr₆
              intro feed₇ comments₇ rest₇ _ hr₇
              have hk₆ := keeps_setAttrArgs r₅.arena r₂.arena.size value
              have h₇ : Dresses a attrs (rebuild r₅ (r₅.arena.setAttrArgs r₂.arena.size value)) :=
                h.keep (((hk₂.quiet hk₃).quiet hk₅).above hk₆ hk₂.size_le) (hattrs₅.trans hattrs₂)
              exact reads_finishAttr (F := fun _ => True) hr₇ (h₇.retake ..)
                (isAttr_setAttrArgs hattr htype hargs)
          · exact fun _ _ _ _ => rfl
        · intro feed₄ comments₄ hr₄
          have hbare : (r₂.arena.newAttr cx.script n sign.position).2.IsAttr ⟨type, none⟩ r₂.arena.size :=
            ⟨n, none, hattr, htype, rfl⟩
          exact reads_finishAttr (F := Stops ['.', '(']) hr₄ (h₃.retake ..) hbare
      · rintro type (⟨args, _⟩ | _) k hF
        · exact stops_char (by simp)
        · exact hF.1.mono (by simp)
    · intro sign feed comments hr₁
      exact Reads.pure (F := Stops ['.', '(', '@'])
        (Q := fun more r' => more = false ∧ Dresses a attrs r') hr₁.spells ⟨rfl, h.keeps, h.nodes⟩
  · rintro (⟨type, ⟨args, _⟩ | _⟩ | _) hG
    · exact ⟨.inl ⟨type, some args⟩, by simp [Attr.tokens], by simpa [Attr.WellFormed] using hG,
        fun _ _ h => h⟩
    · exact ⟨.inl ⟨type, none⟩, by simp [Attr.tokens], by simp [Attr.WellFormed], fun _ _ h => h⟩
    · exact ⟨.inr (), rfl, trivial, fun _ _ h => h⟩
  · rintro (⟨type, _ | args⟩ | _) k rest _ hF hG
    · exact ⟨.inl (type, .inr ()), by simp [Attr.tokens], ⟨hF, hF '(' (by simp)⟩, by simp,
        fun _ _ h => h⟩
    · exact ⟨.inl (type, .inl (args, ())), by simp [Attr.tokens], trivial,
        by simpa [Attr.WellFormed] using hG, fun _ _ h => h⟩
    · exact ⟨.inr (), rfl, ⟨hF, hF '@' (by simp)⟩, trivial, fun _ _ h => h⟩

/-- Attributes, one after the other. -/
theorem reads_attributes {a : Arena} (hr : Faces cx r ks) (ha : r.arena = a) :
    Reads (attributes cx) r ks (fun attrs : List Attr => attrs.flatMap Attr.tokens)
      (fun _ => Stops ['.', '(', '@']) (fun attrs => ∀ attr ∈ attrs, attr.WellFormed)
      fun attrs _ r' => Dresses a attrs r' := by
  have hstep : ∀ (attrs : List Attr) (r : Reading σ) (ks : List TokenKind), Dresses a attrs r →
      Faces cx r ks →
      Reads (attr cx) r ks (Sum.elim Attr.tokens fun _ : Unit => [])
        (Sum.elim (fun _ => Stops ['.', '(']) fun _ => Stops ['.', '(', '@'])
        (Sum.elim (fun attr => True ∧ attr.WellFormed) fun _ => True ∧ True)
        (Sum.elim (fun attr more r' => more = true ∧ Dresses a (attrs ++ [attr]) r')
          fun _ more r' => more = false ∧ Dresses a (attrs ++ []) r') := by
    intro attrs r ks h hr
    simpa only [true_and, List.append_nil] using reads_attr hr h
  refine (Reads.repeatWhile (fun attr => [attr]) (fun _ => []) Attr.WellFormed (fun _ => True)
    (fun _ => True) (Dresses a) (Dresses a) hstep (fun attr => ?_) (fun _ attr k => ?_)
    (fun _ _ k hF => hF.mono (by simp)) (fun _ _ _ => trivial) cx.budget [] r ks
    ⟨ha ▸ Keeps.refl .., List.forall_mem_nil _⟩ hr hr.covered).convert ?_ ?_
  · simp [Attr.tokens, TokenKind.count]
  · exact stops_char (by simp)
  · exact fun x hG => ⟨x.1, by simp, hG.2.1, by simp⟩
  · exact fun attrs k rest _ hF hG => ⟨(attrs, ()), by simp, hF, ⟨trivial, hG, trivial⟩, by simp⟩

/-! ## Types -/

/-- The node of a type is what the type says. -/
abbrev Typed (a : Arena) (type : TypeExpr) (n : Nat) (r' : Reading σ) : Prop :=
  Made a type.isSequence type.isComposite n r'

theorem reads_arrayLength {a : Arena} (hr : Faces cx r ks) (ha : r.arena = a) :
    Reads arrayLength r ks (fun length : Option Int64 => (length.map TokenKind.int).toList)
      (fun length k => length = none → ∀ value, k ≠ .int value)
      (fun length => ∀ value ∈ length, 1 ≤ value.toInt ∧ value.toInt ≤ 65535)
      fun length x r' => x.isSome = length.isSome ∧ r'.arena = a := by
  refine Reads.peek_bind hr fun literal feed comments rest hks hr₁ => ?_
  split
  · rename_i value hkind
    rw [hkind] at hks
    subst hks
    obtain ⟨feed', hadvance, hs⟩ := advance_of_spells hr₁.spells TokenKind.noConfusion
    refine Reads.follow (bind_ok hadvance) ?_
    have hvalue : ∀ (length : Option Int64) k rest',
        TokenKind.int value :: rest = (length.map TokenKind.int).toList ++ k :: rest' →
        (length = none → ∀ value, k ≠ .int value) → length = some value := by
      rintro (_ | value') k rest' h hF
      · exact absurd (List.cons.inj h).1.symm (hF rfl value)
      · rw [TokenKind.int.inj (List.cons.inj h).1]
    split
    · rename_i hrange
      refine Reads.prepend [.int value] (Reads.pure (F := fun _ => True)
        (Q := fun x r' => x.isSome = true ∧ r'.arena = a) hs ⟨rfl, ha⟩) ?_ ?_
      · exact fun _ _ => ⟨some value, rfl, by simpa using hrange, fun _ _ h => h⟩
      · intro length k rest' h hF _
        obtain rfl := hvalue length k rest' h hF
        exact ⟨(), rfl, trivial, trivial, fun _ _ h => h⟩
    · rename_i hrange
      refine Reads.fail ⟨_, _, rfl⟩ fun length k rest' h hF hG => ?_
      obtain rfl := hvalue length k rest' h hF
      exact hrange (hG value rfl)
  · rename_i hkind
    refine (Reads.pure (F := fun k => ∀ value, k ≠ .int value)
      (Q := fun x r' => x.isSome = false ∧ r'.arena = a) hr₁.spells ⟨rfl, ha⟩).convert ?_ ?_
    · exact fun _ _ => ⟨none, rfl, by simp, fun _ _ h => h⟩
    · rintro (_ | value) k rest' h hF _
      · exact ⟨(), rfl, hF rfl, trivial, fun _ _ h => h⟩
      · rw [hks] at h
        exact absurd (List.cons.inj h).1 (hkind value)

theorem reads_builtinRef {a : Arena} {F : TokenKind → Prop} (hr : Faces cx r ks)
    (ha : r.arena = a) (name : String) (position : Position) :
    Reads (builtinRef cx name position) r ks (fun _ : Unit => []) (fun _ => F) (fun _ => True)
      fun _ n r' => Leaf a (.typeRef ⟨(Ref.builtin cx.package name).items, none⟩) n r' := by
  subst ha
  unfold builtinRef
  rw [Ref.items_builtin]
  exact Reads.build (Q := Leaf r.arena _) hr (leaf_alloc ..)

/-- The first token of a type. -/
def TypeExpr.head : TypeExpr → TokenKind
  | .array .. | .list _ => .char '['
  | .map .. => .keyword .map
  | .scalar word => .keyword word.1
  | .ref path => .ident path.first

theorem TypeExpr.head_eq {x : TypeExpr} {kind k : TokenKind} {rest rest' : List TokenKind}
    (h : kind :: rest = x.tokens ++ k :: rest') : TypeExpr.head x = kind := by
  cases x <;> exact (List.cons.inj h).1.symm

theorem TypeExpr.stops (x : TypeExpr) (ts : List TokenKind) (k : TokenKind) {cs : List Char}
    (h : '[' ∉ cs) : Stops cs ((x.tokens ++ ts).headD k) := by
  cases x with
  | array | list => exact stops_char h
  | map | scalar => exact fun _ _ => TokenKind.noConfusion
  | ref path => exact stops_ident _ _

/-- An array or a list, after its bracket. -/
theorem reads_sequence {a : Arena} {rest : List TokenKind} {inner : Parse σ NodeId}
    (hr : Faces cx r rest) (ha : r.arena = a) (position : Position)
    (hinner : ∀ (r' : Reading σ) ks', Faces cx r' ks' →
      TokenKind.count ks' ≤ TokenKind.count rest →
      Reads inner r' ks' TypeExpr.tokens (fun _ => Stops ['.']) TypeExpr.WellFormed
        (Typed r'.arena)) :
    Reads (do
      let length ← arrayLength
      expectChar ']'
      let element ← inner
      if ← inspect fun arena => (arena.kind element).isSequence then
        failAt position (.nestedComposite .element)
      else
        match length with
        | some length => build fun arena => arena.newArray cx.script length element position
        | none => build fun arena => arena.newList cx.script element position)
      r (.char '[' :: rest) TypeExpr.tokens (fun _ => Stops ['.']) TypeExpr.WellFormed
      (Typed a) := by
  subst ha
  apply Reads.prepend [.char '[']
  · apply Reads.bind hr (reads_arrayLength (a := r.arena) hr rfl)
    · intro length size r₁ rest₁ hrest₁ hr₁ _ hsize
      apply Reads.expectChar_bind hr₁
      intro feed₂ comments₂ rest₂ hrest₂ hr₂
      have hle : TokenKind.count rest₂ ≤ TokenKind.count rest := by
        rw [hrest₁, hrest₂, TokenKind.count_append, TokenKind.count_cons TokenKind.noConfusion]
        omega
      apply Reads.bind hr₂ (hinner _ rest₂ hr₂ hle)
      · intro type element r₃ rest₃ _ hr₃ _ ht
        have hk : r.arena.Keeps [] r₃.arena := hsize.2 ▸ ht.keeps
        apply Reads.refuse_bind ht.hasKind.2.1
        intro _
        cases size with
        | some size =>
          exact Reads.build (F := Stops ['.']) (Q := Made r.arena true true) hr₃
            ⟨hk.quiet (keeps_newArray ..), ((hasKind_alloc ..).adopt _ _).mono
              (by rintro _ rfl; exact ⟨rfl, rfl⟩)⟩
        | none =>
          exact Reads.build (F := Stops ['.']) (Q := Made r.arena true true) hr₃
            ⟨hk.quiet (keeps_newList ..), ((hasKind_alloc ..).adopt _ _).mono
              (by rintro _ rfl; exact ⟨rfl, rfl⟩)⟩
      · exact fun _ _ k hF => hF
    · exact fun length _ _ _ _ => by simp
  · rintro ⟨_ | length, type, _⟩ ⟨hlength, htype, hflat, -⟩
    · exact ⟨.list type, by simp [TypeExpr.tokens], ⟨htype, hflat⟩, fun _ _ h => h⟩
    · exact ⟨.array length type, by simp [TypeExpr.tokens], ⟨hlength length rfl, htype, hflat⟩,
        fun _ _ h => h⟩
  · intro x k rest' h hF hG
    have hhead := TypeExpr.head_eq h
    cases x with
    | array length type =>
      exact ⟨(some length, type, ()), by simp [TypeExpr.tokens], hF,
        ⟨by simpa using hG.1, hG.2.1, hG.2.2, trivial⟩, fun _ _ h => h⟩
    | list type =>
      exact ⟨(none, type, ()), by simp [TypeExpr.tokens], hF, ⟨by simp, hG.1, hG.2, trivial⟩,
        fun _ _ h => h⟩
    | map | scalar | ref => cases hhead

/-- A map, after its keyword. -/
theorem reads_map {a : Arena} {rest : List TokenKind} {inner : Parse σ NodeId}
    (hr : Faces cx r rest) (ha : r.arena = a) (position : Position)
    (hinner : ∀ (r' : Reading σ) ks', Faces cx r' ks' →
      TokenKind.count ks' ≤ TokenKind.count rest →
      Reads inner r' ks' TypeExpr.tokens (fun _ => Stops ['.']) TypeExpr.WellFormed
        (Typed r'.arena)) :
    Reads (do
      expectChar '['
      let key ← inner
      if ← inspect fun arena => (arena.kind key).isComposite then
        failAt position (.nestedComposite .mapKey)
      else
        expectChar ']'
        let value ← inner
        if ← inspect fun arena => (arena.kind value).isComposite then
          failAt position (.nestedComposite .mapValue)
        else build fun arena => arena.newMap cx.script key value position)
      r (.keyword .map :: rest) TypeExpr.tokens (fun _ => Stops ['.']) TypeExpr.WellFormed
      (Typed a) := by
  subst ha
  apply Reads.prepend [.keyword .map]
  · apply Reads.expectChar_bind hr
    intro feed₁ comments₁ rest₁ hrest₁ hr₁
    have hle₁ : TokenKind.count rest₁ ≤ TokenKind.count rest := by
      rw [hrest₁, TokenKind.count_cons TokenKind.noConfusion]
      omega
    apply Reads.bind hr₁ (hinner _ rest₁ hr₁ hle₁)
    · intro keyType key r₂ rest₂ hrest₂ hr₂ _ hkey
      apply Reads.refuse_bind hkey.hasKind.2.2
      intro _
      apply Reads.expectChar_bind hr₂
      intro feed₃ comments₃ rest₃ hrest₃ hr₃
      have hle₃ : TokenKind.count rest₃ ≤ TokenKind.count rest := by
        rw [hrest₂, hrest₃, TokenKind.count_append, TokenKind.count_cons TokenKind.noConfusion]
          at hle₁
        omega
      apply Reads.bind hr₃ (hinner _ rest₃ hr₃ hle₃)
      · intro valueType value r₄ rest₄ _ hr₄ _ hvalue
        apply Reads.refuse_bind hvalue.hasKind.2.2
        intro _
        exact Reads.build (F := Stops ['.']) (Q := Made r.arena false true) hr₄
          ⟨(hkey.keeps.quiet hvalue.keeps).quiet (keeps_newMap ..),
            (((hasKind_alloc ..).adopt _ _).adopt _ _).mono (by rintro _ rfl; exact ⟨rfl, rfl⟩)⟩
      · exact fun _ _ k hF => hF
    · exact fun _ _ _ _ => stops_char (by simp)
  · rintro ⟨keyType, valueType, _⟩ ⟨hkey, hflat, hvalue, hflat', -⟩
    exact ⟨.map keyType valueType, by simp [TypeExpr.tokens], ⟨⟨hkey, hflat⟩, hvalue, hflat'⟩,
      fun _ _ h => h⟩
  · intro x k rest' h hF hG
    have hhead := TypeExpr.head_eq h
    cases x with
    | map keyType valueType =>
      exact ⟨(keyType, valueType, ()), by simp [TypeExpr.tokens], hF,
        ⟨hG.1.1, hG.1.2, hG.2.1, hG.2.2, trivial⟩, fun _ _ h => h⟩
    | scalar word =>
      have hword := word.2
      rw [show word.1 = Keyword.map from TokenKind.keyword.inj hhead] at hword
      cases hword
    | array | list | ref => cases hhead

theorem reads_typeWithin {a : Arena} : ∀ (fuel : Nat) (r : Reading σ) (ks : List TokenKind),
    Faces cx r ks → r.arena = a → TokenKind.count ks < fuel →
    Reads (typeWithin cx fuel) r ks TypeExpr.tokens (fun _ => Stops ['.']) TypeExpr.WellFormed
      (Typed a)
  | 0, _, _, _, _, hfuel => absurd hfuel (Nat.not_lt_zero _)
  | fuel + 1, r, ks, hr, ha, hfuel => by
    subst ha
    refine Reads.next_bind hr fun token feed comments rest hks hr₁ _ => ?_
    split
    · rename_i hkind
      rw [hkind] at hks hr₁
      subst hks
      rw [TokenKind.count_cons TokenKind.noConfusion] at hfuel
      exact reads_sequence (hr₁ TokenKind.noConfusion) rfl token.position fun r' ks' hr' hle =>
        reads_typeWithin fuel r' ks' hr' rfl (by omega)
    · rename_i hkind
      rw [hkind] at hks hr₁
      subst hks
      rw [TokenKind.count_cons TokenKind.noConfusion] at hfuel
      exact reads_map (hr₁ TokenKind.noConfusion) rfl token.position fun r' ks' hr' hle =>
        reads_typeWithin fuel r' ks' hr' rfl (by omega)
    · rename_i word hmap hkind
      rw [hkind] at hks hr₁
      subst hks
      split
      · rename_i name hname
        have hscalar : word.category = .scalar := by simp [Keyword.category, hname]
        refine Reads.prepend [.keyword word] (reads_builtinRef (a := r.arena)
          (F := Stops ['.']) (hr₁ TokenKind.noConfusion) rfl name token.position) ?_ ?_
        · exact fun _ _ => ⟨.scalar ⟨word, hscalar⟩, rfl, trivial, fun _ _ h => h.made⟩
        · intro x k rest' h hF _
          have hhead := TypeExpr.head_eq h
          cases x with
          | scalar word' =>
            obtain rfl : word'.1 = word := TokenKind.keyword.inj hhead
            exact ⟨(), rfl, hF, trivial, fun _ _ h => h.made⟩
          | map key value =>
            obtain rfl : Keyword.map = word := TokenKind.keyword.inj hhead
            cases hname
          | array | list | ref => cases hhead
      · rename_i hname
        refine Reads.fail ⟨_, _, rfl⟩ fun x k rest' h _ _ => ?_
        have hhead := TypeExpr.head_eq h
        cases x with
        | scalar word' =>
          obtain rfl : word'.1 = word := TokenKind.keyword.inj hhead
          have := word'.2
          simp [Keyword.category, hname] at this
        | map key value => exact hmap (TokenKind.keyword.inj hhead).symm
        | array | list | ref => cases hhead
    · rename_i first hkind
      rw [hkind] at hks hr₁
      subst hks
      refine Reads.prepend [.ident first] (reads_finishRef (a := r.arena)
        (hr₁ TokenKind.noConfusion) rfl first token.position) ?_ ?_
      · exact fun names _ => ⟨.ref ⟨first, names⟩, rfl, trivial, fun _ _ h => h.1.made⟩
      · intro x k rest' h hF _
        have hhead := TypeExpr.head_eq h
        cases x with
        | ref path =>
          obtain rfl : path.first = first := TokenKind.ident.inj hhead
          exact ⟨path.rest, rfl, hF, trivial, fun _ _ h => h.1.made⟩
        | scalar | map | array | list => cases hhead
    · rename_i hbracket hmap hword hident
      refine Reads.fail ⟨_, _, rfl⟩ fun x k rest' h _ _ => ?_
      have hhead := TypeExpr.head_eq (hks ▸ h)
      cases x with
      | array | list => exact hbracket hhead.symm
      | map key value => exact hmap hhead.symm
      | scalar word => exact hword _ hhead.symm
      | ref path => exact hident _ hhead.symm

theorem reads_typeExpression {a : Arena} (hr : Faces cx r ks) (ha : r.arena = a) :
    Reads (typeExpression cx) r ks TypeExpr.tokens (fun _ => Stops ['.']) TypeExpr.WellFormed
      (Typed a) :=
  reads_typeWithin cx.budget r ks hr ha hr.covered

end SchemaLang.Parse
