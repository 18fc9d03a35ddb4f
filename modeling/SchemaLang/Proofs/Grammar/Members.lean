import SchemaLang.Proofs.Grammar.Phrases

/-!
# Reading members exactly

What stands between the braces of a declaration. The owner of the members lists their names, so the
loop over them carries the names that are taken (`Listing`): a member is read exactly if its name is
not among them, and is listed after them.
-/

namespace SchemaLang.Parse

open Arena Phrase NodeKind

variable {σ : Type} {cx : ReadingContext σ} {r : Reading σ} {ks : List TokenKind}

/-- Since the arena `a`, names have been entered into one owner, which may list no others. -/
structure Listing (a : Arena) (owner : Nat) (Lists : Arena → List String → Prop)
    (Allowed : List String → Prop) (names : List String) (r : Reading σ) : Prop where
  keeps : a.Keeps [owner] r.arena
  lists : Lists r.arena names
  allowed : Allowed names

/-- One more name is entered. -/
theorem Listing.enter {a b : Arena} {owner : Nat} {Lists : Arena → List String → Prop}
    {Allowed : List String → Prop} {names more : List String} {r r' : Reading σ}
    (h : Listing a owner Lists Allowed names r) (hb : r.arena.Keeps [] b)
    (hr' : b.Keeps [owner] r'.arena) (hl : Lists r'.arena (names ++ more))
    (ha : Allowed (names ++ more)) : Listing a owner Lists Allowed (names ++ more) r' :=
  ⟨(h.keeps.quiet hb).trans hr' fun _ hn _ => hn, hl, ha⟩

/-- The names of members that one owner may list. -/
structure Listable (names : List String) : Prop where
  nodup : names.Nodup
  length_le : names.length ≤ 65535

theorem Listable.left {xs ys : List String} (h : Listable (xs ++ ys)) : Listable xs where
  nodup := (List.nodup_append.1 h.nodup).1
  length_le := by
    have := h.length_le
    rw [List.length_append] at this
    omega

theorem listable_snoc {names : List String} {name : String} (h : Listable names) :
    Listable (names ++ [name]) ↔ names.length < 65535 ∧ name ∉ names := by
  constructor
  · rintro ⟨hnodup, hlength⟩
    rw [List.length_append] at hlength
    exact ⟨hlength, (nodup_snoc.1 hnodup).2⟩
  · rintro ⟨hlength, hname⟩
    refine ⟨nodup_snoc.2 ⟨h.nodup, hname⟩, ?_⟩
    rw [List.length_append]
    exact hlength

/-! ## Enums -/

theorem reads_enumBase {a : Arena} (hr : Faces cx r ks) (ha : r.arena = a) :
    Reads enumBase r ks storageTokens (fun _ => Stops ['(']) (fun _ => True)
      fun base x r' => x = storage base ∧ r'.arena = a := by
  apply Reads.convert
  · apply Reads.matchChar_bind hr (T := fun word : {word : Keyword // word.enumBase.isSome} =>
      [.keyword word.1, .char ')']) (F := fun _ _ => True) (G := fun _ => True)
      (R := fun word x r' => x = storage (some word) ∧ r'.arena = a)
    · intro feed comments rest _ hr₁
      rw [if_pos rfl]
      refine Reads.next_bind hr₁ fun token feed₂ comments₂ rest₂ hks hr₂ _ => ?_
      subst hks
      dsimp only
      split
      · rename_i base hbase
        split at hbase
        · rename_i word hkind
          rw [hkind] at hr₂ ⊢
          refine Reads.prepend [.keyword word] (Reads.expectChar_bind (hr₂ TokenKind.noConfusion)
            fun feed₃ comments₃ rest₃ _ hr₃ => Reads.pure (F := fun _ => True)
              (Q := fun x r' => x = base ∧ r'.arena = a) hr₃.spells ⟨rfl, ha⟩) ?_ ?_
          · refine fun _ _ => ⟨⟨word, by rw [hbase]; rfl⟩, rfl, trivial, fun x r' h => ⟨?_, h.2⟩⟩
            rw [h.1, storage]
            simp only [hbase, Option.get_some]
          · intro word' k rest' hks _ _
            obtain rfl : word = word'.1 := TokenKind.keyword.inj (List.cons.inj hks).1
            refine ⟨(), rfl, trivial, trivial, fun x r' h => ⟨?_, h.2⟩⟩
            rw [h.1, storage]
            simp only [hbase, Option.get_some]
        · cases hbase
      · rename_i hbase
        refine Reads.fail ⟨_, _, rfl⟩ fun word k rest' hks _ _ => ?_
        have hkind : token.kind = .keyword word.1 := (List.cons.inj hks).1
        simp only [hkind] at hbase
        have := word.2
        rw [hbase] at this
        cases this
    · intro feed comments hr₁
      exact Reads.pure (F := fun _ => True) (Q := fun x r' => x = EnumBase.standard ∧ r'.arena = a)
        hr₁.spells ⟨rfl, ha⟩
  · rintro (word | _) _
    · exact ⟨some word, rfl, trivial, fun _ _ h => h⟩
    · exact ⟨none, rfl, trivial, fun _ _ h => h⟩
  · rintro (_ | word) k rest _ hF _
    · exact ⟨.inr (), rfl, ⟨trivial, hF '(' (by simp)⟩, trivial, fun _ _ h => h⟩
    · exact ⟨.inl word, rfl, trivial, trivial, fun _ _ h => h⟩

/-- No storage reaches the numbers whose negative wraps around. -/
theorem contains_neg (word : Option {word : Keyword // word.enumBase.isSome}) (size : Int64) :
    (storage word).contains (-size).toInt = (storage word).contains (-size.toInt) := by
  have hlt := size.toInt_lt
  have hle := size.le_toInt
  have hneg : (-size).toInt = -size.toInt ∨
      ((-size).toInt = -2 ^ 63 ∧ -size.toInt = 2 ^ 63) := by
    rw [Int64.toInt_neg]
    by_cases h : size.toInt = -2 ^ 63
    · right
      rw [h]
      decide
    · left
      exact Int.bmod_eq_of_le (by omega) (by omega)
  rcases hneg with h | ⟨h, h'⟩
  · rw [h]
  · rw [h, h']
    rcases word with _ | ⟨word, hword⟩
    · decide
    · cases word <;> first | rfl | cases hword

/-- The values that an enum lists. -/
abbrev Valued (a : Arena) (enum : Nat) : List String → Reading σ → Prop :=
  Listing a enum (fun b names => b.HasKind enum (ValuesAre names)) List.Nodup

theorem reads_enumValue {a : Arena} {enum : Nat} {names : List String} {enumName : String}
    (word : Option {word : Keyword // word.enumBase.isSome}) (hr : Faces cx r ks)
    (h : Valued a enum names r) :
    Reads (enumValue cx enum enumName (storage word)) r ks (Reads.withComma Value.tokens)
      (fun x k => x.2 = false → True ∧ k ≠ .char ',')
      (fun x => (names ++ [x.1.name]).Nodup ∧ x.1.WellFormed (storage word))
      fun x more r' => more = x.2 ∧ Valued a enum (names ++ [x.1.name]) r' := by
  apply Reads.convert
  · apply Reads.bind hr (reads_attributes (a := r.arena) hr rfl)
    · rintro attrs _ r₁ rest₁ _ hr₁ _ ⟨hk₁, -⟩
      apply Reads.expectIdent_bind hr₁
      intro name position feed₂ comments₂ rest₂ _ hr₂
      apply Reads.expectChar_bind hr₂
      intro feed₃ comments₃ rest₃ _ hr₃
      apply Reads.bind hr₃ (Reads.flag (E := fun _ => True)
        (P := fun r' => r.arena.Keeps [] r'.arena) hr₃ fun _ hk => hk₁.quiet hk)
      · rintro _ negative r₄ rest₄ _ hr₄ _ ⟨rfl, hk₄⟩
        refine Reads.next_bind hr₄ (T := fun x : Int64 × Bool => .int x.1 :: .char ')' ::
            if x.2 then [.char ','] else [])
          (F := fun x k => x.2 = false → True ∧ k ≠ .char ',')
          (G := fun x => (storage word).contains (Value.number ⟨attrs, name, negative, x.1⟩) ∧
            name ∉ names)
          (R := fun x more r' => more = x.2 ∧ Valued a enum (names ++ [name]) r')
          fun literal feed₅ comments₅ rest₅ hks hr₅ _ => ?_
        split
        · rename_i size hkind
          rw [hkind] at hks hr₅
          have hvalue : (storage word).contains (if negative then -size else size).toInt =
              (storage word).contains (Value.number ⟨attrs, name, negative, size⟩) := by
            cases negative
            · rfl
            · exact contains_neg word size
          dsimp only
          rw [hvalue]
          by_cases hrange : (storage word).contains (Value.number ⟨attrs, name, negative, size⟩)
          · rw [if_pos hrange]
            subst hks
            refine Reads.prepend [.int size] (Reads.expectChar_bind (hr₅ TokenKind.noConfusion)
              fun feed₆ comments₆ rest₆ _ hr₆ => Reads.unique_bind hr₆ (enters_newEnumValue
                (h.lists.keep hk₄ List.not_mem_nil)) fun value b hnew hb hr₇ =>
                Reads.attachAttrs_bind hr₇ fun r₈ hr₈ hk₈ _ => Reads.comma_attachComments
                  (E := fun _ => True) (P := Valued a enum (names ++ [name])) hr₈
                  fun r₉ hk₉ => ?_) ?_ ?_
            · exact h.enter hk₄ ((hb.1.quiet hk₈).quiet hk₉)
                ((hb.2.keep hk₈ List.not_mem_nil).keep hk₉ List.not_mem_nil)
                (nodup_snoc.2 ⟨h.allowed, hnew⟩)
            · exact fun more hG => ⟨(size, more), rfl, ⟨hrange, hG.1⟩, fun _ _ h => h⟩
            · rintro ⟨size', more⟩ k rest' hks hF hG
              obtain rfl : size = size' := TokenKind.int.inj (List.cons.inj hks).1
              exact ⟨more, rfl, hF, ⟨hG.2, trivial⟩, fun _ _ h => h⟩
          · rw [if_neg hrange]
            refine Reads.fail ⟨_, _, rfl⟩ fun x k rest' h _ hG => hrange ?_
            rw [hks] at h
            obtain rfl : size = x.1 := TokenKind.int.inj (List.cons.inj h).1
            exact hG.1
        · rename_i hkind
          refine Reads.fail ⟨_, _, rfl⟩ fun x k rest' h _ _ => ?_
          rw [hks] at h
          exact hkind x.1 (List.cons.inj h).1
      · exact fun _ _ _ _ _ => ⟨trivial, TokenKind.noConfusion⟩
    · exact fun _ _ _ _ => stops_ident _ _
  · rintro ⟨attrs, name, negative, size, more⟩ ⟨hattrs, -, hrange, hnew⟩
    exact ⟨(⟨attrs, name, negative, size⟩, more), by simp [Reads.withComma, Value.tokens],
      ⟨nodup_snoc.2 ⟨h.allowed, hnew⟩, hattrs, hrange⟩, fun _ _ h => h⟩
  · rintro ⟨⟨attrs, name, negative, size⟩, more⟩ k rest _ hF ⟨hnodup, hattrs, hrange⟩
    exact ⟨(attrs, name, negative, size, more), by simp [Reads.withComma, Value.tokens], hF,
      ⟨hattrs, trivial, hrange, (nodup_snoc.1 hnodup).2⟩, fun _ _ h => h⟩

/-! ## Tables -/

/-- The fields that a table lists. -/
abbrev Fielded (a : Arena) (table : Nat) : List String → Reading σ → Prop :=
  Listing a table (fun b names => b.FieldsAre table names) Listable

theorem reads_field {a : Arena} {table : Nat} {names : List String} (hr : Faces cx r ks)
    (h : Fielded a table names r) :
    Reads (field cx table) r ks (Sum.elim Field.tokens fun attrs : List Attr => attrs.flatMap Attr.tokens)
      (Sum.elim (fun _ _ => True) fun _ k => Stops ['.', '(', '@'] k ∧ ∀ name, k ≠ .ident name)
      (Sum.elim (fun x => Listable (names ++ [x.name]) ∧ x.WellFormed)
        fun attrs => Listable (names ++ []) ∧ ∀ attr ∈ attrs, attr.WellFormed)
      (Sum.elim (fun x more r' => more = true ∧ Fielded a table (names ++ [x.name]) r')
        fun _ more r' => more = false ∧ Fielded a table (names ++ []) r') := by
  apply Reads.convert
  · apply Reads.bind hr (reads_attributes (a := r.arena) hr rfl)
    · rintro attrs _ r₁ rest₁ _ hr₁ _ ⟨hk₁, -⟩
      apply Reads.nextIsIdent_bind hr₁
      · intro feed₂ comments₂ hr₂
        rw [if_pos rfl]
        apply Reads.expectIdent_bind hr₂
        intro name position feed₃ comments₃ rest₃ _ hr₃
        apply Reads.bind hr₃ (reads_typeExpression (a := r₁.arena) hr₃ rfl)
        · intro type node r₄ rest₄ _ hr₄ _ hk₄
          have hk := hk₁.quiet hk₄.keeps
          apply Reads.expectChar_bind hr₄
          intro feed₅ comments₅ rest₅ _ hr₅
          have hlists := h.lists.keep hk List.not_mem_nil
          apply Reads.limit_bind hlists.size_eq
          intro hroom
          apply Reads.unique_bind hr₅ (enters_newField hlists)
          intro value b hnew hb hr₆
          apply Reads.attachComments_bind hr₆
          intro r₇ hr₇ hk₇ _
          apply Reads.attachAttrs_bind hr₇
          intro r₈ hr₈ hk₈ _
          refine Reads.pure (F := fun _ => True)
            (Q := fun more r' => more = true ∧ Fielded a table (names ++ [name]) r') hr₈.spells
            ⟨rfl, h.enter hk ((hb.1.quiet hk₇).quiet hk₈) ?_
              ((listable_snoc h.allowed).2 ⟨hroom, hnew⟩)⟩
          exact (hb.2.keep hk₇ List.not_mem_nil).keep hk₈ List.not_mem_nil
        · exact fun _ _ _ _ => stops_char (by simp)
      · intro feed₂ comments₂ hr₂
        refine Reads.pure (F := Stops ['.', '(', '@'])
          (Q := fun more r' => more = false ∧ Fielded a table (names ++ []) r') hr₂.spells
          ⟨rfl, ?_⟩
        rw [List.append_nil]
        exact ⟨h.keeps.quiet hk₁, h.lists.keep hk₁ List.not_mem_nil, h.allowed⟩
      · exact fun _ => ⟨_, _, rfl⟩
    · rintro attrs (_ | _) k hF
      · exact stops_ident _ _
      · exact hF.1
  · rintro ⟨attrs, ⟨name, type, _⟩ | _⟩ ⟨hattrs, hG⟩
    · obtain ⟨htype, hroom, hnew, -⟩ := hG
      exact ⟨.inl ⟨attrs, name, type⟩, by simp [Field.tokens],
        ⟨(listable_snoc h.allowed).2 ⟨hroom, hnew⟩, hattrs, htype⟩, fun _ _ h => h⟩
    · exact ⟨.inr attrs, by simp, ⟨by simpa using h.allowed, hattrs⟩, fun _ _ h => h⟩
  · rintro (⟨attrs, name, type⟩ | attrs) k rest _ hF hG
    · obtain ⟨hallowed, hattrs, htype⟩ := hG
      obtain ⟨hroom, hnew⟩ := (listable_snoc h.allowed).1 hallowed
      exact ⟨(attrs, .inl (name, type, ())), by simp [Field.tokens], trivial,
        ⟨hattrs, htype, hroom, hnew, trivial⟩, fun _ _ h => h⟩
    · exact ⟨(attrs, .inr ()), by simp, hF, ⟨hG.2, trivial⟩, fun _ _ h => h⟩

/-- Members up to the brace, each under a name of its own, and the attributes that no member
claims. -/
theorem reads_members {M : Type} {step : Parse σ Bool} {T : M → List TokenKind} {name : M → String}
    {P : M → Prop} {a : Arena} {owner : Nat} {Lists : Arena → List String → Prop}
    (hstep : ∀ names (r : Reading σ) ks, Listing a owner Lists Listable names r → Faces cx r ks →
      Reads step r ks (Sum.elim T fun attrs : List Attr => attrs.flatMap Attr.tokens)
        (Sum.elim (fun _ _ => True) fun _ k => Stops ['.', '(', '@'] k ∧ ∀ name, k ≠ .ident name)
        (Sum.elim (fun x => Listable (names ++ [name x]) ∧ P x)
          fun attrs => Listable (names ++ []) ∧ ∀ attr ∈ attrs, attr.WellFormed)
        (Sum.elim (fun x more r' => more = true ∧ Listing a owner Lists Listable (names ++ [name x]) r')
          fun _ more r' => more = false ∧ Listing a owner Lists Listable (names ++ []) r'))
    (hT : ∀ x, 0 < TokenKind.count (T x)) (hr : Faces cx r ks)
    (h : Listing a owner Lists Listable [] r) :
    Reads (do
      repeatWhile step cx.budget
      expectChar '\x7d') r ks
      (fun x : List M × List Attr => x.1.flatMap T ++ (x.2.flatMap Attr.tokens ++ [.char '\x7d']))
      (fun _ _ => True)
      (fun x => Listable (x.1.map name) ∧ (∀ y ∈ x.1, P y) ∧ ∀ attr ∈ x.2, attr.WellFormed)
      fun _ _ r' => a.Keeps [owner] r'.arena := by
  apply Reads.convert
  · apply Reads.bind hr (Reads.repeatWhile (fun x => [name x]) (fun _ => []) P
      (fun attrs : List Attr => ∀ attr ∈ attrs, attr.WellFormed) Listable (Listing a owner Lists Listable)
      (Listing a owner Lists Listable) hstep hT (fun _ _ _ => trivial) (fun _ _ _ _ => trivial)
      (fun _ _ => Listable.left) cx.budget [] r ks h hr hr.covered)
    · intro x _ r₁ rest₁ _ hr₁ _ hi
      exact Reads.expectChar (F := fun _ => True) (Q := fun r' => a.Keeps [owner] r'.arena) hr₁
        fun _ _ => hi.keeps
    · exact fun _ _ _ _ => ⟨stops_char (by simp), fun _ => TokenKind.noConfusion⟩
  · rintro ⟨⟨xs, attrs⟩, _⟩ ⟨⟨hallowed, hP, hattrs⟩, -⟩
    exact ⟨(xs, attrs), by simp, ⟨by simpa [List.map_eq_flatMap] using hallowed, hP, hattrs⟩,
      fun _ _ h => h⟩
  · rintro ⟨xs, attrs⟩ k rest _ _ ⟨hallowed, hP, hattrs⟩
    exact ⟨((xs, attrs), ()), by simp, trivial,
      ⟨⟨by simpa [List.map_eq_flatMap] using hallowed, hP, hattrs⟩, trivial⟩, fun _ _ h => h⟩

/-! ## Contracts -/

theorem reads_baseContract {a : Arena} {contract : Nat} {names : List String} (hr : Faces cx r ks)
    (h : Listing a contract (fun b names => b.BasesAre contract names) List.Nodup names r) :
    Reads (baseContract cx contract) r ks (Reads.withComma Ref.tokens)
      (fun x k => x.2 = false → Stops ['.'] k ∧ k ≠ .char ',')
      (fun x => (names ++ [Ref.dotted x.1]).Nodup ∧ True)
      fun x more r' => more = x.2 ∧ Listing a contract (fun b names => b.BasesAre contract names)
        List.Nodup (names ++ [Ref.dotted x.1]) r' := by
  apply Reads.convert
  · apply Reads.bind hr (reads_typeRef (a := r.arena) hr rfl)
    · rintro ref base r₁ rest₁ _ hr₁ _ ⟨hmade, hname⟩
      apply Reads.inspect_bind
      apply Reads.inspect_bind
      have henters := enters_addBase (h.lists.keep hmade.keeps List.not_mem_nil) hmade.hasKind.1
      rw [hname] at henters ⊢
      apply Reads.unique_bind hr₁ henters
      intro _ b hnew hb hr₂
      apply Reads.attachComments_bind hr₂
      intro r₃ hr₃ hk₃ _
      exact Reads.flag (E := Stops ['.']) (P := Listing a contract
        (fun b names => b.BasesAre contract names) List.Nodup (names ++ [Ref.dotted ref])) hr₃
        fun r₄ hk₄ => h.enter hmade.keeps ((hb.1.quiet hk₃).quiet hk₄)
          ((hb.2.keep hk₃ List.not_mem_nil).keep hk₄ List.not_mem_nil)
          (nodup_snoc.2 ⟨h.allowed, hnew⟩)
    · intro ref more k hF
      cases more
      · exact (hF rfl).1
      · exact stops_char (by simp)
  · rintro ⟨ref, more⟩ ⟨-, hnew, -⟩
    exact ⟨(ref, more), rfl, ⟨nodup_snoc.2 ⟨h.allowed, hnew⟩, trivial⟩, fun _ _ h => h⟩
  · rintro ⟨ref, more⟩ k rest _ hF ⟨hnodup, -⟩
    exact ⟨(ref, more), rfl, hF, ⟨trivial, (nodup_snoc.1 hnodup).2, trivial⟩, fun _ _ h => h⟩

theorem reads_slot {a : Arena} {method : Nat} {isResult : Bool} (hr : Faces cx r ks)
    (h : a.Keeps [method] r.arena) :
    Reads (slot cx method isResult) r ks (Reads.withComma Slot.tokens)
      (fun x k => x.2 = false → Stops ['.'] k ∧ k ≠ .char ',')
      (fun x => True ∧ x.1.WellFormed) fun x more r' => more = x.2 ∧ a.Keeps [method] r'.arena := by
  apply Reads.convert
  · apply Reads.bind hr (reads_attributes (a := r.arena) hr rfl)
    · rintro attrs _ r₁ rest₁ _ hr₁ _ ⟨hk₁, -⟩
      apply Reads.peek_bind hr₁
      intro token feed₂ comments₂ rest₂ _ hr₂
      apply Reads.bind hr₂ (reads_typeExpression (a := r₁.arena) hr₂ rfl)
      · intro type node r₃ rest₃ _ hr₃ _ hk₃
        have hk₄ : r₃.arena.Keeps [method] (if isResult then
            r₃.arena.newResult method node token.position
            else r₃.arena.newParam method node token.position).2 := by
          cases isResult
          · exact keeps_newParam ..
          · exact keeps_newResult ..
        apply Reads.build_bind hr₃
        intro hr₄
        apply Reads.attachAttrs_bind hr₄
        intro r₅ hr₅ hk₅ _
        apply Reads.attachComments_bind hr₅
        intro r₆ hr₆ hk₆ _
        refine Reads.flag (E := Stops ['.']) (P := fun r' => a.Keeps [method] r'.arena) hr₆
          fun r₇ hk₇ => ?_
        exact ((((h.quiet hk₁).quiet hk₃.keeps).trans hk₄ fun _ hn _ => hn).quiet hk₅).quiet
          (hk₆.quiet hk₇)
      · intro type more k hF
        cases more
        · exact (hF rfl).1
        · exact stops_char (by simp)
    · rintro attrs ⟨type, more⟩ k _
      exact Parse.TypeExpr.stops type _ _ (by simp)
  · rintro ⟨attrs, type, more⟩ ⟨hattrs, htype, -⟩
    exact ⟨(⟨attrs, type⟩, more), by simp [Reads.withComma, Slot.tokens],
      ⟨trivial, hattrs, htype⟩, fun _ _ h => h⟩
  · rintro ⟨⟨attrs, type⟩, more⟩ k rest _ hF ⟨-, hattrs, htype⟩
    exact ⟨(attrs, type, more), by simp [Reads.withComma, Slot.tokens], hF,
      ⟨hattrs, htype, trivial⟩, fun _ _ h => h⟩

theorem reads_slots {a : Arena} {method : Nat} {isResult : Bool} (hr : Faces cx r ks)
    (h : a.Keeps [method] r.arena) :
    Reads (slots cx method isResult) r ks Slots.tokens (fun _ k => Stops ['.'] k ∧ k ≠ .char ',')
      Slots.WellFormed fun _ _ r' => a.Keeps [method] r'.arena := by
  refine (Reads.chain (fun _ => ([] : List String)) Slot.WellFormed (fun _ => True)
    (fun _ r => a.Keeps [method] r.arena) (fun _ r ks h hr => reads_slot hr h)
    (fun _ _ _ => trivial) [] h hr).convert ?_ ?_
  · exact fun slots hG => ⟨slots, rfl, hG.2, fun _ _ h => h⟩
  · exact fun slots k rest _ hF hG => ⟨slots, rfl, hF, ⟨trivial, hG⟩, fun _ _ h => h⟩

/-- No slot starts with a parenthesis. -/
theorem Slots.stops (slots : Slots) (ts : List TokenKind) (k : TokenKind) :
    Stops [')'] ((Slots.tokens slots ++ ts).headD k) := by
  obtain ⟨⟨_ | ⟨attr, attrs⟩, type⟩, rest⟩ := slots
  · simp only [Slots.tokens, Chain.tokens, Slot.tokens, List.flatMap_nil, List.nil_append,
      List.append_assoc]
    exact Parse.TypeExpr.stops type _ _ (by simp)
  · exact stops_char (by simp)

theorem reads_results {a : Arena} {method : Nat} (hr : Faces cx r ks)
    (h : a.Keeps [method] r.arena) :
    Reads (do
      expectChar ')'
      let token ← peek
      if token.kind == .arrow then
        advance
        expectChar '('
        slots cx method true
        expectChar ')'
      expectChar ';') r ks
      (fun results => .char ')' :: (resultTokens results ++ [.char ';'])) (fun _ _ => True)
      (fun results => ∀ slots ∈ results, Slots.WellFormed slots)
      fun _ _ r' => a.Keeps [method] r'.arena := by
  apply Reads.convert
  · apply Reads.expectChar_bind hr
    intro feed₁ comments₁ rest₁ _ hr₁
    apply Reads.look_bind hr₁ TokenKind.noConfusion
    · intro token feed₂ comments₂ rest₂ _ hr₂
      apply Reads.expectChar_bind hr₂
      intro feed₃ comments₃ rest₃ _ hr₃
      apply Reads.bind hr₃ (reads_slots (a := a) hr₃ h)
      · intro slots _ r₄ rest₄ _ hr₄ _ hk₄
        apply Reads.expectChar_bind hr₄
        intro feed₅ comments₅ rest₅ _ hr₅
        exact Reads.expectChar (F := fun _ => True) (Q := fun r' => a.Keeps [method] r'.arena) hr₅
          fun _ _ => hk₄
      · exact fun _ _ _ _ => ⟨stops_char (by simp), by simp⟩
    · intro token feed₂ comments₂ hr₂
      exact Reads.expectChar (F := fun _ => True) (Q := fun r' => a.Keeps [method] r'.arena) hr₂
        fun _ _ => h
  · rintro (⟨slots, _⟩ | _) hG
    · exact ⟨some slots, by simp [resultTokens], by simpa using hG, fun _ _ h => h⟩
    · exact ⟨none, by simp [resultTokens], by simp, fun _ _ h => h⟩
  · rintro (_ | slots) k rest _ _ hG
    · exact ⟨.inr (), by simp [resultTokens], ⟨trivial, TokenKind.noConfusion⟩, trivial,
        fun _ _ h => h⟩
    · exact ⟨.inl (slots, ()), by simp [resultTokens], trivial, by simpa using hG,
        fun _ _ h => h⟩

theorem reads_signature {a : Arena} {method : Nat} (hr : Faces cx r ks)
    (h : a.Keeps [method] r.arena) :
    Reads (signature cx method) r ks
      (fun x : Option Slots × Option Slots => .char '(' :: (paramTokens x.1 ++ .char ')' ::
        (resultTokens x.2 ++ [.char ';'])))
      (fun _ _ => True)
      (fun x => (∀ slots ∈ x.1, Slots.WellFormed slots) ∧ ∀ slots ∈ x.2, Slots.WellFormed slots)
      fun _ _ r' => a.Keeps [method] r'.arena := by
  apply Reads.convert
  · apply Reads.expectChar_bind hr
    intro feed₁ comments₁ rest₁ _ hr₁
    apply Reads.nextIs_bind hr₁
    · intro feed₂ comments₂ hr₂
      exact reads_results (a := a) hr₂ h
    · intro feed₂ comments₂ hr₂
      apply Reads.bind hr₂ (reads_slots (a := a) hr₂ h)
      · intro slots _ r₃ rest₃ _ hr₃ _ hk₃
        exact reads_results (a := a) hr₃ hk₃
      · exact fun _ _ _ _ => ⟨stops_char (by simp), by simp⟩
  · rintro (results | ⟨slots, results⟩) hG
    · exact ⟨(none, results), by simp [paramTokens], ⟨by simp, hG⟩, fun _ _ h => h⟩
    · exact ⟨(some slots, results), by simp [paramTokens], ⟨by simpa using hG.1, hG.2⟩,
        fun _ _ h => h⟩
  · rintro ⟨_ | slots, results⟩ k rest _ _ ⟨hparams, hresults⟩
    · exact ⟨.inl results, by simp [paramTokens], ⟨trivial, rfl⟩, hresults, fun _ _ h => h⟩
    · exact ⟨.inr (slots, results), by simp [paramTokens],
        ⟨trivial, Slots.stops slots _ _ ')' (by simp)⟩, ⟨hparams slots rfl, hresults⟩,
        fun _ _ h => h⟩

/-- The methods that a contract lists. -/
abbrev Methodical (a : Arena) (contract : Nat) : List String → Reading σ → Prop :=
  Listing a contract (fun b names => b.HasKind contract (MethodsAre names)) Listable

theorem reads_method {a : Arena} {contract : Nat} {names : List String} (hr : Faces cx r ks)
    (h : Methodical a contract names r) :
    Reads (method cx contract) r ks
      (Sum.elim Phrase.Method.tokens fun attrs : List Attr => attrs.flatMap Attr.tokens)
      (Sum.elim (fun _ _ => True) fun _ k => Stops ['.', '(', '@'] k ∧ ∀ name, k ≠ .ident name)
      (Sum.elim (fun x => Listable (names ++ [x.name]) ∧ x.WellFormed)
        fun attrs => Listable (names ++ []) ∧ ∀ attr ∈ attrs, attr.WellFormed)
      (Sum.elim (fun x more r' => more = true ∧ Methodical a contract (names ++ [x.name]) r')
        fun _ more r' => more = false ∧ Methodical a contract (names ++ []) r') := by
  apply Reads.convert
  · apply Reads.bind hr (reads_attributes (a := r.arena) hr rfl)
    · rintro attrs _ r₁ rest₁ _ hr₁ _ ⟨hk₁, -⟩
      have hlists := h.lists.keep hk₁ List.not_mem_nil
      apply Reads.nextIsIdent_bind hr₁
      · intro feed₂ comments₂ hr₂
        rw [if_pos rfl]
        apply Reads.expectIdent_bind hr₂
        intro name position feed₃ comments₃ rest₃ _ hr₃
        apply Reads.limit_bind (methodCount_eq_length hlists)
        intro hroom
        apply Reads.unique_bind hr₃ (enters_newMethod hlists)
        rintro node b hnew ⟨hb, habove, -, hlists'⟩ hr₄
        apply Reads.attachAttrs_bind hr₄
        intro r₅ hr₅ hk₅ _
        apply Reads.attachComments_bind hr₅
        intro r₆ hr₆ hk₆ _
        apply Reads.bind hr₆ (reads_signature (a := r₆.arena) hr₆ (Keeps.refl ..))
        · intro slots _ r₇ rest₇ _ hr₇ _ hk₇
          apply Reads.attachComments_bind hr₇
          intro r₈ hr₈ hk₈ _
          have hne : contract ∉ [node] := by
            rw [List.mem_singleton]
            exact Nat.ne_of_lt (Nat.lt_of_lt_of_le hlists.1 habove)
          refine Reads.pure (F := fun _ => True)
            (Q := fun more r' => more = true ∧ Methodical a contract (names ++ [name]) r')
            hr₈.spells ⟨rfl, h.enter hk₁ ((((hb.quiet hk₅).quiet hk₆).above hk₇ habove).quiet hk₈)
              ?_ ((listable_snoc h.allowed).2 ⟨hroom, hnew⟩)⟩
          exact (((hlists'.keep hk₅ List.not_mem_nil).keep hk₆ List.not_mem_nil).keep hk₇ hne).keep
            hk₈ List.not_mem_nil
        · exact fun _ _ _ _ => trivial
      · intro feed₂ comments₂ hr₂
        refine Reads.pure (F := Stops ['.', '(', '@'])
          (Q := fun more r' => more = false ∧ Methodical a contract (names ++ []) r') hr₂.spells
          ⟨rfl, ?_⟩
        rw [List.append_nil]
        exact ⟨h.keeps.quiet hk₁, hlists, h.allowed⟩
      · exact fun _ => ⟨_, _, rfl⟩
    · rintro attrs (_ | _) k hF
      · exact stops_ident _ _
      · exact hF.1
  · rintro ⟨attrs, ⟨name, ⟨params, results⟩, _⟩ | _⟩ ⟨hattrs, hG⟩
    · obtain ⟨hroom, hnew, hslots, -⟩ := hG
      refine ⟨.inl ⟨attrs, name, params, results⟩, ?_,
        ⟨(listable_snoc h.allowed).2 ⟨hroom, hnew⟩, hattrs, hslots⟩, fun _ _ h => h⟩
      simp [Phrase.Method.tokens]
    · exact ⟨.inr attrs, by simp, ⟨by simpa using h.allowed, hattrs⟩, fun _ _ h => h⟩
  · rintro (⟨attrs, name, params, results⟩ | attrs) k rest _ hF hG
    · obtain ⟨hallowed, hattrs, hslots⟩ := hG
      obtain ⟨hroom, hnew⟩ := (listable_snoc h.allowed).1 hallowed
      refine ⟨(attrs, .inl (name, (params, results), ())), ?_, trivial,
        ⟨hattrs, hroom, hnew, hslots, trivial⟩, fun _ _ h => h⟩
      simp [Phrase.Method.tokens]
    · exact ⟨(attrs, .inr ()), by simp, hF, ⟨hG.2, trivial⟩, fun _ _ h => h⟩

end SchemaLang.Parse
