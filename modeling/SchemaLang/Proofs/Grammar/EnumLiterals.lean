import SchemaLang.Proofs.Grammar.Acceptance
import SchemaLang.Proofs.Token.Integers
import SchemaLang.Reflection

/-!
# Literals of enums

An enum is read with one value, which is written as an integer literal of any length behind an
optional minus sign. The source is accepted exactly if the number that is written lies in the range of
the storage, and then the enum lists this number.
-/

namespace SchemaLang

open Phrase Text

/-! ## The source -/

/-- How the storage of an enum is written. -/
def storageText : Option {word : Keyword // word.enumBase.isSome} → List Char
  | some word => '(' :: (word.1.spelling.toList ++ [')'])
  | none => []

/-- The source of an enum `E` with one value `A`. -/
def enumText (word : Option {word : Keyword // word.enumBase.isSome}) (negative : Bool)
    (literal : List Char) : List Char :=
  "enum".toList ++ (' ' :: "E".toList) ++ storageText word ++ ('\x7b' :: "A".toList) ++
    '(' :: ((if negative then ['-'] else []) ++ (literal ++ [')', '\x7d']))

namespace Lexing

/-- Up to the first value the text depends on the storage only. -/
theorem yields_storage (word : Option {word : Keyword // word.enumBase.isSome}) {text : List Char}
    {kinds : List TokenKind} (h : Yields ('(' :: text) kinds) :
    Yields ("enum".toList ++ (' ' :: "E".toList) ++ storageText word ++ ('\x7b' :: "A".toList) ++
        '(' :: text)
      (.keyword .enum :: .ident "E" :: (storageTokens word ++ .char '\x7b' :: .ident "A" :: kinds)) := by
  have hnone : Blank [] := List.forall_mem_nil _
  have hspace : Blank [' '] := List.forall_mem_singleton.2 rfl
  have hvalue : Yields ('\x7b' :: ("A".toList ++ '(' :: text))
      (.char '\x7b' :: .ident "A" :: kinds) :=
    .char (by decide) (by decide)
      (.word hnone "A" ⟨'A', [], rfl, rfl, List.forall_mem_nil _⟩ (by rintro _ ⟨⟩; decide) h)
  have hname : ∀ {rest : List Char} {kinds : List TokenKind},
      (∀ c ∈ rest.head?, isWordPart c = false ∧ c ≠ ':') → Yields rest kinds →
      Yields ("enum".toList ++ ([' '] ++ ("E".toList ++ rest)))
        (.keyword .enum :: .ident "E" :: kinds) := fun hstop h =>
    .word hnone "enum" ⟨'e', ['n', 'u', 'm'], rfl, rfl, List.all_eq_true.1 rfl⟩ (by rintro _ ⟨⟩; decide)
      (.word hspace "E" ⟨'E', [], rfl, rfl, List.forall_mem_nil _⟩ hstop h)
  simp only [List.append_assoc, List.cons_append]
  rcases word with _ | ⟨word, hword⟩
  · exact hname (by rintro _ ⟨⟩; decide) hvalue
  · have hkeyword : Yields (word.spelling.toList ++ ')' :: '\x7b' :: ("A".toList ++ '(' :: text))
        (.ofWord word.spelling :: .char ')' :: .char '\x7b' :: .ident "A" :: kinds) :=
      .word hnone word.spelling (by cases word <;> exact ⟨_, _, rfl, rfl, List.all_eq_true.1 rfl⟩)
        (by rintro _ ⟨⟩; decide) (.char (by decide) (by decide) hvalue)
    rw [TokenKind.ofWord_spelling] at hkeyword
    simp only [storageText, storageTokens, List.cons_append, List.append_assoc, List.nil_append]
    exact hname (by rintro _ ⟨⟩; decide) (.char (by decide) (by decide) hkeyword)

/-- The tokens of the source. Behind a literal that does not fit there are none. -/
theorem significant_enumText (word : Option {word : Keyword // word.enumBase.isSome})
    (negative : Bool) {numeral : Scan.Numeral} (hliteral : numeral.Literal)
    (hinteger : numeral.IsInteger) (file : String) :
    (ofSource file ⟨enumText word negative numeral.lexeme, true⟩).significant =
      .keyword .enum :: .ident "E" :: (storageTokens word ++ .char '\x7b' :: .ident "A" ::
        .char '(' :: ((if negative then [.char '-'] else []) ++
          literalTokens numeral.value [.char ')', .char '\x7d', .eof])) := by
  have hend : Scan.Numeral.EndsInteger [')', '\x7d'] := by
    rintro _ ⟨⟩
    decide
  have hclosing : Yields [')', '\x7d'] [.char ')', .char '\x7d', .eof] :=
    .char (by decide) (by decide) (.char (by decide) (by decide) .nil)
  have hyields : Yields (enumText word negative numeral.lexeme) _ :=
    yields_storage word (.char (by decide) (by decide)
      (.sign (negative = true) hliteral (.literal hliteral hinteger hend hclosing)))
  rw [significant, hyields.kinds_ofSource file]
  -- none of them is a comment
  rw [literalTokens, Scan.Numeral.intKind?]
  by_cases hfits : numeral.value < 0x8000000000000000
  · rw [if_pos hfits]
    rcases word with _ | word <;> cases negative <;> rfl
  · rw [if_neg hfits]
    rcases word with _ | word <;> cases negative <;> rfl

end Lexing

/-! ## The values that an enum lists -/

namespace Arena

open NodeKind

variable {a b : Arena} {enum : Nat} {values : List (String × Int64)}

/-- An enum with these names and numbers, in order. -/
def Numbers (a : Arena) (enum : Nat) (values : List (String × Int64)) : Prop :=
  enum < a.size ∧ ∃ decl, a.kind enum = .enum decl ∧
    List.Forall₂ (fun entry value => entry.1 = value.1 ∧ a.HasKind entry.2 (· = .enumValue value.2))
      decl.values.entries.toList values

theorem Numbers.keep {touched : List NodeId} (h : a.Numbers enum values) (hk : a.Keeps touched b)
    (henum : enum ∉ touched) (hvalue : ∀ n ∈ touched, ∀ value, a.kind n ≠ .enumValue value) :
    b.Numbers enum values := by
  obtain ⟨hs, decl, hkind, hentries⟩ := h
  refine ⟨Nat.lt_of_lt_of_le hs hk.size_le, decl, (hk.kind_eq enum hs henum).trans hkind,
    hentries.imp fun entry value hentry => ⟨hentry.1, hentry.2.keep hk fun hn => ?_⟩⟩
  exact hvalue _ hn _ hentry.2.2

theorem Numbers.valuesAre (h : a.Numbers enum values) :
    a.HasKind enum (ValuesAre (values.map (·.1))) := by
  obtain ⟨hs, decl, hkind, hentries⟩ := h
  exact ⟨hs, decl, hkind, map_eq_of_forall₂ hentries fun _ _ h => h.1⟩

/-- The values of an enum are those that it lists. -/
theorem Numbers.enumValues_eq (h : a.Numbers enum values) : a.enumValues enum = values := by
  obtain ⟨-, decl, hkind, hentries⟩ := h
  rw [enumValues, enum?, hkind]
  dsimp only
  generalize decl.values.entries.toList = entries at hentries
  induction hentries with
  | nil => rfl
  | @cons entry value _ _ hentry _ ih =>
    obtain ⟨hname, hnode⟩ := hentry
    have hvalue : a.enumValue? entry.2 = some value.2 := by rw [enumValue?, hnode.2]
    rw [List.filterMap_cons_some (by rw [hvalue]; rfl), ih, hname]

/-- A value is listed behind the others. -/
theorem enters_newNumber {name : String} {value : Int64} {position : Position}
    (h : a.Numbers enum values) :
    Enters (values.map (·.1)) name (a.newEnumValue enum name value position) fun _ b =>
      a.Keeps [enum] b ∧ b.Numbers enum (values ++ [(name, value)]) := by
  obtain ⟨hs, decl, hkind, hentries⟩ := h
  obtain ⟨-, _, hkind', hnames⟩ := Numbers.valuesAre ⟨hs, decl, hkind, hentries⟩
  obtain rfl : decl = _ := NodeKind.enum.inj (hkind.symm.trans hkind')
  have henum : a.enum? enum = some decl := by simp [enum?, hkind]
  have halloc := Keeps.alloc a name (a.node enum).script position (.enumValue value)
  have hkeeps := halloc.quiet (Keeps.adopt _ enum a.size)
  rw [← hnames]
  refine enters_registry (fun existing he => ?_) fun hnone hmem => ?_
  · simp [newEnumValue, henum, he]
  · simp only [newEnumValue, henum, Option.bind_some, hnone]
    have hchange := hkeeps.change enum
    refine ⟨_, rfl, hchange _, Nat.lt_of_lt_of_le hs (hchange _).size_le, _,
      (hkeeps.kind_change hs _).trans (by rw [hkind]), ?_⟩
    have hold : ∀ {n : Nat} {v : Int64}, a.HasKind n (· = .enumValue v) → n ∉ [enum] := by
      intro n v hn hmem
      rw [List.mem_singleton.1 hmem] at hn
      cases hkind.symm.trans hn.2
    have hnew := hasKind_alloc a name (a.node enum).script position (.enumValue value)
    dsimp only
    rw [Registry.entries_insert_of_find?_eq_none _ hnone, Array.toList_push]
    refine List.rel_append (hentries.imp fun entry value hentry =>
      ⟨hentry.1, hentry.2.keep (hchange _) (hold hentry.2)⟩) (.cons ⟨rfl, ?_⟩ .nil)
    exact hnew.keep ((Keeps.adopt _ enum a.size).change enum _)
      (by simpa using Nat.ne_of_gt hs)

end Arena

/-! ## Reading the enum -/

namespace Parse

open Arena NodeKind

variable {σ α β : Type} {cx : ReadingContext σ} {r r' : Reading σ} {ks : List TokenKind}

/-- The step succeeds exactly if the condition holds, and then its value and its state satisfy
`Q`. -/
def Decides (m : Parse σ α) (r : Reading σ) (condition : Prop) (Q : α → Reading σ → Prop) : Prop :=
  (condition → ∃ x r', m r = .ok x r' ∧ Q x r') ∧ (¬ condition → ∃ e r', m r = .error e r')

namespace Decides

variable {m : Parse σ α} {f : α → Parse σ β} {condition : Prop} {P : α → Reading σ → Prop}
  {Q : β → Reading σ → Prop}

/-- A step that succeeds decides nothing. -/
theorem follow {x : α} (h : m r = .ok x r') (hf : Decides (f x) r' condition Q) :
    Decides (m >>= f) r condition Q := by
  unfold Decides
  rw [bind_ok h]
  exact hf

/-- What comes after the decision succeeds. -/
theorem finish (h : Decides m r condition P)
    (hf : ∀ x r', P x r' → ∃ y r'', f x r' = .ok y r'' ∧ Q y r'') :
    Decides (m >>= f) r condition Q := by
  constructor
  · intro hc
    obtain ⟨x, r', hm, hp⟩ := h.1 hc
    obtain ⟨y, r'', hy, hq⟩ := hf x r' hp
    exact ⟨y, r'', (bind_ok hm).trans hy, hq⟩
  · intro hc
    obtain ⟨e, r', hm⟩ := h.2 hc
    exact ⟨e, r', bind_error hm⟩

/-- A loop whose first round is the last one. -/
theorem once {step : Parse σ Bool} {P : Reading σ → Prop}
    (h : Decides step r condition fun more r' => more = false ∧ P r') {fuel : Nat}
    (hfuel : 0 < fuel) : Decides (repeatWhile step fuel) r condition fun _ => P := by
  obtain ⟨rounds, rfl⟩ := Nat.exists_eq_add_one.2 hfuel
  exact h.finish fun _ r' ⟨hmore, hp⟩ => ⟨(), r', by rw [hmore]; rfl, hp⟩

end Decides

/-- No attributes are read where none are written. -/
theorem attributes_of_ne {k : TokenKind} (hr : Faces cx r (k :: ks)) (hk : Stops ['.', '(', '@'] k) :
    ∃ r', attributes cx r = .ok () r' ∧ Faces cx r' (k :: ks) ∧ r.arena.Keeps [] r'.arena := by
  obtain ⟨_, r', hrun, hs, ⟨hkeeps, -⟩⟩ := (reads_attributes hr rfl).complete [] k ks rfl hk
    (List.forall_mem_nil _)
  exact ⟨r', hrun, hr.keep hs, hkeeps⟩

theorem attachAttrs_ok (node : NodeId) (r : Reading σ) : ∃ r', attachAttrs node r = .ok () r' ∧
    r'.feed = r.feed ∧ r.arena.Keeps [] r'.arena :=
  ⟨_, rfl, rfl, Keeps.addAttrs ..⟩

theorem attachComments_ok (node : NodeId) {k : TokenKind} (h : r.feed.Spells (k :: ks)) :
    ∃ r', attachComments node r = .ok () r' ∧ r'.feed.Spells (k :: ks) ∧
      r.arena.Keeps [] r'.arena := by
  obtain ⟨token, feed, comments, hpeek, -, hs⟩ := peek_of_spells h
  exact ⟨_, bind_ok hpeek, hs, Keeps.bindComments ..⟩

/-- No storage holds a number whose literal does not fit. -/
theorem lt_of_contains {word : Option {word : Keyword // word.enumBase.isSome}} {negative : Bool}
    {value : Nat} (h : (storage word).contains (signedValue negative value) = true) :
    value < 0x8000000000000000 := by
  have hbounds : -0x80000000 ≤ (storage word).least ∧ (storage word).greatest ≤ 0xffffffff := by
    rcases word with _ | ⟨word, hword⟩
    · decide
    · clear h
      cases word <;> decide +revert
  rw [EnumBase.contains_iff] at h
  unfold signedValue at h
  split at h <;> omega

theorem matchSign_of_spells (negative : Bool) {k : TokenKind} (hk : k ≠ .char '-')
    (h : r.feed.Spells ((if negative then [.char '-'] else []) ++ k :: ks)) : ∃ feed comments,
    matchChar '-' r = .ok negative (retake r feed comments) ∧ feed.Spells (k :: ks) := by
  cases negative with
  | false => exact matchChar_of_ne h hk
  | true => exact matchChar_of_spells h

/-- Where the literal does not fit, nothing is read behind the sign. -/
theorem sign_literal_error (negative : Bool)
    (h : r.feed.Spells (if negative then [.char '-'] else [])) (f : Bool → Token → Parse σ α) :
    ∃ e r', (do
      let negative ← matchChar '-'
      let literal ← next
      f negative literal) r = .error e r' := by
  cases negative with
  | false =>
    obtain ⟨e, r', hpeek⟩ := peek_of_spells_nil h
    exact ⟨e, r', bind_error (bind_error (bind_error hpeek))⟩
  | true =>
    obtain ⟨feed, comments, hsign, hs⟩ := matchChar_of_spells h
    obtain ⟨e, r', hnext⟩ := next_of_spells_nil (r := retake r feed comments) hs
    exact ⟨e, r', (bind_ok hsign).trans (bind_error hnext)⟩

/-- A number that the storage holds is listed under its name, where the name is new. -/
theorem enterValue_ok {enum : Nat} {name : String} {number : Int64} {position : Position}
    {values : List (String × Int64)} {k : TokenKind} (hr : Faces cx r (.char ')' :: k :: ks))
    (hk : k ≠ .char ',') (h : r.arena.Numbers enum values) (hnew : name ∉ values.map (·.1)) :
    ∃ r', (do
      expectChar ')'
      let node ← buildUnique .enumValue name position fun arena =>
        arena.newEnumValue enum name number position
      attachAttrs node
      let more ← matchChar ','
      attachComments node
      pure more) r = .ok false r' ∧ Faces cx r' (k :: ks) ∧ r.arena.Keeps [enum] r'.arena ∧
        r'.arena.Numbers enum (values ++ [(name, number)]) := by
  obtain ⟨feed₁, comments₁, hclose, hs₁⟩ := expectChar_of_spells hr.spells
  obtain ⟨node, b, hentered, hkeeps, hnumbers⟩ : ∃ node b, buildUnique .enumValue name position
      (fun arena => arena.newEnumValue enum name number position) (retake r feed₁ comments₁) =
        .ok node (rebuild (retake r feed₁ comments₁) b) ∧ r.arena.Keeps [enum] b ∧
      b.Numbers enum (values ++ [(name, number)]) :=
    buildUnique_new .enumValue position (enters_newNumber h) hnew
  obtain ⟨r₂, hattrs, hfeed₂, hk₂⟩ :=
    attachAttrs_ok node (rebuild (retake r feed₁ comments₁) b)
  have hs₂ : r₂.feed.Spells (k :: ks) := by
    rw [hfeed₂]
    exact hs₁
  obtain ⟨feed₃, comments₃, hcomma, hs₃⟩ := matchChar_of_ne hs₂ hk
  obtain ⟨r₄, hcomments, hs₄, hk₄⟩ := attachComments_ok (r := retake r₂ feed₃ comments₃) node hs₃
  have hk₂₄ := hk₂.quiet hk₄
  refine ⟨r₄, ?_, hr.tail hs₄, hkeeps.quiet hk₂₄,
    hnumbers.keep hk₂₄ List.not_mem_nil (by simp)⟩
  rw [bind_ok hclose, bind_ok hentered, bind_ok hattrs, bind_ok hcomma, bind_ok hcomments]
  rfl

/-- A value is read exactly if the storage holds the number that is written, and is listed then. -/
theorem decides_enumValue {enum : Nat} {name : String} {values : List (String × Int64)}
    {negative : Bool} {value : Nat} {k : TokenKind} (enumName : String)
    (word : Option {word : Keyword // word.enumBase.isSome})
    (hr : Faces cx r (.ident name :: .char '(' :: ((if negative then [.char '-'] else []) ++
      literalTokens value (.char ')' :: k :: ks))))
    (hk : k ≠ .char ',') (h : r.arena.Numbers enum values) (hnew : name ∉ values.map (·.1)) :
    Decides (enumValue cx enum enumName (storage word)) r
      ((storage word).contains (signedValue negative value) = true) fun more r' =>
        more = false ∧ Faces cx r' (k :: ks) ∧ r.arena.Keeps [enum] r'.arena ∧
          ∃ number, number.toInt = signedValue negative value ∧
            r'.arena.Numbers enum (values ++ [(name, number)]) := by
  obtain ⟨r₁, hattrs, hr₁, hk₁⟩ := attributes_of_ne hr (stops_ident _ _)
  obtain ⟨⟨kind, position⟩, feed₂, comments₂, hname, rfl, hs₂⟩ :=
    next_of_spells hr₁.spells TokenKind.noConfusion
  obtain ⟨feed₃, comments₃, hopen, hs₃⟩ :=
    expectChar_of_spells (r := retake r₁ feed₂ comments₂) hs₂
  refine .follow hattrs (.follow (bind_ok hname) (.follow hopen ?_))
  have hr₂ : Faces cx (retake r₁ feed₂ comments₂) _ := hr₁.tail hs₂
  have hr₃ : Faces cx (retake (retake r₁ feed₂ comments₂) feed₃ comments₃) _ := hr₂.tail hs₃
  unfold literalTokens Scan.Numeral.intKind? at hr₃
  by_cases hfits : value < 0x8000000000000000
  · rw [if_pos hfits] at hr₃
    obtain ⟨feed₄, comments₄, hsign, hs₄⟩ :=
      matchSign_of_spells negative TokenKind.noConfusion hr₃.spells
    obtain ⟨⟨_, place⟩, feed₅, comments₅, hliteral, rfl, hs₅⟩ := next_of_spells (r := retake
      (retake (retake r₁ feed₂ comments₂) feed₃ comments₃) feed₄ comments₄) hs₄ TokenKind.noConfusion
    refine .follow hsign (.follow hliteral ?_)
    have hr₄ : Faces cx (retake (retake (retake r₁ feed₂ comments₂) feed₃ comments₃) feed₄
      comments₄) _ := hr₃.drop hs₄
    have hr₅ : Faces cx (retake (retake (retake (retake r₁ feed₂ comments₂) feed₃ comments₃) feed₄
      comments₄) feed₅ comments₅) _ := hr₄.tail hs₅
    have hnumber := toInt_signedValue hfits negative
    dsimp only
    generalize (if negative then -Int64.ofNat value else Int64.ofNat value) = number at hnumber
    rw [hnumber]
    by_cases hc : (storage word).contains (signedValue negative value) = true
    · rw [if_pos hc]
      obtain ⟨r₆, hrun, hr₆, hk₆, hnumbers⟩ := enterValue_ok hr₅ hk
        (h.keep hk₁ List.not_mem_nil (by simp)) hnew
      exact ⟨fun _ => ⟨false, r₆, hrun, rfl, hr₆, ((Keeps.refl [enum] _).quiet hk₁).trans hk₆
        fun _ hn _ => hn, number, hnumber, hnumbers⟩, absurd hc⟩
    · rw [if_neg hc]
      exact ⟨fun h => absurd h hc, fun _ => ⟨_, _, rfl⟩⟩
  · rw [if_neg hfits, List.append_nil] at hr₃
    exact ⟨fun hc => absurd (lt_of_contains hc) hfits,
      fun _ => sign_literal_error negative hr₃.spells _⟩

/-- A new type is entered into its package, and found there. -/
theorem declare_new {package : Nat} {aliases types : List String} {name : String}
    {place : Position} {kind : NodeKind} {k : TokenKind} (position : Position)
    (hr : Faces cx r (k :: ks)) (h : Scope cx package aliases types r) (hnew : name ∉ types) :
    ∃ r', declare cx name position r.arena.size
        (rebuild r (r.arena.alloc name (some cx.script) place kind).2) = .ok () r' ∧
      Faces cx r' (k :: ks) ∧ Scope cx package aliases (types ++ [name]) r' ∧
      r'.arena.HasKind r.arena.size (· = kind) ∧ r'.arena.Finds package name r.arena.size ∧
      r.arena.size ≠ cx.script ∧ r.arena.size ≠ package := by
  have hscript : r.arena.size ≠ cx.script := Nat.ne_of_gt h.script.1
  have hpackage : r.arena.size ≠ package := Nat.ne_of_gt h.package.1
  have halloc := Keeps.alloc r.arena name (some cx.script) place kind
  have hname := name_alloc_self r.arena name (some cx.script) place kind
  have hs := h.script.keep halloc List.not_mem_nil
  have hp := h.package.keep halloc List.not_mem_nil
  have henters := enters_declareType hs hp r.arena.size
  rw [hname] at henters
  obtain ⟨_, b, hentered, hk, hs', hp', hfinds, -⟩ : ∃ x b, buildUnique .type name position
      (fun arena => arena.declareType cx.script r.arena.size)
      (rebuild r (r.arena.alloc name (some cx.script) place kind).2) = .ok x (rebuild (rebuild r _) b) ∧
      _ := buildUnique_new .type position henters hnew
  obtain ⟨r₂, hcomments, hs₂, hk₂⟩ := attachComments_ok (r := rebuild (rebuild r
    (r.arena.alloc name (some cx.script) place kind).2) b) r.arena.size hr.spells
  obtain ⟨r₃, hattrs, hfeed₃, hk₃⟩ := attachAttrs_ok r.arena.size r₂
  have hk₂₃ := hk₂.quiet hk₃
  refine ⟨r₃, ?_, hr.keep (hfeed₃ ▸ hs₂), ⟨hs'.keep hk₂₃ List.not_mem_nil,
    hp'.keep hk₂₃ List.not_mem_nil, h.aliases_nodup, nodup_snoc.2 ⟨h.types_nodup, hnew⟩⟩, ?_,
    hfinds.keep hk₂₃ List.not_mem_nil, hscript, hpackage⟩
  · exact (bind_ok hentered).trans ((bind_ok hcomments).trans hattrs)
  · refine ((hasKind_alloc r.arena name (some cx.script) place kind).keep hk ?_).keep hk₂₃
      List.not_mem_nil
    simp [hscript, hpackage]

/-- An enum with one value is read exactly if its storage holds the number that is written. -/
theorem decides_enumDeclaration {package : Nat} {aliases : List String} {name valueName : String}
    {negative : Bool} {value : Nat} {k : TokenKind}
    (word : Option {word : Keyword // word.enumBase.isSome}) (h : Scope cx package aliases [] r)
    (hr : Faces cx r (.ident name :: (storageTokens word ++ .char '\x7b' :: .ident valueName ::
      .char '(' :: ((if negative then [.char '-'] else []) ++
        literalTokens value (.char ')' :: .char '\x7d' :: k :: ks))))) :
    Decides (enumDeclaration cx) r
      ((storage word).contains (signedValue negative value) = true) fun _ r' =>
        Faces cx r' (k :: ks) ∧ ∃ enum number, number.toInt = signedValue negative value ∧
          r'.arena.Finds package name enum ∧ r'.arena.Numbers enum [(valueName, number)] := by
  obtain ⟨⟨kind, position⟩, feed₁, comments₁, hname, rfl, hs₁⟩ :=
    next_of_spells hr.spells TokenKind.noConfusion
  have hr₁ : Faces cx (retake r feed₁ comments₁) _ := hr.tail hs₁
  refine .follow (bind_ok hname) ?_
  obtain ⟨_, r₂, hbase, hs₂, rfl, harena₂⟩ := (reads_enumBase (a := r.arena) hr₁ rfl).complete word
    _ _ rfl (stops_char (by decide)) trivial
  have hr₂ := hr₁.drop hs₂
  have h₂ : Scope cx package aliases [] r₂ :=
    h.keep (harena₂ ▸ Keeps.refl [] _) List.not_mem_nil List.not_mem_nil
  obtain ⟨r₃, hdeclare, hr₃, h₃, hkind, hfinds, hscript, hpackage⟩ :=
    declare_new position hr₂ h₂ List.not_mem_nil
  obtain ⟨feed₄, comments₄, hopen, hs₄⟩ := expectChar_of_spells hr₃.spells
  have hr₄ : Faces cx (retake r₃ feed₄ comments₄) _ := hr₃.tail hs₄
  refine .follow hbase (.follow (build_eq _ _) (.follow hdeclare (.follow hopen ?_)))
  have hempty : r₃.arena.Numbers r₂.arena.size [] := ⟨hkind.1, _, hkind.2, .nil⟩
  have hvalue := decides_enumValue name word hr₄ (by decide) hempty List.not_mem_nil
  refine (hvalue.once (Nat.zero_lt_of_lt hr.covered)).finish ?_
  rintro _ r₅ ⟨hr₅, hk₅, number, hnumber, hnumbers⟩
  obtain ⟨feed₆, comments₆, hclose, hs₆⟩ := expectChar_of_spells hr₅.spells
  refine ⟨(), _, hclose, hr₅.tail hs₆, r₂.arena.size, number, hnumber,
    hfinds.keep hk₅ (by simpa using hpackage.symm), hnumbers⟩

/-- What is known of the enum when it is read. -/
def Reading.Lists (package : Nat) (name valueName : String) (value : Int) (r : Reading σ) : Prop :=
  ∃ enum number, number.toInt = value ∧ r.arena.Finds package name enum ∧
    r.arena.Numbers enum [(valueName, number)]

theorem Reading.Lists.keep {package : Nat} {name valueName : String} {value : Int}
    (h : Reading.Lists package name valueName value r) (hk : r.arena.Keeps [] r'.arena) :
    Reading.Lists package name valueName value r' := by
  obtain ⟨enum, number, hnumber, hfinds, hnumbers⟩ := h
  exact ⟨enum, number, hnumber, hfinds.keep hk List.not_mem_nil,
    hnumbers.keep hk List.not_mem_nil (by simp)⟩

/-- A script that declares an enum with one value is read exactly if its storage holds the number
that is written. -/
theorem decides_script {package : Nat} {name valueName : String} {negative : Bool} {value : Nat}
    (word : Option {word : Keyword // word.enumBase.isSome})
    (hw : Welcomes cx.importer [cx.script, package]) (h : Scope cx package [] [] r)
    (hr : Faces cx r (.keyword .enum :: .ident name :: (storageTokens word ++ .char '\x7b' ::
      .ident valueName :: .char '(' :: ((if negative then [.char '-'] else []) ++
        literalTokens value [.char ')', .char '\x7d', .eof])))) :
    Decides (script cx) r ((storage word).contains (signedValue negative value) = true)
      fun _ => Reading.Lists package name valueName (signedValue negative value) := by
  obtain ⟨rounds, hrounds⟩ : ∃ n, cx.budget = n + 2 := by
    have hcovered := hr.covered
    rw [TokenKind.count_cons TokenKind.noConfusion] at hcovered
    exact ⟨cx.budget - 2, by omega⟩
  -- no imports
  obtain ⟨token, feed₁, comments₁, hpeek, hkind, hs₁⟩ := peek_of_spells hr.spells
  have hstatement : importStatement cx r = .ok false (retake r feed₁ comments₁) := by
    refine (bind_ok hpeek).trans ?_
    rw [hkind, if_neg (by decide)]
    rfl
  have himports : repeatWhile (importStatement cx) cx.budget r = .ok () (retake r feed₁ comments₁) := by
    rw [hrounds]
    exact bind_ok hstatement
  obtain ⟨aliases, r₂, himplicit, hfeed₂, h₂⟩ := implicitImport_ok hw (h.retake feed₁ comments₁)
  have hr₂ : Faces cx r₂ _ := hr.keep (hfeed₂ ▸ hs₁)
  -- the enum
  obtain ⟨r₃, hattrs, hr₃, hk₃⟩ := attributes_of_ne hr₂ fun _ _ => TokenKind.noConfusion
  obtain ⟨⟨kind, position⟩, feed₄, comments₄, hnext, rfl, hs₄⟩ :=
    next_of_spells hr₃.spells TokenKind.noConfusion
  have hr₄ : Faces cx (retake r₃ feed₄ comments₄) _ := hr₃.tail hs₄
  have h₄ : Scope cx package aliases [] (retake r₃ feed₄ comments₄) :=
    (h₂.keep hk₃ List.not_mem_nil List.not_mem_nil).retake ..
  have henum := decides_enumDeclaration word h₄ hr₄
  have hdeclaration : Decides (declaration cx) r₂
      ((storage word).contains (signedValue negative value) = true) fun more r' => more = true ∧
        Faces cx r' [.eof] ∧ Reading.Lists package name valueName (signedValue negative value) r' :=
    .follow hattrs (.follow hnext (henum.finish fun _ r' hr' => ⟨true, r', rfl, rfl, hr'⟩))
  refine .follow himports (.follow himplicit (Decides.finish (P := fun _ =>
    Reading.Lists package name valueName (signedValue negative value)) ?_ ?_))
  · -- the end of the file
    rw [hrounds]
    refine hdeclaration.finish ?_
    rintro _ r₅ ⟨rfl, hr₅, hlists⟩
    obtain ⟨r₆, hattrs₆, hr₆, hk₆⟩ := attributes_of_ne hr₅ fun _ _ => TokenKind.noConfusion
    obtain ⟨⟨_, place⟩, feed₇, comments₇, hend, rfl, -⟩ := next_of_spells_eof hr₆.spells
    have hlast : declaration cx r₅ = .ok false (retake r₆ feed₇ comments₇) :=
      (bind_ok hattrs₆).trans (bind_ok hend)
    exact ⟨(), retake r₆ feed₇ comments₇, bind_ok hlast, hlists.keep hk₆⟩
  · intro _ r₅ hlists
    obtain ⟨r₆, hattrs₆, -, hk₆⟩ := attachAttrs_ok cx.script r₅
    exact ⟨(), _, bind_ok hattrs₆, hlists.keep (hk₆.quiet (Keeps.bindComments ..))⟩

end Parse

/-! ## The source is read -/

open Parse Scan Arena

/-- An enum whose value is written as a decimal or hexadecimal literal of any length, behind an
optional minus sign, is read exactly if the number that is written lies in the range of the storage.
Then the enum lists this number. -/
theorem readScript_enumText {σ : Type} {importer : Importer σ} {script package : Nat} {a : Arena}
    (host : σ) (word : Option {word : Keyword // word.enumBase.isSome}) (negative : Bool)
    (numeral : Numeral) (hfresh : a.Fresh script package)
    (hw : Welcomes importer [script, package]) (hliteral : numeral.Literal)
    (hinteger : numeral.IsInteger) :
    ((∃ s, readScript importer script ⟨enumText word negative numeral.lexeme, true⟩ (a, host) =
        .ok () s) ↔
      (storage word).least ≤ signedValue negative numeral.value ∧
        signedValue negative numeral.value ≤ (storage word).greatest) ∧
    ∀ s, readScript importer script ⟨enumText word negative numeral.lexeme, true⟩ (a, host) =
        .ok () s →
      ∃ enum number, number.toInt = signedValue negative numeral.value ∧
        ((s.1.package? package).bind fun decl => decl.types.find? "E") = some enum ∧
        s.1.enumValues enum = [("A", number)] := by
  have hspells := Lexing.spells_ofSource (a.scriptFile script)
    ⟨enumText word negative numeral.lexeme, true⟩
  rw [Lexing.significant_enumText word negative hliteral hinteger] at hspells
  rw [← EnumBase.contains_iff]
  unfold readScript
  dsimp only
  generalize Feed.ofLexing _ = feed at hspells ⊢
  generalize hcx : (⟨script, a.scriptFile script, (a.packageName? script).getD "",
    feed.size + 1, importer⟩ : ReadingContext σ) = cx
  have hdecides : Decides (Parse.script cx) ⟨feed, [], [], a, host⟩
      ((storage word).contains (signedValue negative numeral.value) = true)
      fun _ => Reading.Lists package "E" "A" (signedValue negative numeral.value) := by
    subst hcx
    exact decides_script word hw ⟨hfresh.script, hfresh.package, List.nodup_nil, List.nodup_nil⟩
      ⟨hspells, by rw [hspells.size_eq]; exact Nat.lt_succ_self _⟩
  by_cases hc : (storage word).contains (signedValue negative numeral.value) = true
  · obtain ⟨_, r', hrun, enum, number, hnumber, hfinds, hnumbers⟩ := hdecides.1 hc
    rw [hrun]
    refine ⟨⟨fun _ => hc, fun _ => ⟨_, rfl⟩⟩, ?_⟩
    rintro _ ⟨⟩
    exact ⟨enum, number, hnumber, hfinds.find?_types, hnumbers.enumValues_eq⟩
  · obtain ⟨e, r', hrun⟩ := hdecides.2 hc
    rw [hrun]
    exact ⟨⟨by rintro ⟨_, ⟨⟩⟩, fun h => absurd h hc⟩, by rintro _ ⟨⟩⟩

/-- The least number of a signed byte is written in base sixteen, and a literal of 65 bits whose low
byte is one is no byte. -/
theorem readScript_enumText_edges : ∃ script b,
    (Arena.empty.newPackage "app").2.newScript 0 "a.tidl" none = (.ok script, b) ∧
    (∃ s, readScript (fun _ _ s => .ok 0 s) script ⟨"enum E(sbyte)\x7bA(-0x80)\x7d".toList, true⟩ (b, ()) =
        .ok () s ∧ ∃ enum number, number.toInt = -128 ∧
      ((s.1.package? 0).bind fun decl => decl.types.find? "E") = some enum ∧
      s.1.enumValues enum = [("A", number)]) ∧
    ¬ ∃ s, readScript (fun _ _ s => .ok 0 s) script
      ⟨"enum E\x7bA(18446744073709551617)\x7d".toList, true⟩ (b, ()) = .ok () s := by
  obtain ⟨script, b, hnew, hfresh⟩ := Arena.empty.fresh_newScript "app" "a.tidl" none
  have hw : Welcomes (fun _ _ s => .ok 0 s : Importer Unit) [script, 0] := welcomes_pure 0 _
  have hleast := readScript_enumText () (some ⟨.sbyte, rfl⟩) true (.hex 'x' ['8', '0']) hfresh hw
    ⟨.inl rfl, List.all_eq_true.1 rfl⟩ (List.cons_ne_nil _ _)
  have hlong := readScript_enumText () none false
    (.decimal "18446744073709551617".toList none none) hfresh hw
    ⟨⟨_, _, rfl⟩, List.all_eq_true.1 rfl, nofun, nofun⟩ ⟨rfl, rfl⟩
  refine ⟨script, b, hnew, ?_, fun h => absurd (hlong.1.1 h) (by decide)⟩
  obtain ⟨s, hs⟩ := hleast.1.2 (by decide)
  exact ⟨s, hs, hleast.2 s hs⟩

end SchemaLang
