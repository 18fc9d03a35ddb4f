import SchemaLang.Proofs.Arena.Legible
import SchemaLang.Proofs.Grammar.ImportSites
import SchemaLang.Proofs.Grammar.Scripts
import SchemaLang.Proofs.Token.Printing

/-!
# Reading edits the arena

The names that a reading writes on nodes are those of its tokens. Words have no blanks in them, and strings
no line feeds (`Lexing.legible_tokens`). So each part of the grammar is made of edits (`Parse.Tidy`), and with
an importer that edits the arena, the whole script is (`edits_readScript`).
-/

namespace SchemaLang

open Arena Text

/-! ## The tokens -/

/-- What is written in a token stands on one line, and names are words. -/
def TokenKind.Legible : TokenKind → Prop
  | ident name => IsWord name
  | label name => Unbroken name
  | string value => Unbroken value
  | _ => True

theorem Text.solid_of_isWordPart {chars : List Char} (h : ∀ c ∈ chars, isWordPart c = true) :
    Solid (String.ofList chars) := by
  intro c hc
  rw [String.toList_ofList] at hc
  have hpart := h c hc
  constructor <;> rintro rfl <;> cases hpart

/-- A word that starts with a letter. -/
theorem Text.isWord_of_isWordPart {c : Char} {rest : List Char} (hstart : isWordStart c = true)
    (hpart : ∀ d ∈ rest, isWordPart d = true) : IsWord (String.ofList (c :: rest)) := by
  refine ⟨fun he => ?_, solid_of_isWordPart
    (List.forall_mem_cons.2 ⟨isWordPart_of_isWordStart hstart, hpart⟩)⟩
  have hnil := congrArg String.toList he
  rw [String.toList_ofList] at hnil
  cases hnil

theorem TokenKind.legible_ofWord {word : String} (h : IsWord word) : (ofWord word).Legible := by
  rcases ofWord_cases word with ⟨_, hword⟩ | ⟨_, hword⟩ | hword <;> rw [hword]
  · trivial
  · trivial
  · exact h

theorem TokenKind.WrittenAs.legible {kind : TokenKind} {lexeme : List Char}
    (h : kind.WrittenAs lexeme) : kind.Legible := by
  cases h with
  | word hstart hpart => exact legible_ofWord (isWord_of_isWordPart hstart hpart)
  | label hstart hpart hname =>
    have hlegible := legible_ofWord (isWord_of_isWordPart hstart hpart)
    rw [hname] at hlegible
    exact hlegible.unbroken
  | number _ hkind =>
    rcases Scan.Numeral.kind?_cases hkind with ⟨_, rfl⟩ | ⟨_, rfl⟩ <;> trivial
  | string hquote hinside => exact (WrittenAs.string hquote hinside).not_mem_string.2
  | _ => trivial

/-- The tokens of a source are legible. -/
theorem Lexing.legible_tokens (file : String) (source : Source) :
    ∀ token ∈ (Feed.ofLexing (ofSource file source)).tokens, token.kind.Legible := by
  intro token htoken
  rw [Feed.tokens_ofSource] at htoken
  rcases (tiles_ofSource file source).writtenAs token (List.mem_of_mem_filter htoken) with
    heof | ⟨lexeme, hwritten⟩
  · rw [heof]
    trivial
  · exact hwritten.legible

namespace Parse

variable {σ α β : Type} {cx : ReadingContext σ} {r r' : Reading σ}

/-! ## Steps of a reading -/

/-- The arena is edited, and the tokens that are left were there before. -/
structure Edited (r r' : Reading σ) : Prop where
  arena : r.arena.Edits r'.arena
  tokens : ∀ token ∈ r'.feed.tokens, token ∈ r.feed.tokens

instance : IsPreorder (Reading σ) Edited where
  refl _ := ⟨.refl _, fun _ => id⟩
  trans _ _ _ h h' := ⟨h.arena.trans h'.arena, fun token ht => h.tokens token (h'.tokens token ht)⟩

/-- Where the tokens are legible, the part of a reading edits the arena. -/
def Tidy (r : Reading σ) (m : Parse σ α) (Q : α → Reading σ → Prop) : Prop :=
  (∀ token ∈ r.feed.tokens, token.kind.Legible) → Leads Edited m r Q

namespace Tidy

variable {P Q : α → Reading σ → Prop} {m : Parse σ α} {f : α → Parse σ β}

theorem pure {x : α} (h : Q x r) : Tidy r (Pure.pure x : Parse σ α) Q :=
  fun _ => Leads.pure h

theorem bind {Q : β → Reading σ → Prop} (h : Tidy r m P)
    (hf : ∀ x r', P x r' → Tidy r' (f x) Q) : Tidy r (m >>= f) Q :=
  fun hr => (h hr).bind fun x r' hr' hx => hf x r' hx fun token ht => hr token (hr'.tokens token ht)

theorem mono (h : Tidy r m P) (hq : ∀ x r', P x r' → Q x r') : Tidy r m Q :=
  fun hr => (h hr).mono fun x r' _ hx => hq x r' hx

theorem ite {c : Prop} [Decidable c] {m' : Parse σ α} (h : Tidy r m Q) (h' : Tidy r m' Q) :
    Tidy r (if c then m else m') Q := by
  split
  · exact h
  · exact h'

end Tidy

section

variable {Q : α → Reading σ → Prop}

theorem tidy_failAt (position : Position) (cause : Cause) : Tidy r (failAt position cause) Q :=
  fun _ => Leads.throw

theorem tidy_unexpected (token : Token) (expected : String) :
    Tidy r (unexpected token expected) Q :=
  tidy_failAt _ _

/-- An operation that edits the arena as it is. -/
theorem tidy_build_at {operation : Arena → α × Arena} (h : r.arena.Edits (operation r.arena).2) :
    Tidy r (build operation) fun x r' => x = (operation r.arena).1 ∧ r'.arena = (operation r.arena).2 :=
  fun _ => ⟨⟨h, fun _ => id⟩, rfl, rfl⟩

theorem tidy_build {operation : Arena → α × Arena} (h : ∀ a : Arena, a.Edits (operation a).2) :
    Tidy r (build operation) fun x r' => x = (operation r.arena).1 ∧ r'.arena = (operation r.arena).2 :=
  tidy_build_at (h r.arena)

theorem tidy_change {operation : Arena → Arena} (h : ∀ a : Arena, a.Edits (operation a)) :
    Tidy r (change operation) fun _ _ => True :=
  (tidy_build h).mono fun _ _ _ => trivial

theorem tidy_inspect (query : Arena → α) : Tidy r (inspect query) fun _ _ => True :=
  fun _ => ⟨refl r, trivial⟩

theorem tidy_buildUnique_at {what : Duplicate} {name : String} {position : Position}
    {operation : Arena → Except NodeId α × Arena} (h : r.arena.Edits (operation r.arena).2) :
    Tidy r (buildUnique what name position operation) fun _ _ => True := by
  refine (tidy_build_at h).bind fun result r₁ _ => ?_
  cases result with
  | ok value => exact .pure trivial
  | error existing => exact (tidy_inspect _).bind fun _ _ _ => tidy_failAt _ _

theorem tidy_buildUnique {what : Duplicate} {name : String} {position : Position}
    {operation : Arena → Except NodeId α × Arena} (h : ∀ a : Arena, a.Edits (operation a).2) :
    Tidy r (buildUnique what name position operation) fun _ _ => True :=
  tidy_buildUnique_at (h r.arena)

end

theorem tidy_peek : Tidy r (peek : Parse σ Token) fun token _ => token.kind.Legible := by
  obtain ⟨feed, comments, attrs, arena, host⟩ := r
  intro hr
  cases feed with
  | more leading token rest =>
    have htoken := hr token List.mem_cons_self
    cases leading <;> exact ⟨⟨.refl _, fun _ => id⟩, htoken⟩
  | done leading position => exact ⟨⟨.refl _, fun _ => id⟩, trivial⟩
  | broken failure => exact ⟨.refl _, fun _ => id⟩

theorem tidy_advance : Tidy r (advance : Parse σ Unit) fun _ _ => True := by
  obtain ⟨feed, comments, attrs, arena, host⟩ := r
  intro _
  cases feed with
  | more leading token rest => exact ⟨⟨.refl _, fun _ => List.mem_cons_of_mem _⟩, trivial⟩
  | done leading position => exact ⟨⟨.refl _, fun _ => id⟩, trivial⟩
  | broken failure => exact ⟨⟨.refl _, fun _ => id⟩, trivial⟩

theorem tidy_next : Tidy r (next : Parse σ Token) fun token _ => token.kind.Legible :=
  tidy_peek.bind fun _ _ htoken => tidy_advance.bind fun _ _ _ => .pure htoken

theorem tidy_nextIs (c : Char) : Tidy r (nextIs c : Parse σ Bool) fun _ _ => True :=
  tidy_peek.bind fun _ _ _ => .pure trivial

theorem tidy_matchChar (c : Char) : Tidy r (matchChar c : Parse σ Bool) fun _ _ => True :=
  (tidy_nextIs c).bind fun _ _ _ => .ite (tidy_advance.bind fun _ _ _ => .pure trivial) (.pure trivial)

theorem tidy_expectChar (c : Char) : Tidy r (expectChar c : Parse σ Unit) fun _ _ => True :=
  tidy_next.bind fun _ _ _ => .ite (.pure trivial) (tidy_unexpected _ _)

theorem tidy_expectIdent (what : String) :
    Tidy r (expectIdent what : Parse σ (String × Position)) fun ident _ => IsWord ident.1 := by
  refine tidy_next.bind fun token r₁ htoken => ?_
  split
  · rename_i hkind
    rw [hkind] at htoken
    exact .pure htoken
  · exact tidy_unexpected _ _

theorem tidy_expectString (what : String) :
    Tidy r (expectString what : Parse σ (String × Position)) fun string _ => Unbroken string.1 := by
  refine tidy_next.bind fun token r₁ htoken => ?_
  split
  · rename_i hkind
    rw [hkind] at htoken
    exact .pure htoken
  · exact tidy_unexpected _ _

theorem tidy_nextIsIdent : Tidy r (nextIsIdent : Parse σ Bool) fun _ _ => True := by
  refine tidy_peek.bind fun token r₁ _ => ?_
  split <;> exact .pure trivial

theorem tidy_repeatWhile {step : Parse σ Bool} (h : ∀ r, Tidy r step fun _ _ => True) :
    ∀ (fuel : Nat) (r : Reading σ), Tidy r (repeatWhile step fuel) fun _ _ => True
  | 0, _ => .pure trivial
  | fuel + 1, r => (h r).bind fun _ r₁ _ => .ite (tidy_repeatWhile h fuel r₁) (.pure trivial)

theorem tidy_attachComments (node : NodeId) :
    Tidy r (attachComments node : Parse σ Unit) fun _ _ => True :=
  tidy_peek.bind fun _ _ _ _ => ⟨⟨.bindComments .., fun _ => id⟩, trivial⟩

theorem tidy_attachAllComments (node : NodeId) :
    Tidy r (attachAllComments node : Parse σ Unit) fun _ _ => True :=
  fun _ => ⟨⟨.bindComments .., fun _ => id⟩, trivial⟩

theorem tidy_holdAttr (attr : NodeId) : Tidy r (holdAttr attr : Parse σ Unit) fun _ _ => True :=
  fun _ => ⟨⟨.refl _, fun _ => id⟩, trivial⟩

theorem tidy_attachAttrs (node : NodeId) :
    Tidy r (attachAttrs node : Parse σ Unit) fun _ _ => True :=
  fun _ => ⟨⟨.addAttrs node r.attrs r.arena, fun _ => id⟩, trivial⟩

/-! ## References, arguments and attributes -/

theorem tidy_pathTail : ∀ (fuel : Nat) (path : List String) (r : Reading σ),
    (∀ part ∈ path, Unbroken part) →
    Tidy r (pathTail fuel path : Parse σ (List String)) fun path _ => ∀ part ∈ path, Unbroken part
  | 0, _, _, h => .pure h
  | fuel + 1, _, _, h => (tidy_matchChar '.').bind fun _ _ _ => .ite
    ((tidy_expectIdent _).bind fun _ r₂ hident => tidy_pathTail fuel _ r₂ fun part hpart =>
      (List.mem_append.1 hpart).elim (h part) fun he => List.mem_singleton.1 he ▸ hident.unbroken)
    (.pure h)

/-- A new reference is called after its path. -/
theorem tidy_newTypeRef {path : List String} (position : Position)
    (h : ∀ part ∈ path, Unbroken part) :
    Tidy r (build fun arena => arena.newTypeRef cx.script path position) fun n r' =>
      Unbroken (r'.arena.name n) := by
  refine (tidy_build fun a => edits_newTypeRef a _ position h).mono ?_
  rintro _ r₁ ⟨rfl, harena⟩
  rw [harena]
  unfold newTypeRef
  rw [fst_alloc, name_alloc_self]
  exact unbroken_intercalate (by decide) h

theorem tidy_finishRef {first : String} (position : Position) (h : Unbroken first) :
    Tidy r (finishRef cx first position) fun n r' => Unbroken (r'.arena.name n) :=
  (tidy_pathTail _ _ _ (List.forall_mem_singleton.2 h)).bind fun _ _ hpath =>
    tidy_newTypeRef position hpath

theorem tidy_typeRef : Tidy r (typeRef cx) fun n r' => Unbroken (r'.arena.name n) :=
  (tidy_expectIdent _).bind fun _ _ hident => tidy_finishRef _ hident.unbroken

/-- A literal. -/
theorem tidy_literal (position : Position) {kind : NodeKind} (h : ∀ a : Arena, a.Inscribed "" kind) :
    Tidy r (build fun arena => arena.alloc "" (some cx.script) position kind) fun _ _ => True :=
  (tidy_build fun a => edits_literal a _ position (h a)).mono fun _ _ _ => trivial

theorem tidy_signed (negative : Bool) (position : Position) :
    Tidy r (signed cx negative position) fun _ _ => True := by
  refine tidy_next.bind fun number r₁ _ => ?_
  split
  · exact tidy_literal position fun _ => (by decide : Unbroken "")
  · exact tidy_literal position fun _ => (by decide : Unbroken "")
  · exact tidy_unexpected _ _

theorem tidy_operand : Tidy r (operand cx) fun _ _ => True := by
  refine tidy_next.bind fun token r₁ htoken => ?_
  dsimp only
  split
  · exact tidy_literal _ fun _ => (by decide : Unbroken "")
  · exact tidy_literal _ fun _ => (by decide : Unbroken "")
  · exact tidy_literal _ fun _ => (by decide : Unbroken "")
  · exact tidy_literal _ fun _ => (by decide : Unbroken "")
  · exact .ite (tidy_signed _ _) (.ite (tidy_signed _ _) (tidy_unexpected _ _))
  · rename_i hkind
    rw [hkind] at htoken
    exact (tidy_finishRef _ htoken.unbroken).mono fun _ _ _ => trivial
  · exact tidy_unexpected _ _

theorem tidy_unionTail : ∀ (fuel : Nat) (value : NodeId) (r : Reading σ),
    Tidy r (unionTail cx fuel value) fun _ _ => True
  | 0, _, _ => .pure trivial
  | fuel + 1, value, r => by
    refine tidy_peek.bind fun bar r₁ _ => .ite ?_ (.pure trivial)
    refine tidy_advance.bind fun _ r₂ _ => tidy_operand.bind fun right r₃ _ => ?_
    exact (tidy_build fun a => edits_newUnion a _ value right _).bind fun union r₄ _ =>
      tidy_unionTail fuel union r₄

theorem tidy_argument : Tidy r (argument cx) fun _ _ => True :=
  tidy_operand.bind fun value r₁ _ => tidy_unionTail _ value r₁

theorem tidy_namedArgument (args : NodeId) : Tidy r (namedArgument cx args) fun _ _ => True := by
  refine tidy_next.bind fun label r₁ hlabel => ?_
  split
  · rename_i hkind
    rw [hkind] at hlabel
    refine tidy_argument.bind fun value r₂ _ => ?_
    refine (tidy_buildUnique fun a => edits_insertNamedArg a args value hlabel).bind fun _ r₃ _ => ?_
    refine (tidy_matchChar ',').bind fun more r₄ _ => ?_
    exact (tidy_attachComments value).bind fun _ _ _ => .pure trivial
  · exact tidy_unexpected _ _

theorem tidy_positionalArgument (args : NodeId) :
    Tidy r (positionalArgument cx args) fun _ _ => True := by
  refine tidy_argument.bind fun value r₁ _ => ?_
  refine (tidy_change fun a => edits_pushArg a args value).bind fun _ r₂ _ => ?_
  refine (tidy_matchChar ',').bind fun more r₃ _ => ?_
  exact (tidy_attachComments value).bind fun _ _ _ => .pure trivial

theorem tidy_arguments : Tidy r (arguments cx) fun _ _ => True := by
  refine tidy_peek.bind fun token r₁ _ => ?_
  split
  · exact .pure trivial
  · refine (tidy_build fun a => edits_newNamedArgs a _ _).bind fun args r₂ _ => ?_
    exact (tidy_repeatWhile (fun _ => tidy_namedArgument args) _ r₂).bind fun _ _ _ => .pure trivial
  · refine (tidy_build fun a => edits_newArgs a _ _).bind fun args r₂ _ => ?_
    exact (tidy_repeatWhile (fun _ => tidy_positionalArgument args) _ r₂).bind fun _ _ _ =>
      .pure trivial

/-- An attribute is called as the reference to its type. -/
theorem tidy_newAttr {type : NodeId} (position : Position) (h : Unbroken (r.arena.name type)) :
    Tidy r (build fun arena => arena.newAttr cx.script type position) fun _ _ => True :=
  (tidy_build_at (edits_newAttr r.arena _ position h)).mono fun _ _ _ => trivial

theorem tidy_attr : Tidy r (attr cx) fun _ _ => True := by
  have hrest : ∀ (node : NodeId) (r : Reading σ), Tidy r (do
      attachComments node
      holdAttr node
      Pure.pure true : Parse σ Bool) fun _ _ => True := fun node _ =>
    (tidy_attachComments node).bind fun _ _ _ => (tidy_holdAttr node).bind fun _ _ _ => .pure trivial
  refine tidy_peek.bind fun sign r₁ _ => .ite ?_ (.pure trivial)
  refine tidy_advance.bind fun _ r₂ _ => tidy_typeRef.bind fun type r₃ htype => ?_
  refine (tidy_newAttr _ htype).bind fun node r₄ _ => (tidy_matchChar '(').bind fun opened r₅ _ => ?_
  refine .ite (tidy_arguments.bind fun args r₆ _ => ?_) (hrest node r₅)
  cases args with
  | none => exact (tidy_expectChar ')').bind fun _ r₇ _ => hrest node r₇
  | some args => exact (tidy_change fun a => edits_setAttrArgs a node args).bind fun _ r₇ _ =>
      (tidy_expectChar ')').bind fun _ r₈ _ => hrest node r₈

theorem tidy_attributes : Tidy r (attributes cx) fun _ _ => True :=
  tidy_repeatWhile (fun _ => tidy_attr) _ r

/-! ## Types -/

theorem tidy_builtinRef {name : String} (position : Position) (h : Unbroken name) :
    Tidy r (builtinRef cx name position) fun n r' => Unbroken (r'.arena.name n) := by
  refine tidy_newTypeRef position ?_
  split
  · exact List.forall_mem_singleton.2 h
  · exact List.forall_mem_cons.2 ⟨by decide, List.forall_mem_singleton.2 h⟩

/-- The scalar types have names. -/
theorem unbroken_typeName {word : Keyword} {name : String} (h : word.typeName = some name) :
    Unbroken name := by
  cases word <;> cases h <;> decide

theorem tidy_arrayLength : Tidy r (arrayLength : Parse σ (Option UInt16)) fun _ _ => True := by
  refine tidy_peek.bind fun literal r₁ _ => ?_
  split
  · exact tidy_advance.bind fun _ _ _ => .ite (.pure trivial) (tidy_failAt _ _)
  · exact .pure trivial

theorem tidy_typeWithin : ∀ (fuel : Nat) (r : Reading σ), Tidy r (typeWithin cx fuel) fun _ _ => True
  | 0, _ => tidy_next.bind fun _ _ _ => tidy_unexpected _ _
  | fuel + 1, r => by
    have ih : ∀ r : Reading σ, Tidy r (typeWithin cx fuel) fun _ _ => True := tidy_typeWithin fuel
    have hbuild : ∀ {operation : Arena → NodeId × Arena} (r : Reading σ),
        (∀ a : Arena, a.Edits (operation a).2) → Tidy r (build operation) fun _ _ => True :=
      fun r h => (tidy_build h).mono fun _ _ _ => trivial
    refine tidy_next.bind fun token r₁ htoken => ?_
    split
    · refine tidy_arrayLength.bind fun length r₂ _ => (tidy_expectChar ']').bind fun _ r₃ _ => ?_
      refine (ih r₃).bind fun element r₄ _ => (tidy_inspect _).bind fun _ r₅ _ => ?_
      refine .ite (tidy_failAt _ _) ?_
      split
      · exact hbuild r₅ fun a => edits_newArray a ..
      · exact hbuild r₅ fun a => edits_newList a ..
    · refine (tidy_expectChar '[').bind fun _ r₂ _ => (ih r₂).bind fun key r₃ _ => ?_
      refine (tidy_inspect _).bind fun _ r₄ _ => .ite (tidy_failAt _ _) ?_
      refine (tidy_expectChar ']').bind fun _ r₅ _ => (ih r₅).bind fun value r₆ _ => ?_
      exact (tidy_inspect _).bind fun _ r₇ _ => .ite (tidy_failAt _ _)
        (hbuild r₇ fun a => edits_newMap a ..)
    · split
      · rename_i hname
        exact (tidy_builtinRef _ (unbroken_typeName hname)).mono fun _ _ _ => trivial
      · exact tidy_unexpected _ _
    · rename_i hkind
      rw [hkind] at htoken
      exact (tidy_finishRef _ htoken.unbroken).mono fun _ _ _ => trivial
    · exact tidy_unexpected _ _

theorem tidy_typeExpression : Tidy r (typeExpression cx) fun _ _ => True :=
  tidy_typeWithin _ r

/-! ## Declarations -/

theorem tidy_declare (name : String) (position : Position) (type : NodeId) :
    Tidy r (declare cx name position type) fun _ _ => True :=
  (tidy_buildUnique fun a => edits_declareType a ..).bind fun _ _ _ =>
    (tidy_attachComments type).bind fun _ _ _ => tidy_attachAttrs type

theorem tidy_enumBase : Tidy r (enumBase : Parse σ EnumBase) fun _ _ => True := by
  refine (tidy_matchChar '(').bind fun _ r₁ _ => .ite (tidy_next.bind fun token r₂ _ => ?_)
    (.pure trivial)
  dsimp only
  split
  · exact (tidy_expectChar ')').bind fun _ _ _ => .pure trivial
  · exact tidy_unexpected _ _

theorem tidy_enumValue (enum : NodeId) (enumName : String) (base : EnumBase) :
    Tidy r (enumValue cx enum enumName base) fun _ _ => True := by
  refine tidy_attributes.bind fun _ r₁ _ => (tidy_expectIdent _).bind fun ident r₂ hident => ?_
  refine (tidy_expectChar '(').bind fun _ r₃ _ => (tidy_matchChar '-').bind fun negative r₄ _ => ?_
  refine tidy_next.bind fun literal r₅ _ => ?_
  split
  · dsimp only
    refine .ite ?_ (tidy_failAt _ _)
    refine (tidy_expectChar ')').bind fun _ r₆ _ => ?_
    refine (tidy_buildUnique fun a => edits_newEnumValue a enum _ _ hident).bind fun node r₇ _ => ?_
    refine (tidy_attachAttrs node).bind fun _ r₈ _ => (tidy_matchChar ',').bind fun more r₉ _ => ?_
    exact (tidy_attachComments node).bind fun _ _ _ => .pure trivial
  · exact tidy_unexpected _ _

/-- A body between braces. -/
theorem tidy_braced {body : Parse σ Unit} (h : ∀ r, Tidy r body fun _ _ => True) : Tidy r (do
    expectChar '\x7b'
    body
    expectChar '\x7d' : Parse σ Unit) fun _ _ => True :=
  (tidy_expectChar '\x7b').bind fun _ r₁ _ => (h r₁).bind fun _ _ _ => tidy_expectChar '\x7d'

theorem tidy_enumDeclaration : Tidy r (enumDeclaration cx) fun _ _ => True := by
  refine (tidy_expectIdent _).bind fun ident r₁ hident => tidy_enumBase.bind fun base r₂ _ => ?_
  refine (tidy_build fun a => edits_newEnum a _ base _ hident.unbroken).bind fun enum r₃ _ => ?_
  refine (tidy_declare _ _ enum).bind fun _ r₄ _ => ?_
  exact tidy_braced (tidy_repeatWhile (fun _ => tidy_enumValue enum _ base) _)

theorem tidy_field (table : NodeId) : Tidy r (field cx table) fun _ _ => True := by
  refine tidy_attributes.bind fun _ r₁ _ => tidy_nextIsIdent.bind fun _ r₂ _ => ?_
  refine .ite ?_ (.pure trivial)
  refine (tidy_expectIdent _).bind fun ident r₃ hident => tidy_typeExpression.bind fun type r₄ _ => ?_
  refine (tidy_expectChar ';').bind fun _ r₅ _ => (tidy_inspect _).bind fun _ r₆ _ => ?_
  refine .ite (tidy_failAt _ _) ?_
  refine (tidy_buildUnique fun a => edits_newField a table type _ hident.unbroken).bind
    fun node r₇ _ => ?_
  refine (tidy_attachComments node).bind fun _ r₈ _ => ?_
  exact (tidy_attachAttrs node).bind fun _ _ _ => .pure trivial

theorem tidy_markStruct (table : NodeId) (position : Position) :
    Tidy r (markStruct cx table position) fun _ _ => True :=
  (tidy_builtinRef _ (by decide)).bind fun _ _ htype => (tidy_newAttr _ htype).bind fun attr _ _ =>
    tidy_change fun a => .addAttr a table attr

theorem tidy_tableDeclaration (isStruct : Bool) :
    Tidy r (tableDeclaration cx isStruct) fun _ _ => True := by
  have hbody : ∀ (table : NodeId) (r : Reading σ), Tidy r (do
      expectChar '\x7b'
      repeatWhile (field cx table) cx.budget
      expectChar '\x7d') fun _ _ => True := fun table _ =>
    tidy_braced (tidy_repeatWhile (fun _ => tidy_field table) _)
  refine (tidy_expectIdent _).bind fun ident r₁ hident => ?_
  refine (tidy_build fun a => edits_newTable a _ _ hident.unbroken).bind fun table r₂ _ => ?_
  refine (tidy_declare _ _ table).bind fun _ r₃ _ => .ite ?_ (hbody table r₃)
  exact (tidy_markStruct table _).bind fun _ r₄ _ => hbody table r₄

theorem tidy_baseContract (contract : NodeId) :
    Tidy r (baseContract cx contract) fun _ _ => True := by
  refine tidy_typeRef.bind fun base r₁ _ => (tidy_inspect _).bind fun name r₂ _ => ?_
  refine (tidy_inspect _).bind fun position r₃ _ => ?_
  refine (tidy_buildUnique fun a => edits_addBase a contract base).bind fun _ r₄ _ => ?_
  exact (tidy_attachComments base).bind fun _ _ _ => tidy_matchChar ','

theorem tidy_slot (method : NodeId) (isResult : Bool) :
    Tidy r (slot cx method isResult) fun _ _ => True := by
  refine tidy_attributes.bind fun _ r₁ _ => tidy_peek.bind fun first r₂ _ => ?_
  refine tidy_typeExpression.bind fun type r₃ _ => ?_
  refine (tidy_build fun a => ?_).bind fun node r₄ _ => ?_
  · split
    · exact edits_newResult a ..
    · exact edits_newParam a ..
  refine (tidy_attachAttrs node).bind fun _ r₅ _ => (tidy_attachComments node).bind fun _ r₆ _ => ?_
  exact tidy_matchChar ','

theorem tidy_signature (method : NodeId) : Tidy r (signature cx method) fun _ _ => True := by
  have hslots : ∀ (isResult : Bool) (r : Reading σ), Tidy r (slots cx method isResult) fun _ _ => True :=
    fun isResult => tidy_repeatWhile (fun _ => tidy_slot method isResult) _
  have hresults : ∀ r : Reading σ, Tidy r (do
      expectChar ')'
      let token ← peek
      if token.kind == .arrow then
        advance
        expectChar '('
        slots cx method true
        expectChar ')'
      expectChar ';' : Parse σ Unit) fun _ _ => True := fun r => by
    refine (tidy_expectChar ')').bind fun _ r₁ _ => tidy_peek.bind fun token r₂ _ => ?_
    refine .ite ?_ (tidy_expectChar ';')
    refine tidy_advance.bind fun _ r₃ _ => (tidy_expectChar '(').bind fun _ r₄ _ => ?_
    refine (hslots true r₄).bind fun _ r₅ _ => (tidy_expectChar ')').bind fun _ r₆ _ => ?_
    exact tidy_expectChar ';'
  refine (tidy_expectChar '(').bind fun _ r₁ _ => (tidy_nextIs ')').bind fun closed r₂ _ => ?_
  exact .ite ((hslots false r₂).bind fun _ r₃ _ => hresults r₃) (hresults r₂)

theorem tidy_method (contract : NodeId) : Tidy r (method cx contract) fun _ _ => True := by
  refine tidy_attributes.bind fun _ r₁ _ => tidy_nextIsIdent.bind fun _ r₂ _ => ?_
  refine .ite ?_ (.pure trivial)
  refine (tidy_expectIdent _).bind fun ident r₃ hident => (tidy_inspect _).bind fun _ r₄ _ => ?_
  refine .ite (tidy_failAt _ _) ?_
  refine (tidy_buildUnique fun a => edits_newMethod a contract _ hident.unbroken).bind
    fun node r₅ _ => ?_
  refine (tidy_attachAttrs node).bind fun _ r₆ _ => (tidy_attachComments node).bind fun _ r₇ _ => ?_
  refine (tidy_signature node).bind fun _ r₈ _ => (tidy_attachComments node).bind fun _ r₉ _ => ?_
  exact .pure trivial

theorem tidy_contractDeclaration : Tidy r (contractDeclaration cx) fun _ _ => True := by
  have hbody : ∀ (contract : NodeId) (r : Reading σ), Tidy r (do
      expectChar '\x7b'
      repeatWhile (method cx contract) cx.budget
      expectChar '\x7d') fun _ _ => True := fun contract _ =>
    tidy_braced (tidy_repeatWhile (fun _ => tidy_method contract) _)
  refine (tidy_expectIdent _).bind fun ident r₁ hident => ?_
  refine (tidy_build fun a => edits_newContract a _ _ hident.unbroken).bind fun contract r₂ _ => ?_
  refine (tidy_declare _ _ contract).bind fun _ r₃ _ => (tidy_matchChar '(').bind fun _ r₄ _ => ?_
  refine .ite ?_ (hbody contract r₄)
  refine (tidy_repeatWhile (fun _ => tidy_baseContract contract) _ r₄).bind fun _ r₅ _ => ?_
  exact (tidy_expectChar ')').bind fun _ r₆ _ => hbody contract r₆

theorem tidy_declaration : Tidy r (declaration cx) fun _ _ => True := by
  refine tidy_attributes.bind fun _ r₁ _ => tidy_next.bind fun token r₂ _ => ?_
  split
  · exact .pure trivial
  · exact tidy_enumDeclaration.bind fun _ _ _ => .pure trivial
  · exact (tidy_tableDeclaration false).bind fun _ _ _ => .pure trivial
  · exact (tidy_tableDeclaration true).bind fun _ _ _ => .pure trivial
  · exact tidy_contractDeclaration.bind fun _ _ _ => .pure trivial
  · exact tidy_unexpected _ _

/-! ## Imports -/

end Parse

/-- The arena is edited, whatever happens to what is kept beside it. -/
def EditsArena {σ : Type} (x y : Arena × σ) : Prop :=
  x.1.Edits y.1

instance {σ : Type} : IsPreorder (Arena × σ) EditsArena where
  refl x := .refl x.1
  trans _ _ _ h h' := Arena.Edits.trans h h'

/-- The importer edits the arena, and answers with a package that is called by a name on one line. -/
def Hosting.Edits {σ : Type} {importer : Importer σ} {p : NodeId} (hosting : Hosting importer p) :
    Prop :=
  ∀ (path : String) (position : Position) (a : Arena) (host : σ), hosting.Inv a host → Unbroken path →
    Leads EditsArena (importer path position) (a, host) fun q y => Unbroken (y.1.name q)

namespace Parse

variable {σ α : Type} {cx : ReadingContext σ} {r : Reading σ} {p : NodeId}
  {hosting : Hosting cx.importer p}

theorem lt_size_of_level {a : Arena} {n : NodeId} (h : (a.kind n).level = 8) : n < a.size := by
  refine Nat.lt_of_not_le fun hn => ?_
  unfold Arena.kind at h
  rw [node_of_size_le hn] at h
  exact absurd h (by decide)

theorem tidy_importPackage {path : String} {position : Position} (he : hosting.Edits)
    (h : Stands hosting r []) (hpath : Unbroken path) :
    Tidy r (importPackage cx path position) fun package r' => Stands hosting r' [] ∧
      package < r'.arena.size ∧ Unbroken (r'.arena.name package) := by
  have hanswer := he path position r.arena r.host h.inv hpath
  intro _
  refine ((leads_importPackage h).both (leads_answer (R := Edited)
    (Q := fun package r' => Unbroken (r'.arena.name package)) (fun q b host hrun => ?_)
    fun e b host hrun => ?_)).mono fun q r' _ hq => ⟨hq.1.1, lt_size_of_level hq.1.2.1, hq.2⟩
  · obtain ⟨hedits, hname⟩ := hanswer.ok hrun
    exact ⟨⟨hedits, fun _ => id⟩, hname⟩
  · exact ⟨hanswer.error hrun, fun _ => id⟩

theorem tidy_bindImport {name : String} {package : NodeId} (position : Position)
    (hname : Unbroken name) (hlt : package < r.arena.size)
    (hpackage : Unbroken (r.arena.name package)) :
    Tidy r (bindImport cx name package position) fun _ _ => True :=
  tidy_buildUnique_at (edits_newPackageRef r.arena _ position hname hlt hpackage)

/-- The alias of a path is a part of it. -/
theorem unbroken_aliasOf {path : String} (h : Unbroken path) : Unbroken (aliasOf path) := by
  unfold Unbroken aliasOf at *
  rw [String.toList_ofList, List.mem_reverse]
  intro hmem
  refine h (List.mem_reverse.1 ((List.dropWhile_suffix _).subset ((List.takeWhile_subset _) hmem)))

theorem tidy_importClause (he : hosting.Edits) (h : Stands hosting r []) :
    Tidy r (importClause cx) fun _ _ => True := by
  have hrest : ∀ (name path : String) (position : Position) (r₁ : Reading σ),
      Unbroken name → Unbroken path → Stands hosting r₁ [] → Tidy r₁ (do
        let package ← importPackage cx path position
        let node ← bindImport cx name package position
        attachComments node) fun _ _ => True := by
    intro name path position r₁ hname hpath h₁
    refine (tidy_importPackage he h₁ hpath).bind fun package r₂ ⟨_, hlt, hpackage⟩ => ?_
    refine (tidy_bindImport position hname hlt hpackage).bind fun node r₃ _ => ?_
    exact tidy_attachComments node
  have hnext : Tidy r (next : Parse σ Token) fun token r' =>
      Stands hosting r' [] ∧ token.kind.Legible := fun hr => h.quiet quiet_next (tidy_next hr)
  refine hnext.bind fun token r₁ ⟨h₁, htoken⟩ => ?_
  dsimp only
  split
  · rename_i hkind
    rw [hkind] at htoken
    exact hrest _ _ _ r₁ (unbroken_aliasOf htoken) htoken h₁
  · rename_i hkind
    rw [hkind] at htoken
    have hstring : Tidy r₁ (expectString "import path" : Parse σ (String × Position)) fun path r' =>
        Stands hosting r' [] ∧ Unbroken path.1 := fun hr =>
      h₁.quiet (quiet_expectString _) (tidy_expectString _ hr)
    exact hstring.bind fun path r₂ ⟨h₂, hpath⟩ => hrest _ _ _ r₂ htoken.unbroken hpath h₂
  · exact Tidy.bind (P := fun _ _ => False) (tidy_unexpected _ _) fun _ _ h => h.elim

/-- A loop that leaves the script as it stands. -/
theorem tidy_imports {step : Parse σ Bool}
    (hs : ∀ r, Stands hosting r [] → Leads (Steps hosting 0) step r fun _ r' => Stands hosting r' [])
    (h : ∀ r, Stands hosting r [] → Tidy r step fun _ _ => True) :
    ∀ (fuel : Nat) (r : Reading σ), Stands hosting r [] →
      Tidy r (repeatWhile step fuel) fun _ r' => Stands hosting r' []
  | 0, _, hr => .pure hr
  | fuel + 1, r, hr => by
    have hstep : Tidy r step fun _ r' => Stands hosting r' [] := fun htokens =>
      ((hs r hr).both (h r hr htokens)).mono fun _ _ _ h => h.1
    exact hstep.bind fun _ r₁ h₁ => .ite (tidy_imports hs h fuel r₁ h₁) (.pure h₁)

theorem tidy_groupedImport (he : hosting.Edits) (h : Stands hosting r []) :
    Tidy r (groupedImport cx) fun _ _ => True := by
  have hclosed : Tidy r (nextIs ')' : Parse σ Bool) fun _ r' => Stands hosting r' [] ∧ True :=
    fun hr => h.quiet (quiet_nextIs _) (tidy_nextIs _ hr)
  refine hclosed.bind fun closed r₁ ⟨h₁, _⟩ => .ite (.pure trivial) ?_
  exact (tidy_importClause he h₁).bind fun _ _ _ => .pure trivial

theorem tidy_importStatement (he : hosting.Edits) (h : Stands hosting r []) :
    Tidy r (importStatement cx) fun _ _ => True := by
  have hpeek : Tidy r (peek : Parse σ Token) fun token r' => Stands hosting r' [] ∧ token.kind.Legible :=
    fun hr => h.quiet quiet_peek (tidy_peek hr)
  refine hpeek.bind fun token r₁ ⟨h₁, _⟩ => .ite ?_ (.pure trivial)
  have hadvance : Tidy r₁ (advance : Parse σ Unit) fun _ r' => Stands hosting r' [] ∧ True :=
    fun hr => h₁.quiet quiet_advance (tidy_advance hr)
  refine hadvance.bind fun _ r₂ ⟨h₂, _⟩ => ?_
  have hgroup : Tidy r₂ (matchChar '(' : Parse σ Bool) fun _ r' => Stands hosting r' [] ∧ True :=
    fun hr => h₂.quiet (quiet_matchChar _) (tidy_matchChar _ hr)
  refine hgroup.bind fun grouped r₃ ⟨h₃, _⟩ => ?_
  dsimp only
  split
  · refine (tidy_imports (fun _ => leads_groupedImport) (fun _ => tidy_groupedImport he) _ r₃ h₃).bind
      fun _ r₄ _ => ?_
    exact (tidy_expectChar ')').bind fun _ _ _ => .pure trivial
  · exact (tidy_importClause he h₃).bind fun _ _ _ => .pure trivial

theorem tidy_implicitImport (he : hosting.Edits) (h : Stands hosting r []) :
    Tidy r (implicitImport cx) fun _ _ => True := by
  have hinspect : ∀ query : Arena → Bool, Tidy r (inspect query) fun _ r' =>
      Stands hosting r' [] ∧ True := fun query hr => h.quiet (quiet_inspect _) (tidy_inspect query hr)
  refine (hinspect _).bind fun bound r₁ ⟨h₁, _⟩ => .ite ?_ (.pure trivial)
  refine (tidy_importPackage he h₁ (by decide)).bind fun package r₂ ⟨_, hlt, hpackage⟩ => ?_
  exact (tidy_bindImport _ (by decide) hlt hpackage).bind fun _ _ _ => .pure trivial

/-! ## The whole script -/

theorem tidy_script (he : hosting.Edits) (h : Stands hosting r []) :
    Tidy r (script cx) fun _ _ => True := by
  refine (tidy_imports (fun _ => leads_importStatement) (fun _ => tidy_importStatement he) _ r h).bind
    fun _ r₁ h₁ => ?_
  refine (tidy_implicitImport he h₁).bind fun _ r₂ _ => ?_
  refine (tidy_repeatWhile (fun _ => tidy_declaration) _ r₂).bind fun _ r₃ _ => ?_
  exact (tidy_attachAttrs _).bind fun _ _ _ => tidy_attachAllComments _

end Parse

/-- Reading a script edits the arena. -/
theorem edits_readScript {σ : Type} {importer : Importer σ} {p s : NodeId} {a : Arena} {host : σ}
    {hosting : Hosting importer p} (he : hosting.Edits) (source : Source) (hi : hosting.Inv a host)
    (h : Forest p s (hosting.served host) a []) :
    Leads EditsArena (readScript importer s source) (a, host) fun _ _ => True := by
  let cx : ReadingContext σ := ⟨s, a.scriptFile s, (a.packageName? s).getD "",
    (Feed.ofLexing (Lexing.ofSource (a.scriptFile s) source)).size + 1, importer⟩
  let hosting' : Hosting cx.importer p := hosting
  have hstands : Parse.Stands hosting'
      ⟨.ofLexing (.ofSource (a.scriptFile s) source), [], [], a, host⟩ [] :=
    ⟨hi, h, fun x hx => by cases hx⟩
  have he' : hosting'.Edits := he
  exact leads_of_script (((Parse.tidy_script he' hstands)
    (Lexing.legible_tokens _ source)).weaken fun _ hr => hr.arena)

end SchemaLang
