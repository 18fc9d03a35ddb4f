import SchemaLang.Proofs.Grammar.Acceptance
import SchemaLang.Proofs.Grammar.Constants
import SchemaLang.Proofs.Token.Separation

/-!
# Integers as arguments

An integer stands as the argument `v` of an attribute `@A(v)`, written in its decimal digits, in front of
any declaration of any script. Digits and sign are tokens of their own: the digits have to fit without the
sign, so the least number of 64 bits cannot be written. Every other number is read back as it was.
-/

namespace SchemaLang

open Phrase Text

/-! ## The attribute -/

/-- An integer as an operand, with the digits behind a minus sign where it is negative. -/
def Phrase.Operand.ofInt64 (value : Int64) : Phrase.Operand :=
  if value.toInt < 0 then .signed true (.int (-value)) else .number (.int value)

theorem Phrase.Operand.kind_ofInt64 (value : Int64) (target : Option NodeId) :
    (ofInt64 value).kind target = .int value := by
  unfold ofInt64
  split
  · exact congrArg NodeKind.int Int64.neg_neg
  · rfl

/-- An attribute `A` with an integer as its argument. -/
def marker (value : Int64) : Attr :=
  ⟨⟨"A", []⟩, some (.listed ⟨⟨.ofInt64 value, []⟩, []⟩)⟩

/-- How the attribute is written. -/
def markerText (value : Int64) : List Char :=
  '@' :: 'A' :: '(' :: ((toString value).toList ++ [')'])

/-- A number is written in the digits of its size. -/
theorem toList_toString_int64 (value : Int64) : (toString value).toList =
    (if value.toInt < 0 then ['-'] else []) ++ (Scan.Numeral.ofNat value.toInt.natAbs).lexeme := by
  have htext : toString value = toString value.toInt := rfl
  rw [htext, Int.toString_eq_repr, Int.repr_eq_if, Scan.Numeral.lexeme_ofNat]
  by_cases hneg : value.toInt < 0
  · have hsize : value.toInt.natAbs = (-value.toInt).toNat := by omega
    rw [if_neg (by omega), if_pos hneg, hsize, String.toList_append, Nat.repr_eq_ofList_toDigits]
    exact congrArg _ String.toList_ofList
  · have hsize : value.toInt.natAbs = value.toInt.toNat := by omega
    rw [if_pos (by omega), if_neg hneg, hsize, Nat.repr_eq_ofList_toDigits, String.toList_ofList,
      List.nil_append]

theorem yields_markerText (value : Int64) {after : List Char} {kinds : List TokenKind}
    (h : Lexing.Yields after kinds) : Lexing.Yields (markerText value ++ after)
      (.char '@' :: .ident "A" :: .char '(' :: ((if value.toInt < 0 then [.char '-'] else []) ++
        literalTokens value.toInt.natAbs (.char ')' :: kinds))) := by
  have hinteger := Scan.Numeral.isInteger_ofNat value.toInt.natAbs
  have hliteral := Scan.Numeral.literal_ofNat value.toInt.natAbs
  have hend : Scan.Numeral.EndsInteger (')' :: after) := by
    rintro _ ⟨⟩
    decide
  have hdigits := Lexing.Yields.literal hliteral hinteger hend (h.char (by decide) (by decide))
  rw [Scan.Numeral.value_ofNat] at hdigits
  have hnumber : Lexing.Yields ('(' :: ((toString value).toList ++ ')' :: after))
      (.char '(' :: ((if value.toInt < 0 then [.char '-'] else []) ++
        literalTokens value.toInt.natAbs (.char ')' :: kinds))) := by
    rw [toList_toString_int64, List.append_assoc]
    exact .char (by decide) (by decide) (.sign _ hliteral hdigits)
  have hname : Lexing.Yields ([] ++ ("A".toList ++ '(' :: ((toString value).toList ++ ')' :: after))) _ :=
    .word (List.forall_mem_nil _) "A" ⟨'A', [], rfl, rfl, List.forall_mem_nil _⟩
      (by rintro _ ⟨⟩; decide) hnumber
  have htext : markerText value ++ after =
      '@' :: ([] ++ ("A".toList ++ '(' :: ((toString value).toList ++ ')' :: after))) := by
    simp [markerText]
  rw [htext]
  exact .char (by decide) (by decide) hname

namespace Text.Source

theorem kinds_markerText {value : Int64} (hv : value ≠ Int64.minValue) (after : List Char) :
    (⟨markerText value ++ after, true⟩ : Source).kinds =
      (marker value).tokens ++ (⟨after, true⟩ : Source).kinds := by
  obtain ⟨kinds, h⟩ := Lexing.exists_yields after
  rw [kinds_eq_of_yields (yields_markerText _ h), kinds_eq_of_yields h]
  have hfits : value.toInt.natAbs < 0x8000000000000000 := by
    have hne : value.toInt ≠ Int64.minValue.toInt := fun h => hv (Int64.toInt_inj.1 h)
    have hmin : Int64.minValue.toInt = -0x8000000000000000 := rfl
    have hle := value.le_toInt
    have hlt := value.toInt_lt
    omega
  rw [literalTokens, Scan.Numeral.intKind?, if_pos hfits]
  by_cases hneg : value.toInt < 0
  · have hsize : Int64.ofNat value.toInt.natAbs = -value := by
      have hcast : (value.toInt.natAbs : Int) = -value.toInt := by omega
      rw [← Int64.ofInt_eq_ofNat, hcast, Int64.ofInt_neg, Int64.ofInt_toInt]
    rw [if_pos hneg, hsize, marker, Phrase.Operand.ofInt64, if_pos hneg]
    rfl
  · have hsize : Int64.ofNat value.toInt.natAbs = value := by
      have hcast : (value.toInt.natAbs : Int) = value.toInt := by omega
      rw [← Int64.ofInt_eq_ofNat, hcast, Int64.ofInt_toInt]
    rw [if_neg hneg, hsize, marker, Phrase.Operand.ofInt64, if_neg hneg]
    rfl

/-- The size of the least number is no literal, and the tokens end behind its sign. -/
theorem kinds_markerText_minValue (after : List Char) :
    (⟨markerText Int64.minValue ++ after, true⟩ : Source).kinds =
      [.char '@', .ident "A", .char '(', .char '-'] := by
  obtain ⟨kinds, h⟩ := Lexing.exists_yields after
  rw [kinds_eq_of_yields (yields_markerText _ h)]
  rfl

theorem EndsBeforeSign.kinds_markerText {before : List Char} {opening : List TokenKind}
    (h : EndsBeforeSign before opening) (value : Int64) (after : List Char) :
    (⟨before ++ (markerText value ++ after), true⟩ : Source).kinds =
      opening ++ (⟨markerText value ++ after, true⟩ : Source).kinds :=
  h.kinds_append _

end Text.Source

/-! ## What the attribute is read to -/

namespace Arena

variable {a : Arena} {n : Nat}

/-- The node is an attribute of this name with one argument. -/
def Applies (a : Arena) (attr : NodeId) (name : String) (arg : NodeId) : Prop :=
  ∃ type args, a.attr? attr = some ⟨type, some args⟩ ∧ a.reference? type = some ⟨[name], none⟩ ∧
    a.kind args = .args #[arg]

/-- A node of the attribute has one argument, which is the integer. -/
theorem IsAttr.marker {value : Int64} (h : a.IsAttr (marker value) n) :
    ∃ arg, a.Applies n "A" arg ∧ a.kind arg = .int value ∧ a.evalConst arg = .ok value := by
  obtain ⟨type, _, hattr, htype, args, rfl, items, hitems, hargs⟩ := h
  obtain ⟨arg, _, ⟨leaves, unions, hchain, hleaves⟩, hnil, hlist⟩ := List.forall₂_cons_left_iff.1 hargs
  rw [List.forall₂_nil_left_iff] at hnil
  subst hnil
  obtain ⟨leaf, _, hleaf, hnil, rfl⟩ := List.forall₂_cons_left_iff.1 hleaves
  rw [List.forall₂_nil_left_iff] at hnil
  subst hnil
  obtain rfl := hchain.eq_of_singleton
  have hkind : a.kind arg = .int value := hleaf.2.trans (Phrase.Operand.kind_ofInt64 value none)
  refine ⟨arg, ⟨type, args, ?_, ?_, ?_⟩, hkind, ?_⟩
  · rw [attr?, hattr.2]
  · rw [reference?, htype.2]
    rfl
  · rw [hitems.2, ← Array.toList_inj.1 hlist.symm]
  · simp only [evalConst, evalWithin, hkind]

end Arena

/-! ## The script -/

/-- A script with a place among the attributes of one of its declarations. -/
structure Frame where
  imports : List ImportStatement
  itemsBefore : List Item
  attrsBefore : List Attr
  attrsAfter : List Attr
  decl : Decl
  itemsAfter : List Item
  trailing : List Attr

namespace Frame

/-- The script with attributes in the place. -/
def fill (frame : Frame) (attrs : List Attr) : Phrase.Script where
  imports := frame.imports
  items := frame.itemsBefore ++ ⟨frame.attrsBefore ++ (attrs ++ frame.attrsAfter), frame.decl⟩ ::
    frame.itemsAfter
  trailing := frame.trailing

/-- The tokens before the place. -/
def opening (frame : Frame) : List TokenKind :=
  frame.imports.flatMap ImportStatement.tokens ++ (frame.itemsBefore.flatMap Item.tokens ++
    frame.attrsBefore.flatMap Attr.tokens)

/-- The tokens behind the place. -/
def closing (frame : Frame) : List TokenKind :=
  frame.attrsAfter.flatMap Attr.tokens ++ (frame.decl.tokens ++
    (frame.itemsAfter.flatMap Item.tokens ++ frame.trailing.flatMap Attr.tokens))

theorem tokens_fill (frame : Frame) (attrs : List Attr) : (frame.fill attrs).tokens =
    frame.opening ++ (attrs.flatMap Attr.tokens ++ frame.closing) := by
  simp [fill, opening, closing, Phrase.Script.tokens, Item.tokens]

theorem wellFormed_fill {frame : Frame} (h : (frame.fill []).WellFormed) {attrs : List Attr}
    (hattrs : ∀ attr ∈ attrs, attr.WellFormed) : (frame.fill attrs).WellFormed where
  items := by
    have hitems := h.items
    simp only [fill, List.forall_mem_append, List.forall_mem_cons, Item.WellFormed, List.nil_append]
      at hitems ⊢
    obtain ⟨habove, ⟨⟨hbefore, hafter⟩, hdecl⟩, hbelow⟩ := hitems
    exact ⟨habove, ⟨⟨hbefore, hattrs, hafter⟩, hdecl⟩, hbelow⟩
  trailing := h.trailing
  types := by simpa [fill] using h.types
  aliases := h.aliases

end Frame

/-- A source is read into a fresh script if its tokens are those of a tree. Then its declarations are found
in the package, with their attributes and marks. -/
theorem Arena.Fresh.readScript_ok {σ : Type} {importer : Importer σ} {script package : Nat} {a : Arena}
    {source : Source} {tree : Phrase.Script} (hfresh : a.Fresh script package)
    (hw : Parse.Welcomes importer [script, package]) (host : σ) (hwf : tree.WellFormed)
    (htokens : source.kinds = tree.tokens ++ [.eof]) :
    ∃ s, readScript importer script source (a, host) = .ok () s ∧
      ∀ item ∈ tree.items, s.1.Bears ((a.packageName? script).getD "") package item := by
  have hspells := Lexing.spells_ofSource (a.scriptFile script) source
  rw [Lexing.significant_ofSource, htokens] at hspells
  obtain ⟨_, r', hrun, -, -, hattrs⟩ := (hfresh.reads hw (a.scriptFile script)
    ((a.packageName? script).getD "") host hspells).complete tree .eof [] rfl rfl hwf
  exact ⟨(r'.arena, r'.host), by unfold readScript; dsimp only; rw [hrun], hattrs⟩

/-- A source that is read into a fresh script has the tokens of a tree up to the end of the file. The
declarations of the tree are found in the package, with their attributes and marks. -/
theorem Arena.Fresh.derives_of_ok {σ : Type} {importer : Importer σ} {script package : Nat} {a : Arena}
    {source : Source} {host : σ} {s : Arena × σ} (hfresh : a.Fresh script package)
    (hw : Parse.Welcomes importer [script, package])
    (h : readScript importer script source (a, host) = .ok () s) :
    ∃ tree : Phrase.Script, tree.WellFormed ∧ source.kinds = tree.tokens ++ [.eof] ∧
      ∀ item ∈ tree.items, s.1.Bears ((a.packageName? script).getD "") package item := by
  have hspells := Lexing.spells_ofSource (a.scriptFile script) source
  rw [Lexing.significant_ofSource] at hspells
  have hreads := hfresh.reads hw (a.scriptFile script) ((a.packageName? script).getD "") host hspells
  unfold readScript at h
  dsimp only at h
  split at h
  · rename_i r' hrun
    cases h
    obtain ⟨tree, rest, htokens, hrest, hwf, hend, hbears⟩ := hreads.sound hrun
    exact ⟨tree, hwf, by rw [htokens, hrest.eq hend], hbears⟩
  · cases h

section

variable {σ : Type} {importer : Importer σ} {script package : Nat} {a : Arena} {frame : Frame}
  {before after : List Char} {value : Int64} (hfresh : a.Fresh script package)
  (hw : Parse.Welcomes importer [script, package])

include hfresh hw

/-- The least integer is not read. -/
theorem readScript_minValue_ne_ok {host : σ} {s : Arena × σ} {opening : List TokenKind}
    (hbefore : Source.EndsBeforeSign before opening) :
    readScript importer script ⟨before ++ (markerText Int64.minValue ++ after), true⟩ (a, host) ≠
      .ok () s := by
  intro h
  obtain ⟨tree, -, htokens, -⟩ := hfresh.derives_of_ok hw h
  have hlast : (Source.kinds ⟨before ++ (markerText Int64.minValue ++ after), true⟩).getLast? =
      some .eof := by
    rw [htokens, List.getLast?_concat]
  rw [hbefore.kinds_markerText, Source.kinds_markerText_minValue, List.getLast?_append] at hlast
  cases hlast

theorem readScript_marker (hwf : (frame.fill []).WellFormed)
    (hbefore : Source.EndsBeforeSign before frame.opening)
    (hafter : (⟨after, true⟩ : Source).kinds = frame.closing ++ [.eof]) (host : σ)
    (hv : value ≠ Int64.minValue) :
    ∃ s, readScript importer script ⟨before ++ (markerText value ++ after), true⟩ (a, host) = .ok () s ∧
      ∃ decl attr arg, ((s.1.package? package).bind fun p => p.types.find? frame.decl.name) = some decl ∧
        attr ∈ (s.1.node decl).attrs ∧ s.1.Applies attr "A" arg ∧ s.1.kind arg = .int value ∧
        s.1.evalConst arg = .ok value := by
  have htokens : (⟨before ++ (markerText value ++ after), true⟩ : Source).kinds =
      (frame.fill [marker value]).tokens ++ [.eof] := by
    rw [hbefore.kinds_markerText, Source.kinds_markerText hv, hafter, Frame.tokens_fill]
    simp
  have hwf' : (frame.fill [marker value]).WellFormed :=
    Frame.wellFormed_fill hwf (List.forall_mem_singleton.2 (by rintro _ ⟨⟩; trivial))
  obtain ⟨s, hs, hbears⟩ := hfresh.readScript_ok hw host hwf' htokens
  obtain ⟨decl, -, hfound, hattrs⟩ := hbears
    ⟨frame.attrsBefore ++ ([marker value] ++ frame.attrsAfter), frame.decl⟩ (by simp [Frame.fill])
  obtain ⟨attr, hmem, hattr⟩ := hattrs (marker value) (List.mem_append_left _ (by simp))
  obtain ⟨arg, harg⟩ := hattr.marker
  exact ⟨s, hs, decl, attr, arg, hfound.find?_types, hmem, harg⟩

end

open Parse in
/-- An attribute with an integer argument is written in front of a declaration of a script that is accepted
without it. With it the script is accepted unless the integer is the least one; then the declaration has the
attribute, with the integer as its argument, which evaluates to it. -/
theorem integer_argument_round_trips {σ : Type} {importer : Importer σ} {script package : Nat} {a : Arena}
    {frame : Frame} {before after : List Char} (host : σ) (value : Int64) (hfresh : a.Fresh script package)
    (hw : Welcomes importer [script, package]) (hwf : (frame.fill []).WellFormed)
    (hbefore : Source.EndsBeforeSign before frame.opening)
    (hafter : (⟨after, true⟩ : Source).kinds = frame.closing ++ [.eof]) :
    ((∃ s, readScript importer script ⟨before ++ (markerText value ++ after), true⟩ (a, host) = .ok () s) ↔
      value ≠ Int64.minValue) ∧
    ∀ s, readScript importer script ⟨before ++ (markerText value ++ after), true⟩ (a, host) = .ok () s →
      ∃ decl attr arg, ((s.1.package? package).bind fun p => p.types.find? frame.decl.name) = some decl ∧
        attr ∈ (s.1.node decl).attrs ∧ s.1.Applies attr "A" arg ∧ s.1.kind arg = .int value ∧
        s.1.evalConst arg = .ok value := by
  by_cases hv : value = Int64.minValue
  · subst hv
    have hrefused : ∀ s, readScript importer script
        ⟨before ++ (markerText Int64.minValue ++ after), true⟩ (a, host) ≠ .ok () s :=
      fun s => readScript_minValue_ne_ok hfresh hw hbefore
    exact ⟨⟨fun ⟨s, hs⟩ => absurd hs (hrefused s), fun h => absurd rfl h⟩,
      fun s hs => absurd hs (hrefused s)⟩
  · obtain ⟨s, hs, hmarker⟩ := readScript_marker hfresh hw hwf hbefore hafter host hv
    rw [hs]
    refine ⟨⟨fun _ => hv, fun _ => ⟨s, rfl⟩⟩, ?_⟩
    rintro _ ⟨⟩
    exact hmarker

/-- The least integer that can be written, between an enum and a table. -/
theorem integer_argument_round_trips_least : ∃ script b,
    (Arena.empty.newPackage "app").2.newScript 0 "a.tidl" none = (.ok script, b) ∧
    ∃ s, readScript (fun _ _ s => .ok 0 s) script
        ⟨"enum E \x7b X(1) \x7d // one\n@A(-9223372036854775807) table T \x7b\x7d".toList, true⟩ (b, ()) =
          .ok () s ∧
      ∃ decl attr arg, ((s.1.package? 0).bind fun p => p.types.find? "T") = some decl ∧
        attr ∈ (s.1.node decl).attrs ∧ s.1.Applies attr "A" arg ∧
        s.1.kind arg = .int (-9223372036854775807) ∧ s.1.evalConst arg = .ok (-9223372036854775807) := by
  obtain ⟨script, b, hnew, hfresh⟩ := Arena.empty.fresh_newScript "app" "a.tidl" none
  have hwf : (Frame.fill ⟨[], [⟨[], .enum "E" none ⟨⟨[], "X", false, 1⟩, []⟩⟩], [], [],
      .table false "T" [] [], [], []⟩ []).WellFormed := by
    refine ⟨?_, List.forall_mem_nil _, by decide, by decide⟩
    rintro item (_ | ⟨_, _ | ⟨_, ⟨⟩⟩⟩)
    · refine ⟨List.forall_mem_nil _, ?_, by decide⟩
      rintro value (_ | ⟨_, ⟨⟩⟩)
      exact ⟨List.forall_mem_nil _, by decide⟩
    · exact ⟨List.forall_mem_nil _, List.forall_mem_nil _, List.forall_mem_nil _, by decide, by decide⟩
  have hw : Parse.Welcomes (fun _ _ s => .ok 0 s : Importer Unit) [script, 0] := Parse.welcomes_pure 0 _
  have hbefore : Source.EndsBeforeSign "enum E \x7b X(1) \x7d // one\n".toList
      (Phrase.Script.tokens ⟨[], [⟨[], .enum "E" none ⟨⟨[], "X", false, 1⟩, []⟩⟩], []⟩) :=
    ⟨by decide +kernel, by decide +kernel⟩
  have hafter : (⟨" table T \x7b\x7d".toList, true⟩ : Source).kinds =
      (Decl.table false "T" [] []).tokens ++ [.eof] := by decide +kernel
  have hround := integer_argument_round_trips () (-9223372036854775807) hfresh hw hwf hbefore hafter
  obtain ⟨s, hs⟩ := hround.1.2 (by decide)
  exact ⟨script, b, hnew, s, hs, hround.2 s hs⟩

/-- The least integer is an attribute argument that no script can have. -/
theorem least_integer_argument_refused : ∃ script b,
    (Arena.empty.newPackage "app").2.newScript 0 "a.tidl" none = (.ok script, b) ∧
    ¬ ∃ s, readScript (fun _ _ s => .ok 0 s) script
      ⟨"@A(-9223372036854775808)\ntable T \x7b\x7d".toList, true⟩ (b, ()) = .ok () s := by
  obtain ⟨script, b, hnew, hfresh⟩ := Arena.empty.fresh_newScript "app" "a.tidl" none
  refine ⟨script, b, hnew, fun ⟨s, hs⟩ => ?_⟩
  have hw : Parse.Welcomes (fun _ _ s => .ok 0 s : Importer Unit) [script, 0] := Parse.welcomes_pure 0 _
  have hbefore : Source.EndsBeforeSign [] [] := ⟨by decide +kernel, by decide +kernel⟩
  exact readScript_minValue_ne_ok hfresh hw hbefore hs

end SchemaLang
