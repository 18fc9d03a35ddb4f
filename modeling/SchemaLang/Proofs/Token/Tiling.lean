import Mathlib.Data.List.Induction
import SchemaLang.Proofs.Provider
import SchemaLang.Proofs.Token.Scanning

/-!
# Tokens tile their file

Reading a file loses nothing. What can be read of it divides into runs of blanks and written forms
of tokens, one after the other, up to the end of the file or up to a text that starts with no token
(`Lexing.Tiles`, `Lexing.tiles_ofSource`).

Positions are places of this division: a token stands where its written form starts. The line and the
column of a place are those that the lexer has counted when it gets there (`Position.IsBehind`). They
are counted in 32 bits, so they number the lines and the characters of the line only as long as the
text is not too long (`Position.IsBehind.marks`); and then tokens stand one after the other
(`Position.Marks.precedes`).
-/

namespace SchemaLang

open Text

/-! ## Places -/

/-- The number of characters behind the last line feed of a text. -/
def Text.lastLineLength (text : List Char) : Nat :=
  (text.reverse.takeWhile (· != '\n')).length

theorem Text.lastLineLength_concat (text : List Char) (c : Char) :
    lastLineLength (text ++ [c]) = if c = '\n' then 0 else lastLineLength text + 1 := by
  unfold lastLineLength
  rw [List.reverse_append, List.reverse_singleton, List.singleton_append, List.takeWhile_cons]
  by_cases hline : c = '\n' <;> simp [hline]

theorem Text.lastLineLength_le (text : List Char) : lastLineLength text ≤ text.length := by
  unfold lastLineLength
  exact Nat.le_trans (List.takeWhile_prefix _).length_le (Nat.le_of_eq List.length_reverse)

/-- A text without line feed goes on with the last line. -/
theorem Text.lastLineLength_append {before text : List Char} (h : '\n' ∉ text) :
    lastLineLength (before ++ text) = lastLineLength before + text.length := by
  have hall : ∀ c ∈ text.reverse, (c != '\n') = true := fun c hc =>
    bne_iff_ne.2 fun e => h (e ▸ List.mem_reverse.1 hc)
  unfold lastLineLength
  rw [List.reverse_append, List.takeWhile_append_of_pos hall, List.length_append,
    List.length_reverse, Nat.add_comm]

namespace Coordinate

/-- What is counted behind a text that starts a file. -/
def behind (text : List Char) : Coordinate :=
  ⟨.ofNat (1 + text.count '\n'), .ofNat (1 + lastLineLength text)⟩

theorem behind_concat (text : List Char) (c : Char) :
    behind (text ++ [c]) = (behind text).step c := by
  unfold behind step
  rw [lastLineLength_concat]
  by_cases hline : c = '\n'
  · subst hline
    simp [← Nat.add_assoc, UInt32.ofNat_add]
  · simp [hline, ← Nat.add_assoc, UInt32.ofNat_add]

/-- Going over a text character by character leads behind it. -/
theorem after_behind (before text : List Char) :
    (behind before).after text = behind (before ++ text) := by
  induction text generalizing before with
  | nil => rw [List.append_nil]; rfl
  | cons c text ih =>
    rw [show (behind before).after (c :: text) = ((behind before).step c).after text from rfl,
      ← behind_concat, ih, List.append_assoc, List.singleton_append]

end Coordinate

namespace Position

variable {p q r : Position} {file : String} {before text : List Char}

/-- The position has what is counted behind the text. -/
def IsBehind (file : String) (text : List Char) (p : Position) : Prop :=
  p = (Coordinate.behind text).position file

/-- The position is the place behind the text: the line is one more than the line feeds before it, and
the column one more than the characters since the last of them. -/
structure Marks (file : String) (text : List Char) (p : Position) : Prop where
  file_eq : p.file = file
  line_eq : p.line.toNat = 1 + text.count '\n'
  column_eq : p.column.toNat = 1 + lastLineLength text

/-- As long as the counters do not wrap around, they give the place. -/
theorem IsBehind.marks (h : IsBehind file text p) (hlength : text.length + 1 < UInt32.size) :
    Marks file text p := by
  have hcount : text.count '\n' ≤ text.length := List.count_le_length
  have hlast := lastLineLength_le text
  have hsize : UInt32.size = 4294967296 := rfl
  rw [IsBehind] at h
  subst h
  exact ⟨rfl, UInt32.toNat_ofNat_of_lt' (by omega), UInt32.toNat_ofNat_of_lt' (by omega)⟩

/-- The position comes earlier in its file. -/
def Precedes (p q : Position) : Prop :=
  p.line < q.line ∨ p.line = q.line ∧ p.column < q.column

theorem Precedes.line_le (h : p.Precedes q) : p.line.toNat ≤ q.line.toNat := by
  rcases h with h | ⟨h, -⟩
  · exact Nat.le_of_lt (UInt32.lt_iff_toNat_lt.1 h)
  · exact Nat.le_of_eq (congrArg UInt32.toNat h)

/-- A place precedes every place behind more of the file. -/
theorem Marks.precedes (hp : Marks file before p) (hq : Marks file (before ++ text) q)
    (h : text ≠ []) : p.Precedes q := by
  have hline := hq.line_eq
  rw [List.count_append] at hline
  by_cases hbreak : '\n' ∈ text
  · have hcount := List.count_pos_iff.2 hbreak
    exact .inl (UInt32.lt_iff_toNat_lt.2 (by rw [hp.line_eq, hline]; omega))
  · have hlength := List.length_pos_iff.2 h
    rw [List.count_eq_zero.2 hbreak, Nat.add_zero] at hline
    refine .inr ⟨UInt32.toNat_inj.1 (hp.line_eq.trans hline.symm), UInt32.lt_iff_toNat_lt.2 ?_⟩
    rw [hp.column_eq, hq.column_eq, lastLineLength_append hbreak]
    omega

end Position

/-! ## One token -/

/-- A numeral is an integer or a floating-point number. -/
theorem Scan.Numeral.kind?_cases {numeral : Numeral} {kind : TokenKind}
    (h : numeral.kind? = some kind) : (∃ value, kind = .int value) ∨ ∃ value, kind = .float value := by
  have hint : ∀ {value : Nat}, intKind? value = some kind → ∃ value, kind = .int value := by
    intro value hvalue
    unfold intKind? at hvalue
    split at hvalue <;> cases hvalue
    exact ⟨_, rfl⟩
  unfold kind? at h
  split at h
  · split at h
    · cases h
    · exact .inl (hint h)
  · exact .inl (hint h)
  · obtain ⟨e, -, rfl⟩ := Option.map_eq_some_iff.1 h
    exact .inr ⟨_, rfl⟩

/-- A word is reserved, a boolean literal or a name. -/
theorem TokenKind.ofWord_cases (word : String) : (∃ reserved, ofWord word = keyword reserved) ∨
    (∃ value, ofWord word = bool value) ∨ ofWord word = ident word := by
  unfold ofWord
  split
  · exact .inl ⟨_, rfl⟩
  split
  · exact .inr (.inl ⟨_, rfl⟩)
  split
  · exact .inr (.inl ⟨_, rfl⟩)
  · exact .inr (.inr rfl)

/-- The end of the file is not written. -/
theorem TokenKind.WrittenAs.ne_eof {kind : TokenKind} {lexeme : List Char}
    (h : kind.WrittenAs lexeme) : kind ≠ eof := by
  cases h with
  | @word c rest =>
    rcases ofWord_cases (String.ofList (c :: rest)) with ⟨_, h⟩ | ⟨_, h⟩ | h <;>
      exact h ▸ nofun
  | number _ hkind =>
    rcases Scan.Numeral.kind?_cases hkind with ⟨_, rfl⟩ | ⟨_, rfl⟩ <;> exact nofun
  | _ => exact nofun

/-- A text of blanks only. -/
def Blank (text : List Char) : Prop :=
  ∀ c ∈ text, isBlank c = true

/-- What a lexer finds that stands behind the text `before`: blanks, and then the end of the file, a
token or a flaw. -/
inductive Lexer.Finds (lexer : Lexer) (before : List Char) : Prop
  | eof (hblank : Blank lexer.rest) (hintact : lexer.intact = true)
      (hscan : lexer.scan.1 =
        .ok ⟨.eof, (Coordinate.behind (before ++ lexer.rest)).position lexer.file⟩)
  | token {blanks lexeme rest : List Char} {kind : TokenKind}
      (htext : lexer.rest = blanks ++ (lexeme ++ rest)) (hblank : Blank blanks)
      (hwritten : kind.WrittenAs lexeme)
      (hscan : lexer.scan =
        (.ok ⟨kind, (Coordinate.behind (before ++ blanks)).position lexer.file⟩,
          { lexer with
            rest := rest, coordinate := Coordinate.behind (before ++ (blanks ++ lexeme)) }))
  | flaw {blanks text ahead : List Char} {cause : Cause}
      (htext : lexer.rest = blanks ++ text) (hblank : Blank blanks)
      (hstarts : text = [] ∨ Starts text) (hflawed : Scan.Flawed lexer.intact text cause ahead)
      (hscan : lexer.scan.1 =
        .error ⟨cause, (Coordinate.behind (before ++ (blanks ++ ahead))).position lexer.file⟩)

section

variable {lexer : Lexer} {c : Char} {rest lexeme rest' : List Char}

theorem Lexer.scan_of_nil (h : lexer.rest.dropWhile isBlank = []) :
    lexer.scan.1 = if lexer.intact then
        .ok ⟨.eof, (lexer.coordinate.after (lexer.rest.takeWhile isBlank)).position lexer.file⟩
      else .error ⟨.illegalUtf8,
        (lexer.coordinate.after (lexer.rest.takeWhile isBlank)).position lexer.file⟩ := by
  unfold scan
  rw [h]
  dsimp only
  split <;> rfl

theorem Lexer.scan_of_ok {kind : TokenKind} (h : lexer.rest.dropWhile isBlank = c :: rest)
    (htoken : Scan.token lexer.intact c rest = ⟨lexeme, rest', .ok kind⟩) :
    lexer.scan = (.ok ⟨kind, (lexer.coordinate.after (lexer.rest.takeWhile isBlank)).position
        lexer.file⟩,
      { lexer with
        rest := rest'
        coordinate := lexer.coordinate.after (lexer.rest.takeWhile isBlank ++ lexeme) }) := by
  unfold scan
  rw [h, Coordinate.after_append]
  dsimp only
  rw [htoken]

theorem Lexer.scan_of_error {flaw : ScanFlaw} (h : lexer.rest.dropWhile isBlank = c :: rest)
    (htoken : Scan.token lexer.intact c rest = ⟨lexeme, rest', .error flaw⟩) :
    lexer.scan.1 = .error ⟨flaw.cause,
      (lexer.coordinate.after (lexer.rest.takeWhile isBlank ++ flaw.before)).position
        lexer.file⟩ := by
  unfold scan
  rw [h, Coordinate.after_append]
  dsimp only
  rw [htoken]

end

/-- A lexer finds one of the three, and says where it stands. -/
theorem Lexer.finds (lexer : Lexer) {before : List Char}
    (hplace : lexer.coordinate = .behind before) : lexer.Finds before := by
  have hblank : Blank (lexer.rest.takeWhile isBlank) := Scan.mem_takeWhile
  have htext : lexer.rest = lexer.rest.takeWhile isBlank ++ lexer.rest.dropWhile isBlank :=
    List.takeWhile_append_dropWhile.symm
  cases hrest : lexer.rest.dropWhile isBlank with
  | nil =>
    rw [hrest] at htext
    have hscan := scan_of_nil hrest
    rw [hplace, Coordinate.after_behind] at hscan
    cases hintact : lexer.intact with
    | true =>
      rw [List.append_nil] at htext
      rw [hintact, if_pos rfl, ← htext] at hscan
      exact .eof (htext ▸ hblank) hintact hscan
    | false =>
      rw [hintact, if_neg nofun] at hscan
      refine .flaw htext hblank (.inl rfl) (.illegalUtf8 hintact) ?_
      rw [hscan, List.append_nil]
  | cons c rest =>
    rw [hrest] at htext
    have hc : isBlank c = false := by
      have hhead := List.head?_dropWhile_not isBlank lexer.rest
      rw [hrest] at hhead
      simpa using hhead
    have htakes := Scan.takes_token lexer.intact rest hc
    cases htoken : Scan.token lexer.intact c rest with
    | mk lexeme rest' result =>
      rw [htoken] at htakes
      cases htakes with
      | token htaken hwritten =>
        refine .token (by rw [htaken]; exact htext) hblank hwritten ?_
        rw [scan_of_ok hrest htoken, hplace, Coordinate.after_behind, Coordinate.after_behind]
      | flaw htaken hflawed =>
        refine .flaw htext hblank (.inr ⟨c, rest, rfl, hc⟩) hflawed ?_
        rw [scan_of_error hrest htoken, hplace, Coordinate.after_behind]

/-! ## The tokens of a file -/

/-- The place where a flaw is reported is in the text. -/
theorem Scan.Flawed.ahead_prefix {intact : Bool} {text ahead : List Char} {cause : Cause}
    (h : Flawed intact text cause ahead) : ahead <+: text := by
  cases h with
  | illegalUtf8 _ => exact List.prefix_rfl
  | illegalEscape _ _ _ _ => exact List.prefix_append ..
  | _ => exact List.nil_prefix

namespace Lexing

/-- Tokens tile the rest of a file behind the text `before`. Each stands behind blanks, at the start
of its written form, and the next ones tile what follows it. The last is the end of the file, behind
blanks that reach up to there; or a text follows that starts with no token, and reading fails. Whether
a position is right behind a text is up to `place`. -/
inductive Tiles (place : List Char → Position → Prop) (intact : Bool) :
    List Char → List Char → List Token → Option Diagnostic → Prop
  | eof {before blanks : List Char} {position : Position} (hblank : Blank blanks)
      (hintact : intact = true) (hplace : place (before ++ blanks) position) :
      Tiles place intact before blanks [⟨.eof, position⟩] none
  | token {before blanks lexeme rest : List Char} {kind : TokenKind} {position : Position}
      {tokens : List Token} {failure : Option Diagnostic} (hblank : Blank blanks)
      (hwritten : kind.WrittenAs lexeme) (hplace : place (before ++ blanks) position)
      (h : Tiles place intact (before ++ (blanks ++ lexeme)) rest tokens failure) :
      Tiles place intact before (blanks ++ (lexeme ++ rest)) (⟨kind, position⟩ :: tokens) failure
  | flaw {before blanks text ahead : List Char} {cause : Cause} {position : Position}
      (hblank : Blank blanks) (hstarts : text = [] ∨ Starts text)
      (hflawed : Scan.Flawed intact text cause ahead)
      (hplace : place (before ++ (blanks ++ ahead)) position) :
      Tiles place intact before (blanks ++ text) [] (some ⟨cause, position⟩)

theorem tiles_read : ∀ (fuel : Nat) (lexer : Lexer) (before : List Char) (done : List Token),
    lexer.lookahead = none → lexer.rest.length < fuel → lexer.coordinate = .behind before →
    ∃ tokens failure, read fuel lexer done = ⟨done.reverse ++ tokens, failure⟩ ∧
      Tiles (Position.IsBehind lexer.file) lexer.intact before lexer.rest tokens failure
  | 0, _, _, _, _, hfuel, _ => absurd hfuel (Nat.not_lt_zero _)
  | fuel + 1, lexer, before, done, hnone, hfuel, hplace => by
    have hnext : lexer.next = lexer.scan := by rw [Lexer.next, hnone]
    unfold read
    rw [hnext]
    cases lexer.finds hplace with
    | eof hblank hintact hscan =>
      refine ⟨_, _, ?_, .eof hblank hintact rfl⟩
      rw [← Prod.eta lexer.scan, hscan]
      simp
    | @token blanks lexeme rest kind htext hblank hwritten hscan =>
      have hlength : rest.length < fuel := by
        obtain ⟨c, others, rfl, -⟩ := hwritten.starts
        rw [htext] at hfuel
        simp only [List.length_append, List.length_cons] at hfuel
        omega
      obtain ⟨tokens, failure, hread, htiles⟩ := tiles_read fuel
        { lexer with rest := rest, coordinate := .behind (before ++ (blanks ++ lexeme)) } _
        (⟨kind, (Coordinate.behind (before ++ blanks)).position lexer.file⟩ :: done)
        hnone hlength rfl
      rw [hscan, htext]
      dsimp only
      rw [if_neg hwritten.ne_eof, hread, List.reverse_cons, List.append_assoc,
        List.singleton_append]
      exact ⟨_, failure, rfl, .token hblank hwritten rfl htiles⟩
    | flaw htext hblank hstarts hflawed hscan =>
      rw [← Prod.eta lexer.scan, hscan, htext]
      refine ⟨[], _, ?_, .flaw hblank hstarts hflawed rfl⟩
      rw [List.append_nil]

section

variable {place : List Char → Position → Prop} {intact : Bool} {before text : List Char}
  {tokens : List Token} {failure : Option Diagnostic}

/-- Positions that are right in one sense are right in another one, if they are so in all of the file. -/
theorem Tiles.imp {place' : List Char → Position → Prop}
    (h : Tiles place intact before text tokens failure)
    (himp : ∀ taken, taken <+: text → ∀ position, place (before ++ taken) position →
      place' (before ++ taken) position) : Tiles place' intact before text tokens failure := by
  induction h with
  | eof hblank hintact hplace =>
    exact .eof hblank hintact (himp _ List.prefix_rfl _ hplace)
  | token hblank hwritten hplace _ ih =>
    refine .token hblank hwritten (himp _ (List.prefix_append ..) _ hplace) (ih fun taken htaken => ?_)
    rw [List.append_assoc]
    refine himp _ ?_
    rw [← List.append_assoc]
    exact (List.prefix_append_right_inj _).2 htaken
  | flaw hblank hstarts hflawed hplace =>
    exact .flaw hblank hstarts hflawed
      (himp _ ((List.prefix_append_right_inj _).2 hflawed.ahead_prefix) _ hplace)

/-- Every token stands in the text it tiles, where its written form starts; the end of the file is not
written. -/
theorem Tiles.stands (h : Tiles place intact before text tokens failure) :
    ∀ token ∈ tokens, ∃ taken lexeme, taken ++ lexeme <+: text ∧
      place (before ++ taken) token.position ∧
      (token.kind = .eof ∨ token.kind.WrittenAs lexeme) := by
  induction h with
  | @eof _ blanks _ _ _ hplace =>
    have hall : blanks ++ [] <+: blanks := by simp
    exact List.forall_mem_singleton.2 ⟨blanks, [], hall, hplace, .inl rfl⟩
  | @token before blanks lexeme rest _ _ _ _ _ hwritten hplace _ ih =>
    refine List.forall_mem_cons.2 ⟨⟨blanks, lexeme, ?_, hplace, .inr hwritten⟩, fun later hlater => ?_⟩
    · rw [← List.append_assoc]
      exact List.prefix_append ..
    · obtain ⟨taken, form, hform, hposition, hkind⟩ := ih later hlater
      refine ⟨blanks ++ lexeme ++ taken, form, ?_, by rwa [← List.append_assoc], hkind⟩
      rw [List.append_assoc _ taken, ← List.append_assoc blanks]
      exact (List.prefix_append_right_inj _).2 hform
  | flaw _ _ _ _ => exact List.forall_mem_nil _

/-- Each token stands behind those before it and their written forms. -/
theorem Tiles.pairwise_stands (h : Tiles place intact before text tokens failure) :
    tokens.Pairwise fun token later => ∃ taken more lexeme, more ≠ [] ∧
      taken ++ more ++ lexeme <+: text ∧ place (before ++ taken) token.position ∧
      place (before ++ (taken ++ more)) later.position ∧
      (later.kind = .eof ∨ later.kind.WrittenAs lexeme) := by
  induction h with
  | eof => exact List.pairwise_singleton ..
  | @token before blanks lexeme rest _ _ _ _ _ hwritten hplace htiles ih =>
    have hprefix : ∀ {taken : List Char}, taken <+: rest →
        blanks ++ lexeme ++ taken <+: blanks ++ (lexeme ++ rest) := by
      intro taken htaken
      rw [← List.append_assoc blanks]
      exact (List.prefix_append_right_inj _).2 htaken
    refine List.pairwise_cons.2 ⟨fun later hlater => ?_, ih.imp ?_⟩
    · obtain ⟨taken, form, hform, hposition, hkind⟩ := htiles.stands later hlater
      obtain ⟨c, others, rfl, -⟩ := hwritten.starts
      refine ⟨blanks, c :: others ++ taken, form, by simp, ?_, hplace, ?_, hkind⟩
      · rw [← List.append_assoc blanks, List.append_assoc _ taken]
        exact hprefix hform
      · rwa [← List.append_assoc blanks, ← List.append_assoc before]
    · rintro token later ⟨taken, more, form, hmore, hform, hp, hq, hkind⟩
      refine ⟨blanks ++ lexeme ++ taken, more, form, hmore, ?_, ?_, ?_, hkind⟩
      · rw [List.append_assoc _ taken, List.append_assoc _ _ form]
        exact hprefix hform
      · rwa [← List.append_assoc before]
      · rwa [List.append_assoc _ taken, ← List.append_assoc before]
  | flaw => exact .nil

end

/-- The tokens of a source tile it. -/
theorem tiles_ofSource (file : String) (source : Source) :
    Tiles (Position.IsBehind file) source.intact [] source.chars (ofSource file source).tokens
      (ofSource file source).failure := by
  obtain ⟨tokens, failure, hread, htiles⟩ :=
    tiles_read (source.chars.length + 2) (.ofSource file source) [] [] rfl
      (Nat.lt_add_of_pos_right (by decide)) rfl
  have hsource : ofSource file source = ⟨tokens, failure⟩ := hread
  rwa [hsource]

end Lexing

end SchemaLang
