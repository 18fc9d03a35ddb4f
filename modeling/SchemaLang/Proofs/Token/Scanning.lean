import SchemaLang.Proofs.Grammar.Lexing

/-!
# What one scan takes

How the token kinds are written (`TokenKind.WrittenAs`), what may be wrong with a text that no token
starts (`Scan.Flawed`), and that a scan either takes the written form of the token it gives or names
what is wrong (`Scan.takes_token`). In both cases the characters it took and the rest are the text.

A flaw says how much of the text comes before the place it is reported at: nothing, except that an
escape is reported at its backslash and bytes that are no character behind all characters.
-/

namespace SchemaLang

open Text

/-! ## Written forms -/

/-- The inside of a string between two of the given quotes, and what it denotes. A plain character
stands for itself; a backslash may only stand before the quote. -/
inductive Inside (quote : Char) : List Char → List Char → Prop
  | nil : Inside quote [] []
  | plain {c : Char} {text value : List Char} (hline : c ≠ '\n') (hescape : c ≠ '\\')
      (hquote : c ≠ quote) (h : Inside quote text value) : Inside quote (c :: text) (c :: value)
  | escaped {text value : List Char} (h : Inside quote text value) :
      Inside quote ('\\' :: quote :: text) (quote :: value)

theorem Inside.append {quote : Char} {xs ys vs ws : List Char} (h : Inside quote xs vs)
    (h' : Inside quote ys ws) : Inside quote (xs ++ ys) (vs ++ ws) := by
  induction h with
  | nil => exact h'
  | plain hline hescape hquote _ ih => exact .plain hline hescape hquote ih
  | escaped _ ih => exact .escaped ih

/-- The parts of a numeral are runs of digits, with the marks and signs a numeral may have. -/
def Scan.Numeral.Literal : Scan.Numeral → Prop
  | .hex mark digits => (mark = 'x' ∨ mark = 'X') ∧ ∀ c ∈ digits, isHexDigit c = true
  | .decimal whole fraction exponent =>
    (∃ c rest, whole = c :: rest) ∧ (∀ c ∈ whole, c.isDigit = true) ∧
    (∀ digits ∈ fraction, ∀ c ∈ digits, c.isDigit = true) ∧
    ∀ part ∈ exponent, (part.1 = 'e' ∨ part.1 = 'E') ∧ (part.2.1 = [] ∨ part.2.1 = ['+'] ∨
      part.2.1 = ['-']) ∧ ∀ c ∈ part.2.2, c.isDigit = true

/-- The quotes that delimit a string. -/
def IsQuote (c : Char) : Prop :=
  c = '"' ∨ c = '\''

instance : DecidablePred IsQuote :=
  fun c => inferInstanceAs (Decidable (c = '"' ∨ c = '\''))

/-- The characters that a token is written in. -/
inductive TokenKind.WrittenAs : TokenKind → List Char → Prop
  | word {c : Char} {rest : List Char} (hstart : isWordStart c = true)
      (hpart : ∀ d ∈ rest, isWordPart d = true) :
      WrittenAs (ofWord (String.ofList (c :: rest))) (c :: rest)
  | label {c : Char} {rest : List Char} {name : String} (hstart : isWordStart c = true)
      (hpart : ∀ d ∈ rest, isWordPart d = true)
      (hname : ofWord (String.ofList (c :: rest)) = ident name) :
      WrittenAs (label name) (c :: rest ++ [':'])
  | number {numeral : Scan.Numeral} {kind : TokenKind} (hliteral : numeral.Literal)
      (hkind : numeral.kind? = some kind) : WrittenAs kind numeral.lexeme
  | string {quote : Char} {text value : List Char} (hquote : IsQuote quote)
      (hinside : Inside quote text value) :
      WrittenAs (string (String.ofList value)) (quote :: text ++ [quote])
  | lineComment {text : List Char} (hline : '\n' ∉ text) :
      WrittenAs (comment (String.ofList text)) ('/' :: '/' :: text)
  | blockComment {text : List Char} (hopen : ¬ ['*', '/'] <:+: text) :
      WrittenAs (comment (String.ofList text)) ('/' :: '*' :: (text ++ ['*', '/']))
  | arrow : WrittenAs arrow ['-', '>']
  | char {c : Char} (hblank : isBlank c = false) (hword : isWordStart c = false)
      (hdigit : c.isDigit = false) (hquote : ¬ IsQuote c) : WrittenAs (char c) [c]

theorem isBlank_of_isWordStart {c : Char} (h : isWordStart c = true) : isBlank c = false := by
  cases hblank : isBlank c with
  | false => rfl
  | true =>
    simp only [isBlank, Bool.or_eq_true, beq_iff_eq] at hblank
    rcases hblank with ((rfl | rfl) | rfl) | rfl <;> exact absurd h (by decide)

theorem isBlank_of_isDigit {c : Char} (h : c.isDigit = true) : isBlank c = false := by
  cases hblank : isBlank c with
  | false => rfl
  | true =>
    simp only [isBlank, Bool.or_eq_true, beq_iff_eq] at hblank
    rcases hblank with ((rfl | rfl) | rfl) | rfl <;> exact absurd h (by decide)

theorem isBlank_of_isQuote {c : Char} (h : IsQuote c) : isBlank c = false := by
  rcases h with rfl | rfl <;> rfl

/-- A text that starts a token: it has a first character, which is no blank. -/
def Starts (text : List Char) : Prop :=
  ∃ c rest, text = c :: rest ∧ isBlank c = false

theorem Scan.Numeral.Literal.starts {numeral : Numeral} (h : numeral.Literal) :
    Starts numeral.lexeme := by
  cases numeral with
  | hex mark digits => exact ⟨_, _, rfl, rfl⟩
  | decimal whole fraction exponent =>
    obtain ⟨⟨c, rest, rfl⟩, hdigits, -⟩ := h
    exact ⟨c, _, rfl, isBlank_of_isDigit (hdigits c (List.mem_cons_self ..))⟩

/-- A token takes a character, and does not start with a blank. -/
theorem TokenKind.WrittenAs.starts {kind : TokenKind} {lexeme : List Char}
    (h : kind.WrittenAs lexeme) : Starts lexeme := by
  cases h with
  | word hstart _ => exact ⟨_, _, rfl, isBlank_of_isWordStart hstart⟩
  | label hstart _ _ => exact ⟨_, _, rfl, isBlank_of_isWordStart hstart⟩
  | number hliteral _ => exact hliteral.starts
  | string hquote _ => exact ⟨_, _, rfl, isBlank_of_isQuote hquote⟩
  | lineComment _ => exact ⟨_, _, rfl, rfl⟩
  | blockComment _ => exact ⟨_, _, rfl, rfl⟩
  | arrow => exact ⟨_, _, rfl, rfl⟩
  | char hblank _ _ _ => exact ⟨_, _, rfl, hblank⟩

namespace Scan

/-! ## Flaws -/

/-- What is wrong with a text that starts with no token, and the characters before the place where
that is reported. The text goes up to the end of what can be read of the file. -/
inductive Flawed (intact : Bool) : List Char → Cause → List Char → Prop
  /-- Bytes that are no character end the text, behind all of it. -/
  | illegalUtf8 {text : List Char} (h : intact = false) : Flawed intact text .illegalUtf8 text
  /-- A backslash stands before a character that may not be escaped. -/
  | illegalEscape {quote c : Char} {body value after : List Char} (hquote : IsQuote quote)
      (hinside : Inside quote body value) (hc : c ≠ quote) (hline : c ≠ '\n') :
      Flawed intact (quote :: body ++ '\\' :: c :: after) (.illegalEscape c) (quote :: body)
  /-- The line or the file ends inside a string. -/
  | unterminatedString {quote : Char} {body value rest : List Char} (hquote : IsQuote quote)
      (hinside : Inside quote body value)
      (hend : (∃ after, rest = '\n' :: after ∨ rest = '\\' :: '\n' :: after) ∨
        intact = true ∧ (rest = [] ∨ rest = ['\\'])) :
      Flawed intact (quote :: body ++ rest) .unterminatedString []
  /-- The file ends inside a comment. -/
  | unterminatedComment {text : List Char} (h : intact = true) (hopen : ¬ ['*', '/'] <:+: text) :
      Flawed intact ('/' :: '*' :: text) .unterminatedComment []
  /-- A numeral denotes no number, or none that fits. -/
  | malformedNumber {numeral : Numeral} {rest : List Char} (hliteral : numeral.Literal)
      (hkind : numeral.kind? = none) :
      Flawed intact (numeral.lexeme ++ rest) (.malformedNumber (String.ofList numeral.lexeme)) []

/-- A scan of the text divides it into the characters taken and the rest. It takes the written form
of its token, or tells what is wrong. -/
inductive Takes (intact : Bool) (text : List Char) : Scan → Prop
  | token {kind : TokenKind} {lexeme rest : List Char} (htext : lexeme ++ rest = text)
      (hwritten : kind.WrittenAs lexeme) : Takes intact text ⟨lexeme, rest, .ok kind⟩
  | flaw {cause : Cause} {before lexeme rest : List Char} (htext : lexeme ++ rest = text)
      (hflawed : Flawed intact text cause before) :
      Takes intact text ⟨lexeme, rest, .error ⟨cause, before⟩⟩

theorem takes_undecodable (text : List Char) : Takes false text (undecodable text) :=
  .flaw (List.append_nil text) (.illegalUtf8 rfl)

theorem Takes.peeked {intact : Bool} {text lexeme rest : List Char} {scan : Scan}
    (htext : lexeme ++ rest = text) (h : Takes intact text scan) :
    Takes intact text (peeked intact lexeme rest scan) := by
  unfold Scan.peeked
  split
  · rename_i hend
    obtain ⟨hrest, hintact⟩ := Bool.and_eq_true_iff.1 hend
    rw [List.isEmpty_iff] at hrest
    rw [Bool.not_eq_true'] at hintact
    subst hrest hintact
    rw [List.append_nil] at htext
    exact htext ▸ takes_undecodable lexeme
  · exact h

/-- All characters of a run are of its class. -/
theorem mem_takeWhile {p : Char → Bool} {chars : List Char} :
    ∀ c ∈ chars.takeWhile p, p c = true :=
  List.all_eq_true.1 List.all_takeWhile

/-! ## Words -/

theorem takes_word (intact : Bool) {c : Char} (rest : List Char) (h : isWordStart c = true) :
    Takes intact (c :: rest) (word intact (c :: rest)) := by
  have hpart : isWordPart c = true := isWordPart_of_isWordStart h
  have hsplit : c :: rest.takeWhile isWordPart ++ rest.dropWhile isWordPart = c :: rest :=
    congrArg (c :: ·) List.takeWhile_append_dropWhile
  unfold word
  rw [List.takeWhile_cons_of_pos hpart, List.dropWhile_cons_of_pos hpart]
  refine .peeked hsplit ?_
  split
  · rename_i name rest' hname hrest
    refine .token ?_ (.label h mem_takeWhile hname)
    rw [List.append_assoc, List.singleton_append, ← hrest, hsplit]
  · exact .token hsplit (.word h mem_takeWhile)

/-! ## Numbers -/

namespace Numeral

/-- The characters of a fraction. -/
def fractionText (fraction : Option (List Char)) : List Char :=
  match fraction with
  | some digits => '.' :: digits
  | none => []

/-- The characters of an exponent. -/
def exponentText (exponent : Option (Char × List Char × List Char)) : List Char :=
  match exponent with
  | some (mark, sign, digits) => mark :: (sign ++ digits)
  | none => []

theorem lexeme_decimal (whole : List Char) (fraction : Option (List Char))
    (exponent : Option (Char × List Char × List Char)) :
    (decimal whole fraction exponent).lexeme =
      whole ++ fractionText fraction ++ exponentText exponent := by
  cases fraction <;> cases exponent <;> rfl

theorem splitFraction_append (chars : List Char) :
    fractionText (splitFraction chars).1 ++ (splitFraction chars).2 = chars ∧
      ∀ digits ∈ (splitFraction chars).1, ∀ c ∈ digits, c.isDigit = true := by
  fun_cases splitFraction chars with
  | case1 rest =>
    refine ⟨congrArg ('.' :: ·) List.takeWhile_append_dropWhile, ?_⟩
    rintro _ ⟨⟩
    exact mem_takeWhile
  | case2 => exact ⟨rfl, nofun⟩

theorem splitSign_append (chars : List Char) :
    (splitSign chars).1 ++ (splitSign chars).2 = chars ∧
      ((splitSign chars).1 = [] ∨ (splitSign chars).1 = ['+'] ∨ (splitSign chars).1 = ['-']) := by
  fun_cases splitSign chars with
  | case1 => exact ⟨rfl, .inr (.inl rfl)⟩
  | case2 => exact ⟨rfl, .inr (.inr rfl)⟩
  | case3 => exact ⟨rfl, .inl rfl⟩

theorem splitExponent_append (chars : List Char) :
    exponentText (splitExponent chars).1 ++ (splitExponent chars).2 = chars ∧
      ∀ part ∈ (splitExponent chars).1, (part.1 = 'e' ∨ part.1 = 'E') ∧
        (part.2.1 = [] ∨ part.2.1 = ['+'] ∨ part.2.1 = ['-']) ∧
        ∀ c ∈ part.2.2, c.isDigit = true := by
  fun_cases splitExponent chars with
  | case1 mark rest hmark sign rest' hsign =>
    obtain ⟨hsplit, hkind⟩ := splitSign_append rest
    rw [hsign] at hsplit hkind
    constructor
    · rw [exponentText, List.cons_append, List.append_assoc, List.takeWhile_append_dropWhile, hsplit]
    · rintro _ ⟨⟩
      exact ⟨by simpa using hmark, hkind, mem_takeWhile⟩
  | case2 => exact ⟨rfl, nofun⟩
  | case3 => exact ⟨rfl, nofun⟩

/-- A numeral is split off the front of the text. -/
theorem split_append {c : Char} (rest : List Char) (h : c.isDigit = true) :
    (split (c :: rest)).1.lexeme ++ (split (c :: rest)).2 = c :: rest ∧
      (split (c :: rest)).1.Literal := by
  obtain ⟨hfraction, hplaces⟩ := splitFraction_append ((c :: rest).dropWhile Char.isDigit)
  obtain ⟨hexponent, hparts⟩ := splitExponent_append
    (splitFraction ((c :: rest).dropWhile Char.isDigit)).2
  have hwhole : ∃ d digits, (c :: rest).takeWhile Char.isDigit = d :: digits :=
    ⟨c, _, List.takeWhile_cons_of_pos h⟩
  generalize c :: rest = chars at *
  have hplain : (decimal (chars.takeWhile Char.isDigit)
      (splitFraction (chars.dropWhile Char.isDigit)).1
      (splitExponent (splitFraction (chars.dropWhile Char.isDigit)).2).1).lexeme ++
      (splitExponent (splitFraction (chars.dropWhile Char.isDigit)).2).2 = chars := by
    rw [lexeme_decimal, List.append_assoc, hexponent, List.append_assoc, hfraction,
      List.takeWhile_append_dropWhile]
  fun_cases split chars with
  | case1 mark rest hmark =>
    exact ⟨congrArg ('0' :: mark :: ·) List.takeWhile_append_dropWhile,
      by simpa using hmark, mem_takeWhile⟩
  | case2 => exact ⟨hplain, hwhole, mem_takeWhile, hplaces, hparts⟩
  | case3 => exact ⟨hplain, hwhole, mem_takeWhile, hplaces, hparts⟩

end Numeral

theorem takes_number (intact : Bool) {c : Char} (rest : List Char) (h : c.isDigit = true) :
    Takes intact (c :: rest) (number intact (c :: rest)) := by
  obtain ⟨hsplit, hliteral⟩ := Numeral.split_append rest h
  refine .peeked hsplit ?_
  split
  · rename_i kind hkind
    exact .token hsplit (.number hliteral hkind)
  · rename_i hkind
    have hflawed : Flawed intact (_ ++ (Numeral.split (c :: rest)).2) _ [] :=
      .malformedNumber hliteral hkind
    rw [hsplit] at hflawed
    exact .flaw hsplit hflawed

/-! ## Strings and comments -/

/-- The inside of a string, from the part of it that was read: it stands newest first, above the
quote that opened the string. -/
theorem takes_stringBody (intact : Bool) {quote : Char} (hquote : IsQuote quote)
    {taken value body : List Char} (rest : List Char) (htaken : taken.reverse = quote :: body)
    (hinside : Inside quote body value.reverse) :
    Takes intact (taken.reverse ++ rest) (stringBody intact quote taken value rest) := by
  fun_induction stringBody intact quote taken value rest generalizing body with
  | case1 taken value hintact =>
    refine .flaw rfl ?_
    rw [htaken]
    exact .unterminatedString hquote hinside (.inr ⟨hintact, .inl rfl⟩)
  | case2 taken value hbroken =>
    obtain rfl : intact = false := Bool.eq_false_iff.2 hbroken
    rw [List.append_nil]
    exact takes_undecodable _
  | case3 taken value c rest hline =>
    obtain rfl := beq_iff_eq.1 hline
    refine .flaw (by simp) ?_
    rw [htaken]
    exact .unterminatedString hquote hinside (.inl ⟨rest, .inl rfl⟩)
  | case4 taken value c _ hescape hintact =>
    obtain rfl := beq_iff_eq.1 hescape
    refine .flaw (by simp) ?_
    rw [htaken]
    exact .unterminatedString hquote hinside (.inr ⟨hintact, .inr rfl⟩)
  | case5 taken value c _ _ hbroken =>
    obtain rfl : intact = false := Bool.eq_false_iff.2 hbroken
    rw [← List.reverse_cons]
    exact takes_undecodable _
  | case6 taken value c _ hescape d rest hd ih =>
    obtain rfl := beq_iff_eq.1 hescape
    obtain rfl := beq_iff_eq.1 hd
    have hinside' := hinside.append (.escaped .nil)
    rw [← List.reverse_cons] at hinside'
    have hgoes := ih (by simp [htaken]) hinside'
    simpa using hgoes
  | case7 taken value c _ hescape d rest _ hline =>
    obtain rfl := beq_iff_eq.1 hescape
    obtain rfl := beq_iff_eq.1 hline
    refine .flaw (by simp) ?_
    rw [htaken]
    exact .unterminatedString hquote hinside (.inl ⟨rest, .inr rfl⟩)
  | case8 taken value c _ hescape d rest hd hline =>
    obtain rfl := beq_iff_eq.1 hescape
    refine .flaw (by simp) ?_
    rw [htaken]
    exact .illegalEscape hquote hinside (by simpa using hd) (by simpa using hline)
  | case9 taken value c rest _ _ hc =>
    obtain rfl := beq_iff_eq.1 hc
    refine .token (by simp) ?_
    rw [List.reverse_cons, htaken]
    exact .string hquote hinside
  | case10 taken value c rest hline hescape hc ih =>
    have hinside' := hinside.append
      (.plain (by simpa using hline) (by simpa using hescape) (by simpa using hc) .nil)
    rw [← List.reverse_cons] at hinside'
    have hgoes := ih (by simp [htaken]) hinside'
    simpa using hgoes

/-- A comment up to the end of its line. -/
theorem takes_lineComment (intact : Bool) (rest : List Char) :
    Takes intact ('/' :: '/' :: rest) (lineComment intact rest) := by
  have hsplit : '/' :: '/' :: rest.takeWhile (· != '\n') ++ rest.dropWhile (· != '\n') =
      '/' :: '/' :: rest :=
    congrArg ('/' :: '/' :: ·) List.takeWhile_append_dropWhile
  refine .peeked hsplit (.token hsplit (.lineComment fun hmem => ?_))
  exact absurd (mem_takeWhile _ hmem) (by decide)

/-- Two characters side by side in a longer text stand in the text before its last character, or
are its last two. -/
theorem pair_infix_append {a b c d : Char} {text : List Char} (h : [a, b] <:+: text ++ [c, d]) :
    [a, b] <:+: text ++ [c] ∨ a = c ∧ b = d := by
  rw [show text ++ [c, d] = text ++ [c] ++ [d] by simp, List.infix_concat_iff] at h
  rcases h with ⟨front, hfront⟩ | hinfix
  · have hends : front ++ [a, b] = text ++ [c, d] := by simpa using hfront
    have htails := (List.append_inj' hends rfl).2
    simp only [List.cons.injEq, and_true] at htails
    exact .inr htails
  · exact .inl hinfix

/-- The inside of a delimited comment, from the part of it that was read, newest first. The mark
that ends the comment is not in that part, nor does it end with the next character. -/
theorem takes_blockBody (intact : Bool) (text rest : List Char)
    (hopen : ¬ ['*', '/'] <:+: text.reverse ++ rest.take 1) :
    Takes intact ('/' :: '*' :: (text.reverse ++ rest)) (blockBody intact text rest) := by
  fun_induction blockBody intact text rest with
  | case1 text _ hintact =>
    rw [List.take_nil, List.append_nil] at hopen
    rw [List.append_nil]
    exact .flaw (List.append_nil _) (.unterminatedComment hintact hopen)
  | case2 text _ hbroken =>
    obtain rfl : intact = false := Bool.eq_false_iff.2 hbroken
    rw [List.append_nil]
    exact takes_undecodable _
  | case3 text rest =>
    refine .token (by simp) (.blockComment fun hinfix => hopen ?_)
    exact hinfix.trans (List.prefix_append ..).isInfix
  | case4 text c rest hends ih =>
    have hgoes := ih fun hinfix => ?_
    · simpa using hgoes
    · cases rest with
      | nil =>
        rw [List.take_nil, List.append_nil, List.reverse_cons] at hinfix
        exact hopen hinfix
      | cons d rest =>
        rw [List.reverse_cons, List.append_assoc] at hinfix
        rcases pair_infix_append hinfix with hearlier | ⟨hc, hd⟩
        · exact hopen hearlier
        · exact hends rest hc.symm (by rw [hd])

theorem takes_slash (intact : Bool) (rest : List Char) :
    Takes intact ('/' :: rest) (slash intact rest) := by
  unfold slash
  split
  · exact takes_lineComment intact _
  · rename_i rest
    refine takes_blockBody intact [] rest fun hinfix => ?_
    have hlength := hinfix.length_le
    rw [List.reverse_nil, List.nil_append] at hlength
    have htake := List.length_take_le 1 rest
    exact absurd (Nat.le_trans hlength htake) (by decide)
  · exact .peeked rfl (.token rfl (.char rfl rfl rfl (by decide)))

theorem takes_dash (intact : Bool) (rest : List Char) :
    Takes intact ('-' :: rest) (dash intact rest) := by
  unfold dash
  split
  · exact .token rfl .arrow
  · exact .peeked rfl (.token rfl (.char rfl rfl rfl (by decide)))

/-- A scan takes the written form of its token off the text, or names what is wrong with it. -/
theorem takes_token (intact : Bool) {c : Char} (rest : List Char) (hblank : isBlank c = false) :
    Takes intact (c :: rest) (token intact c rest) := by
  unfold token
  split
  · exact takes_word intact rest ‹_›
  split
  · exact takes_number intact rest ‹_›
  split
  · rename_i hquote
    have hquote : IsQuote c := by simpa [IsQuote] using hquote
    have htaken : [c].reverse = c :: [] := rfl
    exact takes_stringBody intact hquote rest htaken .nil
  split
  · rename_i hslash
    exact beq_iff_eq.1 hslash ▸ takes_slash intact rest
  split
  · rename_i hdash
    exact beq_iff_eq.1 hdash ▸ takes_dash intact rest
  · rename_i hword hdigit hquote _ _
    exact .token rfl (.char hblank (Bool.eq_false_iff.2 hword) (Bool.eq_false_iff.2 hdigit)
      (by simpa [IsQuote] using hquote))

end Scan

end SchemaLang
