import Mathlib.Data.List.Forall2
import Mathlib.Data.List.TakeWhile
import SchemaLang.Proofs.Text.Encoding

/-!
# Printing tokens and reading them back

How a token is printed (`TokenKind.PrintedAs`), and that a list of tokens that is printed one per line
is read back as that list (`Lexing.complete_printed`).

A scan that takes the written form of a token depends on what follows it: a name on whether a colon
comes next, a slash on a second one, a numeral on a point or an exponent mark. The end of a line or of
the file goes on with none of them. There every written form is taken as it stands, so the written
forms are exactly what is taken (`Scan.token_of_writtenAs`, the converse of `Scan.takes_token`).
-/

namespace SchemaLang

open Text

/-- A line ends here: a line feed follows, or the file ends. -/
def EndsLine (rest : List Char) : Prop :=
  ∀ c ∈ rest.head?, c = '\n'

/-- A run ends where the next character is not of its class. -/
theorem takeWhile_append_of_stop {p : Char → Bool} {chars rest : List Char}
    (hchars : ∀ c ∈ chars, p c = true) (hstop : ∀ c ∈ rest.head?, p c = false) :
    (chars ++ rest).takeWhile p = chars ∧ (chars ++ rest).dropWhile p = rest := by
  rw [List.takeWhile_append_of_pos hchars, List.dropWhile_append_of_pos hchars]
  cases rest with
  | nil => exact ⟨List.append_nil chars, rfl⟩
  | cons c rest =>
    have hc : ¬ p c = true := Bool.eq_false_iff.1 (hstop c rfl)
    rw [List.takeWhile_cons_of_neg hc, List.dropWhile_cons_of_neg hc]
    exact ⟨List.append_nil chars, rfl⟩

section

variable {rest : List Char}

theorem EndsLine.stops {p : Char → Bool} (h : EndsLine rest) (hline : p '\n' = false) :
    ∀ c ∈ rest.head?, p c = false :=
  fun c hc => h c hc ▸ hline

/-! ## Scanning a written form -/

namespace Scan

theorem peeked_intact (lexeme rest : List Char) (next : Scan) :
    peeked true lexeme rest next = next := by
  unfold peeked
  rw [Bool.not_true, Bool.and_false, if_neg Bool.false_ne_true]

/-! ### Words -/

section

variable {c : Char} {chars : List Char} (hstart : isWordStart c = true)
  (hpart : ∀ d ∈ chars, isWordPart d = true)

include hstart hpart

theorem word_append (hend : EndsLine rest) :
    word true (c :: chars ++ rest) =
      accept (.ofWord (String.ofList (c :: chars))) (c :: chars) rest := by
  have hparts : ∀ d ∈ c :: chars, isWordPart d = true :=
    List.forall_mem_cons.2 ⟨isWordPart_of_isWordStart hstart, hpart⟩
  obtain ⟨htake, hdrop⟩ := takeWhile_append_of_stop hparts (hend.stops (p := isWordPart) rfl)
  unfold word
  rw [htake, hdrop, peeked_intact]
  split
  · exact absurd (hend ':' rfl) (by decide)
  · rfl

theorem word_append_colon {name : String}
    (hname : TokenKind.ofWord (String.ofList (c :: chars)) = .ident name) :
    word true (c :: chars ++ ':' :: rest) = accept (.label name) (c :: chars ++ [':']) rest := by
  have hparts : ∀ d ∈ c :: chars, isWordPart d = true :=
    List.forall_mem_cons.2 ⟨isWordPart_of_isWordStart hstart, hpart⟩
  have hstop : ∀ d ∈ (':' :: rest).head?, isWordPart d = false := by
    rintro d ⟨⟩
    decide
  obtain ⟨htake, hdrop⟩ := takeWhile_append_of_stop hparts hstop
  unfold word
  rw [htake, hdrop, peeked_intact, hname]
  rfl

end

/-! ### Numbers -/

namespace Numeral

theorem splitSign_signText {sign digits : List Char}
    (hsign : sign = [] ∨ sign = ['+'] ∨ sign = ['-']) (hdigits : ∀ c ∈ digits, c.isDigit = true)
    (hend : EndsLine rest) : splitSign (sign ++ (digits ++ rest)) = (sign, digits ++ rest) := by
  rcases hsign with rfl | rfl | rfl
  · have hhead : ∀ c ∈ (digits ++ rest).head?, c.isDigit = true ∨ c = '\n' := by
      cases digits with
      | nil => exact fun c hc => .inr (hend c hc)
      | cons d digits =>
        rintro _ ⟨⟩
        exact .inl (hdigits d (List.mem_cons_self ..))
    rw [List.nil_append]
    generalize digits ++ rest = chars at hhead
    fun_cases splitSign chars with
    | case1 => exact absurd (hhead '+' rfl) (by decide)
    | case2 => exact absurd (hhead '-' rfl) (by decide)
    | case3 => rfl
  · rfl
  · rfl

theorem splitExponent_exponentText {exponent : Option (Char × List Char × List Char)}
    (hparts : ∀ part ∈ exponent, (part.1 = 'e' ∨ part.1 = 'E') ∧ (part.2.1 = [] ∨
      part.2.1 = ['+'] ∨ part.2.1 = ['-']) ∧ ∀ c ∈ part.2.2, c.isDigit = true)
    (hend : EndsLine rest) : splitExponent (exponentText exponent ++ rest) = (exponent, rest) := by
  cases exponent with
  | none =>
    rw [exponentText, List.nil_append]
    fun_cases splitExponent rest with
    | case1 mark =>
      obtain rfl : mark = '\n' := hend mark rfl
      contradiction
    | case2 => rfl
    | case3 => rfl
  | some part =>
    obtain ⟨mark, sign, digits⟩ := part
    obtain ⟨hmark, hsign, hdigits⟩ := hparts _ rfl
    obtain ⟨htake, hdrop⟩ := takeWhile_append_of_stop hdigits (hend.stops (p := Char.isDigit) rfl)
    have hmark : (mark == 'e' || mark == 'E') = true := by simpa using hmark
    rw [exponentText, List.cons_append, List.append_assoc, splitExponent, if_pos hmark,
      splitSign_signText hsign hdigits hend]
    dsimp only
    rw [htake, hdrop]

/-- What comes next after the whole part of a numeral or after its fraction. -/
theorem head?_exponentText_append {exponent : Option (Char × List Char × List Char)}
    (hparts : ∀ part ∈ exponent, part.1 = 'e' ∨ part.1 = 'E') (hend : EndsLine rest) :
    ∀ c ∈ (exponentText exponent ++ rest).head?, c = 'e' ∨ c = 'E' ∨ c = '\n' := by
  cases exponent with
  | none => exact fun c hc => .inr (.inr (hend c hc))
  | some part =>
    rintro _ ⟨⟩
    rcases hparts part rfl with h | h
    · exact .inl h
    · exact .inr (.inl h)

theorem splitFraction_fractionText {fraction : Option (List Char)} {rest : List Char}
    (hdigits : ∀ digits ∈ fraction, ∀ c ∈ digits, c.isDigit = true)
    (hhead : ∀ c ∈ rest.head?, c = 'e' ∨ c = 'E' ∨ c = '\n') :
    splitFraction (fractionText fraction ++ rest) = (fraction, rest) := by
  cases fraction with
  | none =>
    rw [fractionText, List.nil_append]
    fun_cases splitFraction rest with
    | case1 => exact absurd (hhead '.' rfl) (by decide)
    | case2 => rfl
  | some digits =>
    have hstop : ∀ c ∈ rest.head?, c.isDigit = false := by
      intro c hc
      rcases hhead c hc with rfl | rfl | rfl <;> rfl
    obtain ⟨htake, hdrop⟩ := takeWhile_append_of_stop (hdigits digits rfl) hstop
    rw [fractionText, List.cons_append, splitFraction, htake, hdrop]

/-- A numeral at the end of a line is split off as it stands. -/
theorem split_lexeme {numeral : Numeral} (hliteral : numeral.Literal) (hend : EndsLine rest) :
    split (numeral.lexeme ++ rest) = (numeral, rest) := by
  cases numeral with
  | hex mark digits =>
    obtain ⟨hmark, hdigits⟩ := hliteral
    obtain ⟨htake, hdrop⟩ := takeWhile_append_of_stop hdigits (hend.stops (p := isHexDigit) rfl)
    have hmark : (mark == 'x' || mark == 'X') = true := by simpa using hmark
    rw [lexeme, List.cons_append, List.cons_append, split, if_pos hmark, htake, hdrop]
  | decimal whole fraction exponent =>
    obtain ⟨-, hwhole, hfraction, hexponent⟩ := hliteral
    have hhead := head?_exponentText_append (fun part hpart => (hexponent part hpart).1) hend
    have hstop : ∀ c ∈ (fractionText fraction ++ (exponentText exponent ++ rest)).head?,
        c = '.' ∨ c = 'e' ∨ c = 'E' ∨ c = '\n' := by
      cases fraction with
      | none => exact fun c hc => .inr (hhead c hc)
      | some digits =>
        rintro _ ⟨⟩
        exact .inl rfl
    obtain ⟨htake, hdrop⟩ := takeWhile_append_of_stop hwhole
      (fun c hc => show c.isDigit = false by
        rcases hstop c hc with rfl | rfl | rfl | rfl <;> rfl)
    rw [lexeme_decimal, List.append_assoc, List.append_assoc]
    generalize htail : fractionText fraction ++ (exponentText exponent ++ rest) = tail at *
    generalize whole ++ tail = chars at *
    have hplain : (decimal (chars.takeWhile Char.isDigit)
        (splitFraction (chars.dropWhile Char.isDigit)).1
        (splitExponent (splitFraction (chars.dropWhile Char.isDigit)).2).1,
          (splitExponent (splitFraction (chars.dropWhile Char.isDigit)).2).2) =
        (decimal whole fraction exponent, rest) := by
      rw [htake, hdrop, ← htail, splitFraction_fractionText hfraction hhead,
        splitExponent_exponentText hexponent hend]
    fun_cases split chars with
    | case1 mark others hmark =>
      have hletter : mark = 'x' ∨ mark = 'X' := by simpa using hmark
      have hmark : mark ∈ tail.head? := by
        rcases hletter with rfl | rfl <;> exact hdrop ▸ rfl
      rcases hletter with rfl | rfl <;> exact absurd (hstop _ hmark) (by decide)
    | case2 => exact hplain
    | case3 => exact hplain

end Numeral

theorem number_append {numeral : Numeral} {kind : TokenKind} (hliteral : numeral.Literal)
    (hkind : numeral.kind? = some kind) (hend : EndsLine rest) :
    number true (numeral.lexeme ++ rest) = accept kind numeral.lexeme rest := by
  unfold number
  rw [Numeral.split_lexeme hliteral hend]
  dsimp only
  rw [peeked_intact, hkind]

/-! ### Strings and comments -/

/-- The inside of a string is taken up to the quote that ends it, whatever follows. -/
theorem stringBody_append {quote : Char} {text value : List Char} (hquote : IsQuote quote)
    (hinside : Inside quote text value) (taken done rest : List Char) :
    stringBody true quote taken done (text ++ quote :: rest) =
      accept (.string (String.ofList (done.reverse ++ value))) (taken.reverse ++ (text ++ [quote]))
        rest := by
  induction hinside generalizing taken done with
  | nil =>
    have hline : ¬ (quote == '\n') = true := by rcases hquote with rfl | rfl <;> decide
    have hescape : ¬ (quote == '\\') = true := by rcases hquote with rfl | rfl <;> decide
    rw [List.nil_append, stringBody.eq_def]
    dsimp only
    rw [if_neg hline, if_neg hescape, if_pos BEq.rfl]
    simp
  | @plain c text value hline hescape hother _ ih =>
    rw [List.cons_append, stringBody.eq_def]
    dsimp only
    rw [if_neg (by simpa using hline), if_neg (by simpa using hescape),
      if_neg (by simpa using hother), ih]
    simp
  | @escaped text value _ ih =>
    rw [List.cons_append, List.cons_append, stringBody.eq_def]
    dsimp only
    rw [if_neg (by decide), if_pos (by decide), if_pos BEq.rfl, ih]
    simp

theorem lineComment_append {text : List Char} (hline : '\n' ∉ text) (hend : EndsLine rest) :
    lineComment true (text ++ rest) =
      accept (.comment (String.ofList text)) ('/' :: '/' :: text) rest := by
  have hchars : ∀ c ∈ text, (c != '\n') = true := by
    intro c hc
    simpa using fun h : c = '\n' => hline (h ▸ hc)
  obtain ⟨htake, hdrop⟩ := takeWhile_append_of_stop hchars (hend.stops (p := (· != '\n')) rfl)
  unfold lineComment
  dsimp only
  rw [htake, hdrop, peeked_intact]

/-- The inside of a delimited comment is taken up to the first mark that ends it. -/
theorem blockBody_append {text : List Char} (hopen : ¬ ['*', '/'] <:+: text)
    (done rest : List Char) :
    blockBody true done (text ++ '*' :: '/' :: rest) =
      accept (.comment (String.ofList (done.reverse ++ text)))
        ('/' :: '*' :: (done.reverse ++ text ++ ['*', '/'])) rest := by
  induction text generalizing done with
  | nil => rw [List.nil_append, List.append_nil]; rfl
  | cons c text ih =>
    have hrest : ¬ ['*', '/'] <:+: text := fun h => hopen (List.infix_cons h)
    have hends : ∀ after, c = '*' → text ++ '*' :: '/' :: rest = '/' :: after → False := by
      rintro after rfl hafter
      cases text with
      | nil => cases hafter
      | cons d text =>
        obtain rfl := (List.cons.inj hafter).1
        exact hopen ⟨[], text, rfl⟩
    rw [List.cons_append, blockBody.eq_3 true done c _ hends, ih hrest]
    simp

/-! ### Tokens -/

theorem slash_of_endsLine (hend : EndsLine rest) :
    slash true rest = accept (.char '/') ['/'] rest := by
  fun_cases slash true rest with
  | case1 => exact absurd (hend '/' rfl) (by decide)
  | case2 => exact absurd (hend '*' rfl) (by decide)
  | case3 => exact peeked_intact _ _ _

theorem dash_of_endsLine (hend : EndsLine rest) :
    dash true rest = accept (.char '-') ['-'] rest := by
  fun_cases dash true rest with
  | case1 => exact absurd (hend '>' rfl) (by decide)
  | case2 => exact peeked_intact _ _ _

theorem isWordStart_of_isDigit {c : Char} (h : c.isDigit = true) : isWordStart c = false := by
  have hcode : 48 ≤ c.toNat ∧ c.toNat ≤ 57 := by
    simpa [Char.isDigit, UInt32.le_iff_toNat_le] using h
  have hdigits : ∀ code < 58, 48 ≤ code → isWordStart (Char.ofNat code) = false := by decide
  rw [← Char.ofNat_toNat c]
  exact hdigits c.toNat (by omega) hcode.1

theorem isWordStart_of_isQuote {c : Char} (h : IsQuote c) : isWordStart c = false := by
  rcases h with rfl | rfl <;> decide

theorem isDigit_of_isQuote {c : Char} (h : IsQuote c) : c.isDigit = false := by
  rcases h with rfl | rfl <;> decide

/-- A numeral starts with a digit. -/
theorem Numeral.Literal.isDigit {numeral : Numeral} (h : numeral.Literal) :
    ∃ c chars, numeral.lexeme = c :: chars ∧ c.isDigit = true := by
  cases numeral with
  | hex mark digits => exact ⟨_, _, rfl, rfl⟩
  | decimal whole fraction exponent =>
    obtain ⟨⟨c, chars, rfl⟩, hdigits, -⟩ := h
    exact ⟨c, _, rfl, hdigits c (List.mem_cons_self ..)⟩

/-- At the end of a line the written form of a token is taken as it stands. -/
theorem token_of_writtenAs {kind : TokenKind} {lexeme : List Char}
    (hwritten : kind.WrittenAs lexeme) (hend : EndsLine rest) :
    ∃ c chars, lexeme = c :: chars ∧ isBlank c = false ∧
      token true c (chars ++ rest) = accept kind lexeme rest := by
  cases hwritten with
  | word hstart hpart =>
    refine ⟨_, _, rfl, isBlank_of_isWordStart hstart, ?_⟩
    rw [token, if_pos hstart, ← List.cons_append, word_append hstart hpart hend]
  | label hstart hpart hname =>
    refine ⟨_, _, List.cons_append, isBlank_of_isWordStart hstart, ?_⟩
    rw [token, if_pos hstart, List.append_assoc, List.singleton_append, ← List.cons_append,
      word_append_colon hstart hpart hname]
  | number hliteral hkind =>
    obtain ⟨c, chars, hlexeme, hdigit⟩ := hliteral.isDigit
    refine ⟨c, chars, hlexeme, isBlank_of_isDigit hdigit, ?_⟩
    rw [token, if_neg (Bool.eq_false_iff.1 (isWordStart_of_isDigit hdigit)), if_pos hdigit,
      ← List.cons_append, ← hlexeme, number_append hliteral hkind hend]
  | @string quote text value hquote hinside =>
    refine ⟨_, _, List.cons_append, isBlank_of_isQuote hquote, ?_⟩
    have hdelimits : (quote == '"' || quote == '\'') = true := by simpa [IsQuote] using hquote
    rw [token, if_neg (Bool.eq_false_iff.1 (isWordStart_of_isQuote hquote)),
      if_neg (Bool.eq_false_iff.1 (isDigit_of_isQuote hquote)), if_pos hdelimits,
      List.append_assoc, List.singleton_append, stringBody_append hquote hinside]
    rfl
  | lineComment hline =>
    exact ⟨_, _, rfl, rfl, lineComment_append hline hend⟩
  | @blockComment text hopen =>
    refine ⟨_, _, rfl, rfl, ?_⟩
    have hbody := blockBody_append hopen [] rest
    rw [List.cons_append, List.append_assoc]
    exact hbody
  | arrow => exact ⟨_, _, rfl, rfl, rfl⟩
  | @char c hblank hword hdigit hquote =>
    refine ⟨_, _, rfl, hblank, ?_⟩
    have hdelimits : ¬ (c == '"' || c == '\'') = true := by simpa [IsQuote] using hquote
    rw [token, if_neg (Bool.eq_false_iff.1 hword), if_neg (Bool.eq_false_iff.1 hdigit),
      if_neg hdelimits, List.nil_append]
    split
    · rename_i hslash
      rw [beq_iff_eq.1 hslash, slash_of_endsLine hend]
    split
    · rename_i hdash
      rw [beq_iff_eq.1 hdash, dash_of_endsLine hend]
    · rfl

end Scan

end

/-! ## Printed forms -/

/-- A name is a word that is neither reserved nor a boolean literal. -/
structure IsName (name : String) : Prop where
  word : ∃ c chars, name.toList = c :: chars ∧ isWordStart c = true ∧
    ∀ d ∈ chars, isWordPart d = true
  not_keyword (word : Keyword) : name ≠ word.spelling
  not_true : name ≠ "true"
  not_false : name ≠ "false"

/-- The inside of a string between two of the given quotes: a quote is written behind a backslash. -/
def escape (quote : Char) (value : List Char) : List Char :=
  value.flatMap fun c => if c = quote then ['\\', c] else [c]

/-- How a token is printed. Numbers are printed in decimal, strings between quotes of either kind,
comments either up to the end of their line or between marks. -/
inductive TokenKind.PrintedAs : TokenKind → List Char → Prop
  | keyword (word : Keyword) : PrintedAs (keyword word) word.spelling.toList
  | ident {name : String} (h : IsName name) : PrintedAs (ident name) name.toList
  | label {name : String} (h : IsName name) : PrintedAs (label name) (name.toList ++ [':'])
  | int {value : Int64} (h : 0 ≤ value.toInt) : PrintedAs (int value) (toString value.toInt).toList
  | bool (value : Bool) : PrintedAs (bool value) (toString value).toList
  | string {quote : Char} {value : String} (hquote : IsQuote quote) (hescape : '\\' ∉ value.toList)
      (hline : '\n' ∉ value.toList) :
      PrintedAs (string value) (quote :: escape quote value.toList ++ [quote])
  | lineComment {text : String} (hline : '\n' ∉ text.toList) :
      PrintedAs (comment text) ('/' :: '/' :: text.toList)
  | blockComment {text : String} (hopen : ¬ ['*', '/'] <:+: text.toList) :
      PrintedAs (comment text) ('/' :: '*' :: (text.toList ++ ['*', '/']))
  | arrow : PrintedAs arrow ['-', '>']
  | char {c : Char} (hletter : isLetter c = false) (hunderscore : c ≠ '_')
      (hdigit : c.isDigit = false) (hquote : ¬ IsQuote c) (hblank : isBlank c = false) :
      PrintedAs (char c) [c]

theorem inside_escape {quote : Char} {value : List Char} (hescape : '\\' ∉ value)
    (hline : '\n' ∉ value) : Inside quote (escape quote value) value := by
  induction value with
  | nil => exact .nil
  | cons c value ih =>
    rw [List.mem_cons, not_or] at hescape hline
    have hinside := ih hescape.2 hline.2
    rw [escape, List.flatMap_cons]
    split
    · rename_i hc
      subst hc
      exact .escaped hinside
    · rename_i hc
      exact .plain (Ne.symm hline.1) (Ne.symm hescape.1) hc hinside

namespace TokenKind

theorem ofWord_spelling (word : Keyword) : ofWord word.spelling = keyword word := by
  cases word <;> rfl

theorem ofWord_of_isName {name : String} (h : IsName name) : ofWord name = ident name := by
  have hnone : Keyword.ofSpelling? name = none := by
    refine List.find?_eq_none.2 fun word _ hword => ?_
    exact h.not_keyword word (beq_iff_eq.1 hword).symm
  rw [ofWord, hnone]
  dsimp only
  rw [if_neg (by simpa using h.not_true), if_neg (by simpa using h.not_false)]

/-- A word in the written form of the token that it is. -/
theorem writtenAs_ofWord (word : String) (h : ∃ c chars, word.toList = c :: chars ∧
    isWordStart c = true ∧ ∀ d ∈ chars, isWordPart d = true) :
    (ofWord word).WrittenAs word.toList := by
  obtain ⟨c, chars, hword, hstart, hpart⟩ := h
  have hwritten := WrittenAs.word hstart hpart
  rwa [← hword, String.ofList_toList] at hwritten

end TokenKind

namespace Scan

theorem digitsValue_eq_ofDigitChars {digits : List Char} (h : ∀ c ∈ digits, c.isDigit = true) :
    digitsValue 10 digits = Nat.ofDigitChars 10 digits 0 := by
  rw [digitsValue, Nat.ofDigitChars_eq_foldl]
  generalize 0 = start
  induction digits generalizing start with
  | nil => rfl
  | cons c digits ih =>
    obtain ⟨hc, hrest⟩ := List.forall_mem_cons.1 h
    rw [List.foldl_cons, List.foldl_cons, digitValue, if_pos hc, Nat.mul_comm, ih hrest]

namespace Numeral

/-- The decimal digits of a number. -/
def ofNat (value : Nat) : Numeral :=
  decimal (Nat.toDigits 10 value) none none

theorem lexeme_ofNat (value : Nat) : (ofNat value).lexeme = Nat.toDigits 10 value := by
  rw [ofNat, lexeme_decimal, fractionText, exponentText, List.append_nil, List.append_nil]

theorem literal_ofNat (value : Nat) : (ofNat value).Literal :=
  ⟨List.exists_cons_of_ne_nil Nat.toDigits_ne_nil,
    fun _ hc => Nat.isDigit_of_mem_toDigits (by decide) (by decide) hc, nofun, nofun⟩

theorem kind?_ofNat (value : Nat) : (ofNat value).kind? = intKind? value := by
  rw [ofNat, kind?, digitsValue_eq_ofDigitChars (literal_ofNat value).2.1, Nat.ofDigitChars_ten_toDigits]

end Numeral

end Scan

namespace TokenKind

/-- A number is written in its decimal digits. -/
theorem writtenAs_int {value : Int64} (h : 0 ≤ value.toInt) :
    (int value).WrittenAs (toString value.toInt).toList := by
  obtain ⟨magnitude, hvalue⟩ := Int.eq_ofNat_of_zero_le h
  have htext : (toString value.toInt).toList = Nat.toDigits 10 magnitude := by
    rw [hvalue, Int.toString_eq_repr, Int.repr_eq_if, if_pos (Int.natCast_nonneg magnitude),
      Int.toNat_natCast, Nat.repr_eq_ofList_toDigits, String.toList_ofList]
  have hkind : (Scan.Numeral.ofNat magnitude).kind? = some (int value) := by
    have hlt := value.toInt_lt
    have hofNat : Int64.ofNat magnitude = value := by
      rw [← Int64.ofInt_eq_ofNat, ← Int64.ofInt_toInt value, hvalue]
    rw [Scan.Numeral.kind?_ofNat, Scan.Numeral.intKind?, if_pos (by omega), hofNat]
  have hwritten := WrittenAs.number (Scan.Numeral.literal_ofNat magnitude) hkind
  rwa [htext, ← Scan.Numeral.lexeme_ofNat]

/-- Tokens are printed in one of the forms that they are written in. -/
theorem PrintedAs.writtenAs {kind : TokenKind} {text : List Char} (h : kind.PrintedAs text) :
    kind.WrittenAs text := by
  cases h with
  | keyword word =>
    rw [← ofWord_spelling]
    exact writtenAs_ofWord _
      (by cases word <;> exact ⟨_, _, rfl, by decide, List.all_eq_true.1 (by decide)⟩)
  | ident h => exact ofWord_of_isName h ▸ writtenAs_ofWord _ h.word
  | @label name h =>
    obtain ⟨c, chars, hword, hstart, hpart⟩ := h.word
    have hname : ofWord (String.ofList (c :: chars)) = .ident name := by
      rw [← hword, String.ofList_toList, ofWord_of_isName h]
    rw [hword]
    exact .label hstart hpart hname
  | int h => exact writtenAs_int h
  | bool value =>
    cases value
    · exact writtenAs_ofWord "false" ⟨_, _, rfl, by decide, List.all_eq_true.1 (by decide)⟩
    · exact writtenAs_ofWord "true" ⟨_, _, rfl, by decide, List.all_eq_true.1 (by decide)⟩
  | @string quote value hquote hescape hline =>
    have hwritten := WrittenAs.string hquote (inside_escape hescape hline)
    rwa [String.ofList_toList] at hwritten
  | @lineComment text hline =>
    have hwritten := WrittenAs.lineComment hline
    rwa [String.ofList_toList] at hwritten
  | @blockComment text hopen =>
    have hwritten := WrittenAs.blockComment hopen
    rwa [String.ofList_toList] at hwritten
  | arrow => exact .arrow
  | char hletter hunderscore hdigit hquote hblank =>
    refine .char hblank ?_ hdigit hquote
    rw [isWordStart, hletter, Bool.false_or, beq_eq_false_iff_ne]
    exact hunderscore

end TokenKind

/-! ## Strings that can be read -/

namespace Inside

variable {quote : Char} {text value : List Char}

/-- Neither a backslash nor a line feed can be read inside a string: the only character that may be
escaped is the quote. -/
theorem not_mem (hquote : IsQuote quote) (h : Inside quote text value) :
    '\\' ∉ value ∧ '\n' ∉ value := by
  induction h with
  | nil => exact ⟨List.not_mem_nil, List.not_mem_nil⟩
  | plain hline hescape _ _ ih =>
    rw [List.mem_cons, List.mem_cons, not_or, not_or]
    exact ⟨⟨Ne.symm hescape, ih.1⟩, Ne.symm hline, ih.2⟩
  | escaped _ ih =>
    have hplain : '\\' ≠ quote ∧ '\n' ≠ quote := by rcases hquote with rfl | rfl <;> decide
    rw [List.mem_cons, List.mem_cons, not_or, not_or]
    exact ⟨⟨hplain.1, ih.1⟩, hplain.2, ih.2⟩

end Inside

namespace TokenKind

/-- A string is written between quotes only. -/
theorem WrittenAs.not_mem_string {value : String} {lexeme : List Char}
    (h : (TokenKind.string value).WrittenAs lexeme) : '\\' ∉ value.toList ∧ '\n' ∉ value.toList := by
  generalize hkind : TokenKind.string value = kind at h
  cases h with
  | @word c rest =>
    rcases ofWord_cases (String.ofList (c :: rest)) with ⟨_, h⟩ | ⟨_, h⟩ | h <;>
      cases hkind.trans h
  | number _ h =>
    rcases Scan.Numeral.kind?_cases h with ⟨_, rfl⟩ | ⟨_, rfl⟩ <;> cases hkind
  | string hquote hinside =>
    obtain rfl := TokenKind.string.inj hkind
    rw [String.toList_ofList]
    exact hinside.not_mem hquote
  | _ => cases hkind

end TokenKind

/-! ## Reading what was printed -/

namespace Lexing

/-- The lines of a text, the last one with or without a line feed behind it. -/
def lines (texts : List (List Char)) (ending : Bool) : List Char :=
  ['\n'].intercalate texts ++ if ending then ['\n'] else []

theorem blank_lines_nil (ending : Bool) : Blank (lines [] ending) := by
  cases ending
  · exact List.forall_mem_nil _
  · exact List.forall_mem_singleton.2 rfl

/-- The first line is one of the texts, and the next one follows it behind a line feed. -/
theorem lines_cons (text : List Char) (texts : List (List Char)) (ending : Bool) :
    ∃ blanks, Blank blanks ∧ lines (text :: texts) ending = text ++ (blanks ++ lines texts ending) ∧
      EndsLine (blanks ++ lines texts ending) := by
  cases texts with
  | nil =>
    refine ⟨[], List.forall_mem_nil _, by simp [lines], ?_⟩
    cases ending
    · rintro _ ⟨⟩
    · rintro _ ⟨⟩
      rfl
  | cons next texts =>
    refine ⟨['\n'], List.forall_mem_singleton.2 rfl, by simp [lines], ?_⟩
    rintro _ ⟨⟩
    rfl

/-- Behind blanks, lines of written forms are read as their tokens and the end of the file. -/
theorem read_lines {kinds : List TokenKind} {texts : List (List Char)} (ending : Bool)
    (h : List.Forall₂ TokenKind.WrittenAs kinds texts) :
    ∀ (fuel : Nat) (lexer : Lexer) (done : List Token) (blanks : List Char),
      lexer.lookahead = none → lexer.intact = true → Blank blanks →
      lexer.rest = blanks ++ lines texts ending → lexer.rest.length < fuel →
      ∃ tokens, read fuel lexer done = ⟨done.reverse ++ tokens, none⟩ ∧
        tokens.map Token.kind = kinds ++ [.eof] := by
  induction h with
  | nil =>
    intro fuel lexer done blanks hnone hintact hblank hrest hfuel
    have hdrop : lexer.rest.dropWhile isBlank = [] := by
      rw [hrest]
      refine List.dropWhile_eq_nil_iff.2 fun c hc => ?_
      exact (List.mem_append.1 hc).elim (hblank c) (blank_lines_nil ending c)
    have hscan := Lexer.scan_of_nil hdrop
    rw [hintact, if_pos rfl] at hscan
    cases fuel with
    | zero => exact absurd hfuel (Nat.not_lt_zero _)
    | succ fuel =>
      rw [read, Lexer.next, hnone]
      dsimp only
      rw [← Prod.eta lexer.scan, hscan]
      dsimp only
      rw [if_pos rfl, List.reverse_cons]
      exact ⟨_, rfl, rfl⟩
  | @cons kind text kinds texts hwritten _ ih =>
    intro fuel lexer done blanks hnone hintact hblank hrest hfuel
    obtain ⟨next, hnext, hlines, hend⟩ := lines_cons text texts ending
    obtain ⟨c, chars, rfl, hc, htoken⟩ := Scan.token_of_writtenAs hwritten hend
    have hsplit : (blanks ++ (c :: chars ++ (next ++ lines texts ending))).dropWhile isBlank =
        c :: chars ++ (next ++ lines texts ending) :=
      (takeWhile_append_of_stop hblank (by rintro _ ⟨⟩; exact hc)).2
    have htext : blanks ++ (c :: chars ++ (next ++ lines texts ending)) = lexer.rest := by
      rw [hrest, hlines]
    rw [htext] at hsplit
    rw [← hintact] at htoken
    have hscan := Lexer.scan_of_ok hsplit htoken
    cases fuel with
    | zero => exact absurd hfuel (Nat.not_lt_zero _)
    | succ fuel =>
      rw [hrest, hlines] at hfuel
      simp only [List.length_append, List.length_cons] at hfuel
      rw [read, Lexer.next, hnone]
      dsimp only
      rw [hscan]
      dsimp only
      rw [if_neg hwritten.ne_eof]
      obtain ⟨tokens, hread, htokens⟩ := ih fuel
        { lexer with
          rest := next ++ lines texts ending
          coordinate := lexer.coordinate.after (lexer.rest.takeWhile isBlank ++ c :: chars) }
        (⟨kind, (lexer.coordinate.after (lexer.rest.takeWhile isBlank)).position lexer.file⟩ :: done)
        next hnone hintact hnext rfl (by simp only [List.length_append]; omega)
      rw [hread, List.reverse_cons, List.append_assoc, List.singleton_append]
      exact ⟨_, rfl, congrArg (kind :: ·) htokens⟩

/-- All tokens but the end of the file are written somewhere in it. -/
theorem Tiles.writtenAs {place : List Char → Position → Prop} {intact : Bool}
    {before text : List Char} {tokens : List Token} {failure : Option Diagnostic}
    (h : Tiles place intact before text tokens failure) :
    ∀ token ∈ tokens, token.kind = .eof ∨ ∃ lexeme, token.kind.WrittenAs lexeme := by
  intro token htoken
  obtain ⟨_, lexeme, -, -, hkind⟩ := h.stands token htoken
  exact hkind.imp_right fun hwritten => ⟨lexeme, hwritten⟩

/-- Tokens that are printed one per line are read back as they were. Of no file a string is read with
a backslash or a line feed in it. -/
theorem complete_printed (file : String) :
    (∀ (kinds : List TokenKind) (texts : List (List Char)) (ending : Bool),
      List.Forall₂ TokenKind.PrintedAs kinds texts →
      ∃ tokens, (ofSource file (.ofBytes (lines texts ending).utf8Encode)).complete = .ok tokens ∧
        tokens.map Token.kind = kinds ++ [.eof]) ∧
    ∀ (bytes : ByteArray), ∀ token ∈ (ofSource file (.ofBytes bytes)).tokens,
      ∀ value, token.kind = .string value → '\\' ∉ value.toList ∧ '\n' ∉ value.toList := by
  constructor
  · intro kinds texts ending hprinted
    obtain ⟨tokens, hread, hkinds⟩ :=
      read_lines ending (hprinted.imp fun _ _ => TokenKind.PrintedAs.writtenAs)
        ((lines texts ending).length + 2) (.ofSource file ⟨lines texts ending, true⟩) [] []
        rfl rfl (List.forall_mem_nil _) rfl (Nat.lt_add_of_pos_right (by decide))
    refine ⟨tokens, ?_, hkinds⟩
    have hsource : ofSource file ⟨lines texts ending, true⟩ = ⟨tokens, none⟩ := hread
    rw [Source.ofBytes_utf8Encode, hsource]
    rfl
  · intro bytes token htoken value hvalue
    rcases (tiles_ofSource file (.ofBytes bytes)).writtenAs token htoken with heof | ⟨lexeme, hwritten⟩
    · cases hvalue.symm.trans heof
    · rw [hvalue] at hwritten
      exact hwritten.not_mem_string

/-- Every token here would be read in another way if its line went on as the next one starts. -/
theorem complete_printed_close :
    ∃ tokens, (ofSource "a" (.ofBytes (lines [['x'], [':'], ['/'], ['/'], ['-'],
        "9223372036854775807".toList, ['.'], "/**/".toList, "//*/".toList, "'\\''".toList, "x:".toList,
        "table".toList, "->".toList, "true".toList] false).utf8Encode)).complete = .ok tokens ∧
      tokens.map Token.kind = [.ident "x", .char ':', .char '/', .char '/', .char '-',
        .int 9223372036854775807, .char '.', .comment "", .comment "*/", .string "'", .label "x",
        .keyword .table, .arrow, .bool true, .eof] := by
  have hname : IsName "x" :=
    ⟨⟨_, _, rfl, by decide, List.all_eq_true.1 (by decide)⟩,
      fun word => by cases word <;> decide, by decide, by decide⟩
  have hchar : ∀ c ∈ [':', '/', '-', '.'], (TokenKind.char c).PrintedAs [c] := by
    intro c hc
    simp only [List.mem_cons, List.not_mem_nil, or_false] at hc
    rcases hc with rfl | rfl | rfl | rfl <;>
      exact .char (by decide) (by decide) (by decide) (by decide) (by decide)
  refine (complete_printed "a").1 [.ident "x", .char ':', .char '/', .char '/', .char '-',
    .int 9223372036854775807, .char '.', .comment "", .comment "*/", .string "'", .label "x",
    .keyword .table, .arrow, .bool true] _ false ?_
  exact .cons (.ident hname) <| .cons (hchar _ (by decide)) <| .cons (hchar _ (by decide)) <|
    .cons (hchar _ (by decide)) <| .cons (hchar _ (by decide)) <|
    .cons (.int (by decide)) <| .cons (hchar _ (by decide)) <|
    .cons (.blockComment (by decide)) <|
    .cons (.lineComment (by decide)) <|
    .cons (.string (by decide) (by decide) (by decide)) <|
    .cons (.label hname) <| .cons (.keyword .table) <| .cons .arrow <| .cons (.bool true) .nil

end Lexing

end SchemaLang
