import Mathlib.Data.Nat.Digits.Defs
import SchemaLang.Proofs.Token.Printing

/-!
# Integer literals

The digits of an integer literal are added up without a bound, and the literal is a token exactly if
the sum fits into 63 bits (`Scan.Numeral.kind?_of_isInteger`). What the digits mean is said apart from
the scan, by the places of the digits (`Scan.Numeral.value`).

A text that goes on with other characters than those of the literal ends it. `Lexing.Reads` puts the
tokens of a line together, one scan after the other.
-/

namespace SchemaLang

open Text

namespace Scan

/-! ## What digits mean -/

/-- The place of a digit of either case in the order of the digits. -/
def digitRank (c : Char) : Nat :=
  "0123456789abcdef".toList.idxOf c.toLower

theorem toNat_of_isHexDigit {c : Char} (h : isHexDigit c = true) : c.toNat < 103 := by
  simp only [isHexDigit, Char.isDigit, Bool.or_eq_true, Bool.and_eq_true, decide_eq_true_eq,
    Char.le_def, UInt32.le_iff_toNat_le] at h
  have hcodes : '9'.val.toNat = 57 ∧ 'f'.val.toNat = 102 ∧ 'F'.val.toNat = 70 := by decide
  have hcode : c.toNat = c.val.toNat := rfl
  have hnine : (57 : UInt32).toNat = 57 := rfl
  omega

theorem digitValue_eq_digitRank {c : Char} (h : isHexDigit c = true) :
    digitValue c = digitRank c := by
  have hdigits : ∀ code < 103, isHexDigit (Char.ofNat code) = true →
      digitValue (Char.ofNat code) = digitRank (Char.ofNat code) := by decide
  have hc := hdigits c.toNat (toNat_of_isHexDigit h)
  rw [Char.ofNat_toNat] at hc
  exact hc h

theorem isHexDigit_of_isDigit {c : Char} (h : c.isDigit = true) : isHexDigit c = true := by
  rw [isHexDigit, h, Bool.true_or, Bool.true_or]

/-- Digits are added up by their places, whatever their number. -/
theorem digitsValue_eq_ofDigits {base : Nat} {digits : List Char}
    (h : ∀ c ∈ digits, isHexDigit c = true) :
    digitsValue base digits = Nat.ofDigits base (digits.reverse.map digitRank) := by
  induction digits using List.reverseRecOn with
  | nil => rfl
  | append_singleton digits c ih =>
    rw [List.forall_mem_append, List.forall_mem_singleton] at h
    rw [digitsValue, List.foldl_append, List.foldl_cons, List.foldl_nil, ← digitsValue, ih h.1,
      digitValue_eq_digitRank h.2, List.reverse_append, List.reverse_singleton,
      List.singleton_append, List.map_cons, Nat.ofDigits_cons, Nat.mul_comm,
      Nat.add_comm]

namespace Numeral

/-- A literal without a point and an exponent, which has a digit. -/
def IsInteger : Numeral → Prop
  | hex _ digits => digits ≠ []
  | decimal _ fraction exponent => fraction = none ∧ exponent = none

/-- What an integer literal means. -/
def value : Numeral → Nat
  | hex _ digits => Nat.ofDigits 16 (digits.reverse.map digitRank)
  | decimal whole _ _ => Nat.ofDigits 10 (whole.reverse.map digitRank)

/-- An integer literal is a token exactly if its value fits. -/
theorem kind?_of_isInteger {numeral : Numeral} (hliteral : numeral.Literal)
    (h : numeral.IsInteger) : numeral.kind? = intKind? numeral.value := by
  cases numeral with
  | hex mark digits =>
    have hempty : ¬ digits.isEmpty = true := by simpa [IsInteger] using h
    rw [kind?, if_neg hempty, digitsValue_eq_ofDigits hliteral.2, value]
  | decimal whole fraction exponent =>
    obtain ⟨rfl, rfl⟩ := h
    rw [kind?, digitsValue_eq_ofDigits fun c hc => isHexDigit_of_isDigit (hliteral.2.1 c hc), value]

theorem isInteger_ofNat (value : Nat) : (ofNat value).IsInteger :=
  ⟨rfl, rfl⟩

theorem value_ofNat (n : Nat) : (ofNat n).value = n := by
  have hdigits := (literal_ofNat n).2.1
  rw [ofNat, value, ← digitsValue_eq_ofDigits fun c hc => isHexDigit_of_isDigit (hdigits c hc),
    digitsValue_eq_ofDigitChars hdigits, Nat.ofDigitChars_ten_toDigits]

/-- A literal without a point and an exponent. -/
def IsPlain : Numeral → Prop
  | hex _ _ => True
  | decimal _ fraction exponent => fraction = none ∧ exponent = none

theorem IsInteger.isPlain {numeral : Numeral} (h : numeral.IsInteger) : numeral.IsPlain := by
  cases numeral with
  | hex mark digits => trivial
  | decimal whole fraction exponent => exact h

/-- The text does not go on with the literal. Only a single zero goes on with a hexadecimal mark. -/
def StopsAt : Numeral → List Char → Prop
  | hex _ _, rest => ∀ c ∈ rest.head?, isHexDigit c = false
  | decimal whole _ _, rest => ∀ c ∈ rest.head?,
    c.isDigit = false ∧ c ≠ '.' ∧ c ≠ 'e' ∧ c ≠ 'E' ∧ (whole = ['0'] → c ≠ 'x' ∧ c ≠ 'X')

theorem splitFraction_of_stop {rest : List Char} (hend : ∀ c ∈ rest.head?, c ≠ '.') :
    splitFraction rest = (none, rest) := by
  fun_cases splitFraction rest with
  | case1 => exact absurd rfl (hend '.' rfl)
  | case2 => rfl

theorem splitExponent_of_stop {rest : List Char} (hend : ∀ c ∈ rest.head?, c ≠ 'e' ∧ c ≠ 'E') :
    splitExponent rest = (none, rest) := by
  fun_cases splitExponent rest with
  | case1 mark rest hmark =>
    have hmark : mark = 'e' ∨ mark = 'E' := by simpa using hmark
    exact absurd hmark (not_or.2 (hend mark rfl))
  | case2 => rfl
  | case3 => rfl

/-- A plain literal is split off as it stands. -/
theorem split_of_isPlain {numeral : Numeral} {rest : List Char} (hliteral : numeral.Literal)
    (h : numeral.IsPlain) (hend : numeral.StopsAt rest) :
    split (numeral.lexeme ++ rest) = (numeral, rest) := by
  cases numeral with
  | hex mark digits =>
    obtain ⟨hmark, hdigits⟩ := hliteral
    obtain ⟨htake, hdrop⟩ := takeWhile_append_of_stop hdigits hend
    have hmark : (mark == 'x' || mark == 'X') = true := by simpa using hmark
    rw [lexeme, List.cons_append, List.cons_append, split, if_pos hmark, htake, hdrop]
  | decimal whole fraction exponent =>
    obtain ⟨-, hwhole, -, -⟩ := hliteral
    obtain ⟨rfl, rfl⟩ := h
    obtain ⟨htake, hdrop⟩ := takeWhile_append_of_stop hwhole fun c hc => (hend c hc).1
    rw [lexeme, List.append_nil, List.append_nil]
    generalize whole ++ rest = chars at *
    have hplain : (decimal (chars.takeWhile Char.isDigit)
        (splitFraction (chars.dropWhile Char.isDigit)).1
        (splitExponent (splitFraction (chars.dropWhile Char.isDigit)).2).1,
          (splitExponent (splitFraction (chars.dropWhile Char.isDigit)).2).2) =
        (decimal whole none none, rest) := by
      rw [htake, hdrop, splitFraction_of_stop fun c hc => (hend c hc).2.1,
        splitExponent_of_stop fun c hc => ⟨(hend c hc).2.2.1, (hend c hc).2.2.2.1⟩]
    fun_cases split chars with
    | case1 mark others hmark =>
      -- the mark would be the character after a single zero
      have hletter : mark = 'x' ∨ mark = 'X' := by simpa using hmark
      have hhead : mark ∈ rest.head? ∧ whole = ['0'] := by
        rcases hletter with rfl | rfl <;> exact ⟨hdrop ▸ rfl, htake ▸ rfl⟩
      exact absurd hletter (not_or.2 ((hend mark hhead.1).2.2.2.2 hhead.2))
    | case2 => exact hplain
    | case3 => exact hplain

/-- The text does not go on with an integer literal. -/
def EndsInteger (rest : List Char) : Prop :=
  ∀ c ∈ rest.head?, isHexDigit c = false ∧ c ≠ '.' ∧ c ≠ 'x' ∧ c ≠ 'X'

theorem EndsInteger.stopsAt {rest : List Char} (h : EndsInteger rest) (numeral : Numeral) :
    numeral.StopsAt rest := by
  cases numeral with
  | hex mark digits => exact fun c hc => (h c hc).1
  | decimal whole fraction exponent =>
    intro c hc
    obtain ⟨hhex, hpoint, hmark⟩ := h c hc
    have hdigit : c.isDigit = false := Bool.eq_false_iff.2 fun hdigit =>
      Bool.false_ne_true (hhex.symm.trans (isHexDigit_of_isDigit hdigit))
    refine ⟨hdigit, hpoint, ?_, ?_, fun _ => hmark⟩
    · rintro rfl
      cases hhex
    · rintro rfl
      cases hhex

end Numeral

/-- The scan of a plain literal takes it as it stands, and fails where it is no token. -/
theorem number_of_isPlain {numeral : Numeral} {rest : List Char} {intact : Bool}
    (hliteral : numeral.Literal) (h : numeral.IsPlain) (hend : numeral.StopsAt rest)
    (hintact : rest = [] → intact = true) :
    number intact (numeral.lexeme ++ rest) =
      match numeral.kind? with
      | some kind => accept kind numeral.lexeme rest
      | none => fail (.malformedNumber (String.ofList numeral.lexeme)) numeral.lexeme rest := by
  have hpeeked : ∀ next, peeked intact numeral.lexeme rest next = next := by
    intro next
    unfold peeked
    cases rest with
    | nil => rw [hintact rfl, Bool.not_true, Bool.and_false, if_neg Bool.false_ne_true]
    | cons c rest => rfl
  unfold number
  rw [Numeral.split_of_isPlain hliteral h hend]
  exact hpeeked _

/-- The scan of an integer literal takes it as it stands, and fails where its value does not fit. -/
theorem number_of_isInteger {numeral : Numeral} {rest : List Char} (hliteral : numeral.Literal)
    (h : numeral.IsInteger) (hend : Numeral.EndsInteger rest) :
    number true (numeral.lexeme ++ rest) =
      match Numeral.intKind? numeral.value with
      | some kind => accept kind numeral.lexeme rest
      | none => fail (.malformedNumber (String.ofList numeral.lexeme)) numeral.lexeme rest := by
  rw [number_of_isPlain hliteral h.isPlain (hend.stopsAt numeral) fun _ => rfl,
    Numeral.kind?_of_isInteger hliteral h]

/-- An integer literal starts with a digit, so its scan is that of a number. -/
theorem token_of_isInteger {numeral : Numeral} (hliteral : numeral.Literal) (rest : List Char)
    (intact : Bool) : ∃ c chars, numeral.lexeme = c :: chars ∧ isBlank c = false ∧
      token intact c (chars ++ rest) = number intact (numeral.lexeme ++ rest) := by
  obtain ⟨c, chars, hlexeme, hdigit⟩ := hliteral.isDigit
  refine ⟨c, chars, hlexeme, isBlank_of_isDigit hdigit, ?_⟩
  rw [token, if_neg (Bool.eq_false_iff.1 (isWordStart_of_isDigit hdigit)), if_pos hdigit, hlexeme,
    List.cons_append]

end Scan

/-- The number that is written. -/
def signedValue (negative : Bool) (value : Nat) : Int :=
  if negative then -value else value

/-- A literal that fits does not wrap around, nor does its negative. -/
theorem toInt_signedValue {value : Nat} (h : value < 0x8000000000000000) (negative : Bool) :
    (if negative then -Int64.ofNat value else Int64.ofNat value).toInt =
      signedValue negative value := by
  have hsize : (Int64.ofNat value).toInt = value := Int64.toInt_ofNat_of_lt h
  cases negative with
  | false => exact hsize
  | true =>
    rw [if_pos rfl, Int64.toInt_neg, hsize]
    exact Int.bmod_eq_of_le (by omega) (by omega)

/-! ## The tokens of a text -/

/-- The tokens of a literal and what follows it. A literal that does not fit ends them. -/
def literalTokens (value : Nat) (rest : List TokenKind) : List TokenKind :=
  match Scan.Numeral.intKind? value with
  | some kind => kind :: rest
  | none => []

namespace Lexing

/-- Read to its end, the text has tokens of these kinds; they end early where a scan fails. -/
def Yields (text : List Char) (kinds : List TokenKind) : Prop :=
  ∀ (fuel : Nat) (lexer : Lexer) (done : List Token), lexer.lookahead = none →
    lexer.intact = true → lexer.rest = text → text.length < fuel →
    (read fuel lexer done).tokens.map Token.kind = done.reverse.map Token.kind ++ kinds

theorem Yields.nil : Yields [] [.eof] := by
  intro fuel lexer done hnone hintact hrest hfuel
  have hdrop : lexer.rest.dropWhile isBlank = [] := by
    rw [hrest]
    rfl
  have hscan := Lexer.scan_of_nil hdrop
  rw [hintact, if_pos rfl] at hscan
  cases fuel with
  | zero => exact absurd hfuel (Nat.not_lt_zero _)
  | succ fuel =>
    rw [read, Lexer.next, hnone]
    dsimp only
    rw [← Prod.eta lexer.scan, hscan]
    dsimp only
    rw [if_pos rfl, List.reverse_cons, List.map_append]
    rfl

/-- Blanks in front of a text are passed over. -/
theorem Yields.blanks {blanks text : List Char} {kinds : List TokenKind} (hblank : Blank blanks)
    (h : Yields text kinds) : Yields (blanks ++ text) kinds := by
  intro fuel lexer done hnone hintact hrest hfuel
  have htake : lexer.rest.takeWhile isBlank = blanks ++ text.takeWhile isBlank := by
    rw [hrest, List.takeWhile_append_of_pos hblank]
  have hdrop : lexer.rest.dropWhile isBlank = text.dropWhile isBlank := by
    rw [hrest, List.dropWhile_append_of_pos hblank]
  have hnext : lexer.next =
      Lexer.next { lexer with rest := text, coordinate := lexer.coordinate.after blanks } := by
    simp only [Lexer.next, hnone, Lexer.scan, htake, hdrop, Coordinate.after_append]
  have hlength : text.length < fuel := by
    rw [List.length_append] at hfuel
    omega
  have hread := h fuel { lexer with rest := text, coordinate := lexer.coordinate.after blanks } done
    hnone hintact rfl hlength
  cases fuel with
  | zero => exact absurd hfuel (Nat.not_lt_zero _)
  | succ fuel => rwa [read, ← hnext, ← read] at hread

/-- A token is scanned at the start of the text, and the rest is read. -/
theorem Yields.token {chars lexeme rest : List Char} {c : Char} {kind : TokenKind}
    {kinds : List TokenKind} (hc : isBlank c = false)
    (hscan : Scan.token true c chars = Scan.accept kind lexeme rest) (hne : kind ≠ .eof)
    (h : Yields rest kinds) : Yields (c :: chars) (kind :: kinds) := by
  intro fuel lexer done hnone hintact hrest hfuel
  have hdrop : lexer.rest.dropWhile isBlank = c :: chars := by
    rw [hrest, List.dropWhile_cons_of_neg (Bool.eq_false_iff.1 hc)]
  have hlength : rest.length ≤ chars.length := by
    have hsuffix := Scan.rest_token_suffix true c chars
    rw [hscan] at hsuffix
    exact hsuffix.length_le
  rw [← hintact] at hscan
  cases fuel with
  | zero => exact absurd hfuel (Nat.not_lt_zero _)
  | succ fuel =>
    rw [List.length_cons] at hfuel
    rw [read, Lexer.next, hnone]
    dsimp only
    rw [Lexer.scan_of_ok hdrop hscan]
    dsimp only
    rw [if_neg hne]
    have hread := h fuel
      { lexer with
        rest := rest
        coordinate := lexer.coordinate.after (lexer.rest.takeWhile isBlank ++ lexeme) }
      (⟨kind, (lexer.coordinate.after (lexer.rest.takeWhile isBlank)).position lexer.file⟩ :: done)
      hnone hintact rfl (by omega)
    rw [hread, List.reverse_cons, List.map_append, List.append_assoc]
    rfl

/-- A character that starts no other token is a token by itself. -/
theorem Yields.char {rest : List Char} {c : Char} {kinds : List TokenKind}
    (hc : isBlank c = false ∧ isWordStart c = false ∧ c.isDigit = false)
    (hother : c ∉ ['"', '\'', '/', '-']) (h : Yields rest kinds) :
    Yields (c :: rest) (.char c :: kinds) := by
  obtain ⟨hblank, hword, hdigit⟩ := hc
  simp only [List.mem_cons, List.not_mem_nil, or_false, not_or] at hother
  refine Yields.token hblank (?_ : _ = Scan.accept _ [c] rest) nofun h
  rw [Scan.token, if_neg (Bool.eq_false_iff.1 hword), if_neg (Bool.eq_false_iff.1 hdigit),
    if_neg (by simp [hother]), if_neg (by simp [hother]), if_neg (by simp [hother])]

/-- A word behind blanks ends where the text does not go on with it. -/
theorem Yields.word {blanks rest : List Char} {kinds : List TokenKind} (hblank : Blank blanks)
    (word : String) (hword : ∃ c chars, word.toList = c :: chars ∧ isWordStart c = true ∧
      ∀ d ∈ chars, isWordPart d = true)
    (hstop : ∀ c ∈ rest.head?, isWordPart c = false ∧ c ≠ ':') (h : Yields rest kinds) :
    Yields (blanks ++ (word.toList ++ rest)) (.ofWord word :: kinds) := by
  obtain ⟨c, chars, hchars, hstart, hpart⟩ := hword
  have hparts : ∀ d ∈ c :: chars, isWordPart d = true :=
    List.forall_mem_cons.2 ⟨isWordPart_of_isWordStart hstart, hpart⟩
  obtain ⟨htake, hdrop⟩ := takeWhile_append_of_stop hparts fun c hc => (hstop c hc).1
  have hne : TokenKind.ofWord word ≠ .eof := by
    rcases TokenKind.ofWord_cases word with ⟨_, h⟩ | ⟨_, h⟩ | h <;> exact h ▸ nofun
  have hscan : Scan.token true c (chars ++ rest) = Scan.accept (.ofWord word) (c :: chars) rest := by
    rw [Scan.token, if_pos hstart, Scan.word, ← List.cons_append, htake, hdrop,
      Scan.peeked_intact, ← hchars, String.ofList_toList]
    split
    · exact absurd rfl (hstop ':' rfl).2
    · rfl
  rw [hchars, List.cons_append]
  exact .blanks hblank (.token (isBlank_of_isWordStart hstart) hscan hne h)

/-- Where a scan fails there are no more tokens. -/
theorem Yields.flaw {chars lexeme rest : List Char} {c : Char} {flaw : ScanFlaw}
    (hc : isBlank c = false) (hscan : Scan.token true c chars = ⟨lexeme, rest, .error flaw⟩) :
    Yields (c :: chars) [] := by
  intro fuel lexer done hnone hintact hrest hfuel
  have hdrop : lexer.rest.dropWhile isBlank = c :: chars := by
    rw [hrest, List.dropWhile_cons_of_neg (Bool.eq_false_iff.1 hc)]
  rw [← hintact] at hscan
  have herror := Lexer.scan_of_error hdrop hscan
  cases fuel with
  | zero => exact absurd hfuel (Nat.not_lt_zero _)
  | succ fuel =>
    rw [read, Lexer.next, hnone]
    dsimp only
    rw [← Prod.eta lexer.scan, herror]
    exact (List.append_nil _).symm

/-- A literal is followed by the rest of the text, unless its value does not fit. -/
theorem Yields.literal {numeral : Scan.Numeral} {rest : List Char} {kinds : List TokenKind}
    (hliteral : numeral.Literal) (hinteger : numeral.IsInteger)
    (hend : Scan.Numeral.EndsInteger rest) (h : Yields rest kinds) :
    Yields (numeral.lexeme ++ rest) (literalTokens numeral.value kinds) := by
  obtain ⟨c, chars, hlexeme, hc, hscan⟩ := Scan.token_of_isInteger hliteral rest true
  rw [Scan.number_of_isInteger hliteral hinteger hend] at hscan
  rw [hlexeme, List.cons_append, literalTokens]
  cases hkind : Scan.Numeral.intKind? numeral.value with
  | some kind =>
    rw [hkind] at hscan
    have hne : kind ≠ .eof := by
      rcases Scan.Numeral.kind?_cases ((Scan.Numeral.kind?_of_isInteger hliteral hinteger).trans
        hkind) with ⟨_, rfl⟩ | ⟨_, rfl⟩ <;> exact nofun
    exact .token hc hscan hne h
  | none =>
    rw [hkind] at hscan
    exact .flaw hc hscan

/-- A literal may stand behind a minus sign. -/
theorem Yields.sign (negative : Prop) [Decidable negative] {numeral : Scan.Numeral} {rest : List Char}
    {kinds : List TokenKind} (hliteral : numeral.Literal) (h : Yields (numeral.lexeme ++ rest) kinds) :
    Yields ((if negative then ['-'] else []) ++ (numeral.lexeme ++ rest))
      ((if negative then [.char '-'] else []) ++ kinds) := by
  by_cases hneg : negative
  · rw [if_pos hneg, if_pos hneg]
    obtain ⟨c, chars, hlexeme, hc⟩ := hliteral.isDigit
    refine .token rfl (?_ : Scan.dash true _ = Scan.accept _ ['-'] _) nofun h
    rw [hlexeme, List.cons_append]
    generalize htext : c :: (chars ++ rest) = text
    fun_cases Scan.dash true text with
    | case1 =>
      obtain rfl := (List.cons.inj htext).1
      exact absurd hc (by decide)
    | case2 => exact Scan.peeked_intact ..
  · rw [if_neg hneg, if_neg hneg]
    exact h

/-- What a file yields are its tokens. -/
theorem Yields.kinds_ofSource {text : List Char} {kinds : List TokenKind} (h : Yields text kinds)
    (file : String) : (ofSource file ⟨text, true⟩).tokens.map Token.kind = kinds :=
  h (text.length + 2) (.ofSource file ⟨text, true⟩) [] rfl rfl rfl
    (Nat.lt_add_of_pos_right (by decide))

end Lexing

end SchemaLang
