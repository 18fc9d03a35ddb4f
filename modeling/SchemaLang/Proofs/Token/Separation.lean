import SchemaLang.Proofs.Token.Integers

/-!
# Where a text can be cut

No token goes on with an `@`, and only a comment that ends with its line takes one in. So where a text is
read to its end and such a comment does not stand last, whatever starts with an `@` can be written behind
it: the tokens of the whole are those of its two parts (`Text.Source.EndsBeforeSign.kinds_append`).
-/

namespace SchemaLang

open Text

namespace Scan

/-- A scan of a text that goes on. -/
def before (scan : Scan) (more : List Char) : Scan :=
  ⟨scan.lexeme, scan.rest ++ more, scan.result⟩

variable {kind : TokenKind} {lexeme rest : List Char}

/-! ## Scans in front of an attribute sign -/

section

variable (chars more : List Char)

theorem takeWhile_append_sign {p : Char → Bool} (hsign : p '@' = false) :
    (chars ++ '@' :: more).takeWhile p = chars.takeWhile p ∧
      (chars ++ '@' :: more).dropWhile p = chars.dropWhile p ++ '@' :: more := by
  have hneg : ¬ p '@' = true := Bool.eq_false_iff.1 hsign
  induction chars with
  | nil => exact ⟨List.takeWhile_cons_of_neg hneg, List.dropWhile_cons_of_neg hneg⟩
  | cons c chars ih =>
    rw [List.cons_append, List.takeWhile_cons, List.takeWhile_cons, List.dropWhile_cons,
      List.dropWhile_cons]
    split
    · exact ⟨by rw [ih.1], ih.2⟩
    · exact ⟨rfl, rfl⟩

theorem word_append_sign :
    word true (chars ++ '@' :: more) = (word true chars).before ('@' :: more) := by
  obtain ⟨htake, hdrop⟩ := takeWhile_append_sign chars more (p := isWordPart) rfl
  unfold word
  rw [htake, hdrop, peeked_intact, peeked_intact]
  cases chars.dropWhile isWordPart with
  | nil => cases TokenKind.ofWord _ <;> rfl
  | cons c rest =>
    rw [List.cons_append]
    by_cases hc : c = ':'
    · subst hc
      cases TokenKind.ofWord _ <;> rfl
    · cases TokenKind.ofWord _ <;> simp [hc, before, accept]

namespace Numeral

theorem splitFraction_append_sign : splitFraction (chars ++ '@' :: more) =
    ((splitFraction chars).1, (splitFraction chars).2 ++ '@' :: more) := by
  fun_cases splitFraction chars with
  | case1 rest =>
    obtain ⟨htake, hdrop⟩ := takeWhile_append_sign rest more (p := Char.isDigit) rfl
    rw [List.cons_append, splitFraction, htake, hdrop]
  | case2 => 
    cases chars with
    | nil => rfl
    | cons c rest => simp_all [splitFraction]

theorem splitSign_append_sign : splitSign (chars ++ '@' :: more) =
    ((splitSign chars).1, (splitSign chars).2 ++ '@' :: more) := by
  fun_cases splitSign chars with
  | case1 => rfl
  | case2 => rfl
  | case3 =>
    cases chars with
    | nil => rfl
    | cons c rest => simp_all [splitSign]

theorem splitExponent_append_sign : splitExponent (chars ++ '@' :: more) =
    ((splitExponent chars).1, (splitExponent chars).2 ++ '@' :: more) := by
  fun_cases splitExponent chars with
  | case1 mark rest hmark sign digits hsplit =>
    obtain ⟨htake, hdrop⟩ := takeWhile_append_sign digits more (p := Char.isDigit) rfl
    rw [List.cons_append, splitExponent, if_pos hmark, splitSign_append_sign, hsplit]
    dsimp only
    rw [htake, hdrop]
  | case2 mark rest hmark => rw [List.cons_append, splitExponent, if_neg hmark]
  | case3 => rfl

theorem split_append_sign : split (chars ++ '@' :: more) =
    ((split chars).1, (split chars).2 ++ '@' :: more) := by
  obtain ⟨htake, hdrop⟩ := takeWhile_append_sign chars more (p := Char.isDigit) rfl
  have hplain : (decimal ((chars ++ '@' :: more).takeWhile Char.isDigit)
      (splitFraction ((chars ++ '@' :: more).dropWhile Char.isDigit)).1
      (splitExponent (splitFraction ((chars ++ '@' :: more).dropWhile Char.isDigit)).2).1,
        (splitExponent (splitFraction ((chars ++ '@' :: more).dropWhile Char.isDigit)).2).2) =
      (decimal (chars.takeWhile Char.isDigit) (splitFraction (chars.dropWhile Char.isDigit)).1
        (splitExponent (splitFraction (chars.dropWhile Char.isDigit)).2).1,
          (splitExponent (splitFraction (chars.dropWhile Char.isDigit)).2).2 ++ '@' :: more) := by
    rw [htake, hdrop, splitFraction_append_sign, splitExponent_append_sign]
  fun_cases split chars with
  | case1 mark rest hmark =>
    obtain ⟨htake, hdrop⟩ := takeWhile_append_sign rest more (p := isHexDigit) rfl
    rw [List.cons_append, List.cons_append, split, if_pos hmark, htake, hdrop]
  | case2 mark rest hmark =>
    rw [List.cons_append, List.cons_append, split, if_neg hmark]
    exact hplain
  | case3 =>
    rename_i hshort
    generalize hwhole : chars ++ '@' :: more = whole at hplain ⊢
    fun_cases split whole with
    | case1 mark rest hmark =>
      -- the mark would stand behind a zero in the text already, or be the sign
      rcases chars with _ | ⟨c, _ | ⟨d, chars⟩⟩ <;> cases hwhole
      · exact absurd hmark (by decide)
      · exact absurd rfl (hshort mark chars)
    | case2 => exact hplain
    | case3 => exact hplain

end Numeral

theorem number_append_sign :
    number true (chars ++ '@' :: more) = (number true chars).before ('@' :: more) := by
  unfold number
  rw [Numeral.split_append_sign]
  dsimp only
  rw [peeked_intact, peeked_intact]
  split <;> rfl

theorem dash_append_sign :
    dash true (chars ++ '@' :: more) = (dash true chars).before ('@' :: more) := by
  fun_cases dash true chars with
  | case1 rest => rfl
  | case2 rest hrest =>
    rw [peeked_intact]
    generalize hwhole : chars ++ '@' :: more = whole
    fun_cases dash true whole with
    | case1 rest =>
      rcases chars with _ | ⟨c, chars⟩ <;> cases hwhole
      exact absurd rfl (hrest chars)
    | case2 => rw [peeked_intact, ← hwhole]; rfl

end

/-! ### Strings and comments -/

/-- A string that ends goes on with nothing. -/
theorem stringBody_append_of_ok {quote : Char} {taken value chars : List Char} (more : List Char)
    (h : (stringBody true quote taken value chars).result = .ok kind) :
    stringBody true quote taken value (chars ++ more) =
      (stringBody true quote taken value chars).before more := by
  fun_induction stringBody true quote taken value chars with
  | case1 => cases h
  | case2 => cases h
  | case3 => cases h
  | case4 => cases h
  | case5 => cases h
  | case6 taken value c hline hescape d rest hd ih =>
    rw [List.cons_append, List.cons_append, stringBody.eq_def]
    dsimp only
    rw [if_neg hline, if_pos hescape, if_pos hd, ih h]
  | case7 => cases h
  | case8 => cases h
  | case9 taken value c rest hline hescape hc =>
    rw [List.cons_append, stringBody.eq_def]
    dsimp only
    rw [if_neg hline, if_neg hescape, if_pos hc]
    rfl
  | case10 taken value c rest hline hescape hc ih =>
    rw [List.cons_append, stringBody.eq_def]
    dsimp only
    rw [if_neg hline, if_neg hescape, if_neg hc, ih h]

/-- A delimited comment that ends goes on with nothing. -/
theorem blockBody_append_of_ok {text chars : List Char} (more : List Char)
    (h : (blockBody true text chars).result = .ok kind) :
    blockBody true text (chars ++ more) = (blockBody true text chars).before more := by
  fun_induction blockBody true text chars with
  | case1 => cases h
  | case2 => cases h
  | case3 text rest => rfl
  | case4 text c rest hends ih =>
    have hends' : ∀ after, c = '*' → rest ++ more = '/' :: after → False := by
      rintro after rfl hafter
      cases rest with
      | nil => cases h
      | cons d rest => exact hends rest rfl (by rw [(List.cons.inj hafter).1])
    rw [List.cons_append, blockBody.eq_3 true text c _ hends', ih h]

/-- A comment up to the end of its line takes a sign in only if the text ends before the line does. -/
theorem lineComment_append_sign (chars : List Char) :
    (∀ more, lineComment true (chars ++ '@' :: more) = (lineComment true chars).before ('@' :: more)) ∨
      ∃ text lexeme, lineComment true (chars ++ ['@']) = accept (.comment text) lexeme [] := by
  by_cases hline : '\n' ∈ chars
  · obtain ⟨text, rest, rfl, hnot⟩ := List.eq_append_cons_of_mem hline
    refine .inl fun more => ?_
    rw [List.append_assoc, List.cons_append, lineComment_append hnot (by rintro _ ⟨⟩; rfl),
      lineComment_append hnot (by rintro _ ⟨⟩; rfl)]
    rfl
  · have hnot : '\n' ∉ chars ++ ['@'] := by simpa using hline
    have hend : EndsLine [] := nofun
    have hscan := lineComment_append hnot hend
    rw [List.append_nil] at hscan
    exact .inr ⟨_, _, hscan⟩

theorem slash_append_sign {chars : List Char} (h : (slash true chars).result = .ok kind) :
    (∀ more, slash true (chars ++ '@' :: more) = (slash true chars).before ('@' :: more)) ∨
      ∃ text lexeme, slash true (chars ++ ['@']) = accept (.comment text) lexeme [] := by
  fun_cases slash true chars with
  | case1 rest => exact lineComment_append_sign rest
  | case2 rest => exact .inl fun more => blockBody_append_of_ok _ h
  | case3 rest hline hblock =>
    refine .inl fun more => ?_
    generalize hwhole : chars ++ '@' :: more = whole
    fun_cases slash true whole with
    | case1 rest =>
      rcases chars with _ | ⟨c, chars⟩ <;> cases hwhole
      exact absurd rfl (hline chars)
    | case2 rest =>
      rcases chars with _ | ⟨c, chars⟩ <;> cases hwhole
      exact absurd rfl (hblock chars)
    | case3 => rw [peeked_intact, peeked_intact, ← hwhole]; rfl

/-- No token goes on with a sign, unless the text ends with an open comment. -/
theorem token_append_sign {c : Char} {chars : List Char} (h : (token true c chars).result = .ok kind) :
    (∀ more, token true c (chars ++ '@' :: more) = (token true c chars).before ('@' :: more)) ∨
      ∃ text lexeme, token true c (chars ++ ['@']) = accept (.comment text) lexeme [] := by
  unfold token at h ⊢
  split
  · exact .inl fun more => word_append_sign (c :: chars) more
  rename_i hword
  rw [if_neg hword] at h
  split
  · exact .inl fun more => number_append_sign (c :: chars) more
  rename_i hdigit
  rw [if_neg hdigit] at h
  split
  · rename_i hquote
    rw [if_pos hquote] at h
    exact .inl fun more => stringBody_append_of_ok _ h
  rename_i hquote
  rw [if_neg hquote] at h
  split
  · rename_i hslash
    rw [if_pos hslash] at h
    exact slash_append_sign h
  split
  · exact .inl fun more => dash_append_sign chars more
  · exact .inl fun more => rfl

theorem ne_eof_of_ok {c : Char} {chars lexeme rest : List Char} (hc : isBlank c = false)
    (h : token true c chars = ⟨lexeme, rest, .ok kind⟩) : kind ≠ .eof := by
  have htakes := takes_token true chars hc
  rw [h] at htakes
  cases htakes with
  | token _ hwritten => exact hwritten.ne_eof

end Scan

/-! ## The tokens of a text -/

namespace Lexing

/-- A text of blanks, or the blanks in front of a token and the text from there on. -/
theorem blank_or_starts (text : List Char) : Blank text ∨
    ∃ blanks c chars, text = blanks ++ c :: chars ∧ Blank blanks ∧ isBlank c = false := by
  have htext := List.takeWhile_append_dropWhile (p := isBlank) (l := text)
  have hblank : Blank (text.takeWhile isBlank) := fun _ hc => Scan.mem_takeWhile _ hc
  cases hdrop : text.dropWhile isBlank with
  | nil =>
    rw [hdrop, List.append_nil] at htext
    exact .inl (htext ▸ hblank)
  | cons c chars =>
    refine .inr ⟨_, c, chars, (hdrop ▸ htext).symm, hblank, ?_⟩
    have hhead := List.head?_dropWhile_not isBlank text
    rw [hdrop] at hhead
    simpa using hhead

/-- Every text yields tokens. -/
theorem exists_yields (text : List Char) : ∃ kinds, Yields text kinds := by
  induction hlength : text.length using Nat.strongRecOn generalizing text with
  | ind length ih =>
    rcases blank_or_starts text with hblank | ⟨blanks, c, chars, rfl, hblank, hc⟩
    · exact ⟨[.eof], by simpa using Yields.nil.blanks hblank⟩
    · have hsuffix := (Scan.rest_token_suffix true c chars).length_le
      rcases hscan : Scan.token true c chars with ⟨lexeme, rest, flaw | kind⟩
      · exact ⟨[], .blanks hblank (.flaw hc hscan)⟩
      · replace hsuffix : rest.length ≤ chars.length := by rwa [hscan] at hsuffix
        rw [List.length_append, List.length_cons] at hlength
        obtain ⟨kinds, hkinds⟩ := ih rest.length (by omega) rest rfl
        exact ⟨kind :: kinds, .blanks hblank (.token hc hscan (Scan.ne_eof_of_ok hc hscan) hkinds)⟩

end Lexing

namespace Text.Source

theorem kinds_eq_of_yields {text : List Char} {kinds : List TokenKind} (h : Lexing.Yields text kinds) :
    (⟨text, true⟩ : Source).kinds = kinds.filter TokenKind.isSignificant := by
  rw [Source.kinds, Lexing.significant, h.kinds_ofSource]

theorem kinds_blanks {blanks : List Char} (hblank : Blank blanks) (text : List Char) :
    (⟨blanks ++ text, true⟩ : Source).kinds = (⟨text, true⟩ : Source).kinds := by
  obtain ⟨kinds, h⟩ := Lexing.exists_yields text
  rw [kinds_eq_of_yields h, kinds_eq_of_yields (h.blanks hblank)]

theorem kinds_nil : (⟨[], true⟩ : Source).kinds = [.eof] :=
  kinds_eq_of_yields .nil

section

variable {c : Char} {chars lexeme rest : List Char}

/-- A scan that succeeds takes the first token. -/
theorem kinds_of_ok {kind : TokenKind} (hc : isBlank c = false)
    (hscan : Scan.token true c chars = ⟨lexeme, rest, .ok kind⟩) :
    (⟨c :: chars, true⟩ : Source).kinds =
      [kind].filter TokenKind.isSignificant ++ (⟨rest, true⟩ : Source).kinds := by
  obtain ⟨kinds, h⟩ := Lexing.exists_yields rest
  rw [kinds_eq_of_yields h, kinds_eq_of_yields (h.token hc hscan (Scan.ne_eof_of_ok hc hscan)),
    ← List.filter_append, List.singleton_append]

/-- Behind a flaw there are no tokens. -/
theorem kinds_of_error {flaw : ScanFlaw} (hc : isBlank c = false)
    (hscan : Scan.token true c chars = ⟨lexeme, rest, .error flaw⟩) :
    (⟨c :: chars, true⟩ : Source).kinds = [] :=
  kinds_eq_of_yields (.flaw hc hscan)

end

/-- The text is read to its end as these tokens, and a sign behind it is a token by itself. -/
structure EndsBeforeSign (text : List Char) (kinds : List TokenKind) : Prop where
  kinds_eq : (⟨text, true⟩ : Source).kinds = kinds ++ [.eof]
  kinds_sign : (⟨text ++ ['@'], true⟩ : Source).kinds = kinds ++ [.char '@', .eof]

namespace EndsBeforeSign

variable {kinds : List TokenKind}

theorem of_blanks {blanks text : List Char} (hblank : Blank blanks)
    (h : EndsBeforeSign (blanks ++ text) kinds) : EndsBeforeSign text kinds where
  kinds_eq := by rw [← kinds_blanks hblank, h.kinds_eq]
  kinds_sign := by rw [← kinds_blanks hblank, ← List.append_assoc, h.kinds_sign]

/-- The scan of the first token does not see the sign, and what it leaves ends before the sign too. -/
theorem tail {c : Char} {chars lexeme rest : List Char} {kind : TokenKind}
    (h : EndsBeforeSign (c :: chars) kinds) (hc : isBlank c = false)
    (hscan : Scan.token true c chars = ⟨lexeme, rest, .ok kind⟩) :
    (∀ more, Scan.token true c (chars ++ '@' :: more) = ⟨lexeme, rest ++ '@' :: more, .ok kind⟩) ∧
      ∃ kinds', kinds = [kind].filter TokenKind.isSignificant ++ kinds' ∧ EndsBeforeSign rest kinds' := by
  obtain ⟨hkinds, hsign⟩ := h
  have hok : (Scan.token true c chars).result = .ok kind := by rw [hscan]
  rw [List.cons_append] at hsign
  rcases Scan.token_append_sign hok with hmore | ⟨text, lexeme', hopen⟩
  · rw [hscan] at hmore
    refine ⟨hmore, ?_⟩
    rw [kinds_of_ok hc hscan] at hkinds
    rw [kinds_of_ok hc (hmore [])] at hsign
    -- a comment is passed over, another token is the first of the kinds
    cases hkind : kind.isSignificant with
    | false =>
      rw [List.filter_cons_of_neg (by simp [hkind]), List.filter_nil, List.nil_append] at *
      exact ⟨kinds, rfl, hkinds, hsign⟩
    | true =>
      rw [List.filter_cons_of_pos hkind, List.filter_nil, List.singleton_append] at *
      cases kinds with
      | nil => exact absurd (List.cons.inj hkinds).1 (Scan.ne_eof_of_ok hc hscan)
      | cons first kinds =>
        obtain ⟨rfl, hrest⟩ := List.cons.inj hkinds
        exact ⟨kinds, rfl, hrest, (List.cons.inj hsign).2⟩
  · -- the sign would be a part of the comment
    rw [kinds_of_ok hc hopen, kinds_nil] at hsign
    have hlengths := congrArg List.length hsign
    rw [List.length_append, List.length_append] at hlengths
    change 0 + 1 = kinds.length + 2 at hlengths
    omega

/-- The tokens of a text that goes on with a sign are those of its two parts. -/
theorem kinds_append {text : List Char} (h : EndsBeforeSign text kinds) (more : List Char) :
    (⟨text ++ '@' :: more, true⟩ : Source).kinds = kinds ++ (⟨'@' :: more, true⟩ : Source).kinds := by
  induction hlength : text.length using Nat.strongRecOn generalizing text kinds with
  | ind length ih =>
    rcases Lexing.blank_or_starts text with hblank | ⟨blanks, c, chars, rfl, hblank, hc⟩
    · have hkinds := h.kinds_eq
      rw [← List.append_nil text, kinds_blanks hblank, kinds_nil] at hkinds
      obtain rfl : kinds = [] := by simpa using congrArg List.length hkinds
      rw [kinds_blanks hblank, List.nil_append]
    · replace h := h.of_blanks hblank
      rw [List.append_assoc, kinds_blanks hblank, List.cons_append]
      have hsuffix := (Scan.rest_token_suffix true c chars).length_le
      rcases hscan : Scan.token true c chars with ⟨lexeme, rest, flaw | kind⟩
      · have hkinds := h.kinds_eq
        rw [kinds_of_error hc hscan] at hkinds
        simp at hkinds
      · replace hsuffix : rest.length ≤ chars.length := by rwa [hscan] at hsuffix
        rw [List.length_append, List.length_cons] at hlength
        obtain ⟨hmore, kinds, rfl, hrest⟩ := h.tail hc hscan
        rw [kinds_of_ok hc (hmore more), ih rest.length (by omega) hrest rfl, List.append_assoc]

end EndsBeforeSign

end Text.Source

end SchemaLang
