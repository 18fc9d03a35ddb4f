import SchemaLang.Proofs.Grammar.ImportSites
import SchemaLang.Proofs.Token.Integers
import SchemaLang.Proofs.Token.Streaming

/-!
# Numbers from the text to the tree

An integer literal is a token with its value wherever it stands in a file, or is refused there
(`Lexing.meets_of_isPlain`). So integer tokens are not negative (`Lexing.nonneg_of_int`), and their
negatives are integers of 64 bits too.

The numbers in a tree and in the messages of a reading are those of the integer tokens and the negatives
of these, as integers: no step of the grammar wraps around (`ends_readScript`).

* `Arena.Counted`: all numbers of a tree satisfy a condition.
* `Parse.Sums`: a part of a reading keeps this so.
-/

namespace SchemaLang

open Text Scan

/-! ## Literals in a file -/

namespace Lexing

/-- Wherever the literal stands with `rest` behind it, reading gives a token of this kind and goes on
behind it, or refuses the literal. -/
def Meets (literal rest : List Char) (kind? : Option TokenKind) : Prop :=
  ∀ (lexer : Lexer) (blanks : List Char), lexer.lookahead = none →
    (rest = [] → lexer.intact = true) → Blank blanks → lexer.rest = blanks ++ (literal ++ rest) →
    ofLexer lexer =
      match kind? with
      | some kind =>
        (ofLexer { lexer with
          rest := rest
          coordinate := lexer.coordinate.after (blanks ++ literal) }).onto
          ⟨kind, (lexer.coordinate.after blanks).position lexer.file⟩
      | none =>
        ⟨[], some ⟨.malformedNumber (String.ofList literal),
          (lexer.coordinate.after blanks).position lexer.file⟩⟩

/-- A plain literal up to where the text does not go on with it. -/
theorem meets_of_isPlain {numeral : Numeral} {rest : List Char} (hliteral : numeral.Literal)
    (hplain : numeral.IsPlain) (hstop : numeral.StopsAt rest) :
    Meets numeral.lexeme rest numeral.kind? := by
  intro lexer blanks hnone hintact hblank hrest
  obtain ⟨c, chars, hlexeme, hc, hscan⟩ := token_of_isInteger hliteral rest lexer.intact
  rw [number_of_isPlain hliteral hplain hstop hintact] at hscan
  obtain ⟨htake, hdrop⟩ : lexer.rest.takeWhile isBlank = blanks ∧
      lexer.rest.dropWhile isBlank = c :: (chars ++ rest) := by
    rw [hrest, hlexeme]
    exact takeWhile_append_of_stop hblank (by rintro _ ⟨⟩; exact hc)
  have hnext := Lexer.next_of_lookahead hnone
  cases hkind : numeral.kind? with
  | some kind =>
    rw [hkind] at hscan
    have hne : kind ≠ .eof := (TokenKind.WrittenAs.number hliteral hkind).ne_eof
    rw [Lexer.scan_of_ok hdrop hscan, htake] at hnext
    exact ofLexer_of_ok hnext hne
  | none =>
    rw [hkind] at hscan
    have herror := Lexer.scan_of_error hdrop hscan
    rw [htake, ← hnext, List.append_nil] at herror
    exact ofLexer_of_error (Prod.ext herror rfl)

/-- An integer token is that of a literal, which has no sign. -/
theorem nonneg_of_int {file : String} {source : Source} {token : Token} {value : Int64}
    (htoken : token ∈ (ofSource file source).tokens) (hkind : token.kind = .int value) :
    0 ≤ value.toInt := by
  have hint : ∀ {size : Nat}, Numeral.intKind? size = some (.int value) → 0 ≤ value.toInt := by
    intro size hsize
    unfold Numeral.intKind? at hsize
    split at hsize
    · rename_i hlt
      cases hsize
      rw [Int64.toInt_ofNat_of_lt hlt]
      exact Int.natCast_nonneg _
    · cases hsize
  rcases (tiles_ofSource file source).writtenAs token htoken with heof | ⟨lexeme, hwritten⟩
  · rw [hkind] at heof
    cases heof
  rw [hkind] at hwritten
  generalize hsame : TokenKind.int value = kind at hwritten
  cases hwritten with
  | @word c rest =>
    rcases TokenKind.ofWord_cases (String.ofList (c :: rest)) with ⟨_, h⟩ | ⟨_, h⟩ | h <;>
      cases hsame.trans h
  | @number numeral _ _ hnumber =>
    subst hsame
    unfold Numeral.kind? at hnumber
    split at hnumber
    · split at hnumber
      · cases hnumber
      · exact hint hnumber
    · exact hint hnumber
    · obtain ⟨_, -, h⟩ := Option.map_eq_some_iff.1 hnumber
      cases h
  | _ => cases hsame

end Lexing

/-- The negative of a number that is not negative does not wrap around. -/
theorem toInt_neg_of_nonneg {value : Int64} (h : 0 ≤ value.toInt) :
    (-value).toInt = -value.toInt := by
  have hlt := value.toInt_lt
  rw [Int64.toInt_neg, Int.bmod_eq_of_le (by omega) (by omega)]

/-! ## The numbers of a script -/

variable {σ : Type} {S : Int → Prop}

/-- All numbers of the tree satisfy the condition. -/
def Arena.Counted (S : Int → Prop) (a : Arena) : Prop :=
  ∀ (n : NodeId) (value : Int64), (a.kind n).number? = some value → S value.toInt

/-- The number that the failure reports satisfies the condition. -/
def Diagnostic.Counted (S : Int → Prop) (failure : Diagnostic) : Prop :=
  ∀ value, failure.cause.number? = some value → S value

/-- The lexer reports no numbers. -/
theorem Cause.number?_of_lexer {cause : Cause} (h : cause.phase = .lexer) :
    cause.number? = none := by
  cases cause <;> first | rfl | cases h

/-- The condition holds of the number of the token and of its negative, which is one of 64 bits. -/
def Token.Admits (S : Int → Prop) (token : Token) : Prop :=
  ∀ value, token.kind = .int value →
    S value.toInt ∧ S (-value.toInt) ∧ (-value).toInt = -value.toInt

theorem Token.Counts.sound {value : Int64} (h : Token.Counts (Token.Admits S) value) :
    S value.toInt := by
  obtain ⟨token, hadmits, size, hkind, rfl | rfl⟩ := h
  · exact (hadmits _ hkind).1
  · obtain ⟨-, hneg, hsize⟩ := hadmits _ hkind
    rwa [hsize]

theorem Arena.Counted.reckons {a b : Arena} (h : a.Counted S)
    (hr : a.Reckons (Token.Counts (Token.Admits S)) b) : b.Counted S := fun n value hn =>
  (hr.number n value hn).elim (h n value) Token.Counts.sound

namespace Parse

variable {α β : Type} {cx : ReadingContext σ}

/-- What is known of the tokens that are left, of the failure behind them and of the tree. -/
structure Counted (S : Int → Prop) (r : Reading σ) : Prop where
  tokens : ∀ token ∈ r.feed.tokens, token.Admits S
  failure : ∀ failure, r.feed.failure = some failure → failure.Counted S
  arena : r.arena.Counted S

/-- From tokens and a tree with numbers that satisfy the condition the part goes on to such, and
reports no others. -/
def Sums (S : Int → Prop) (m : Parse σ α) : Prop :=
  ∀ r, Counted S r → Ends m r (fun _ r' => Counted S r') fun failure r' =>
    failure.Counted S ∧ r'.arena.Counted S

theorem Sums.bind {m : Parse σ α} {f : α → Parse σ β} (h : Sums S m) (hf : ∀ x, Sums S (f x)) :
    Sums S (m >>= f) :=
  fun r hr => (h r hr).bind fun x r' => hf x r'

/-- A step that leaves the feed alone. -/
theorem sums_of_arena {m : Parse σ α} (h : ∀ r, ∃ x r', m r = .ok x r' ∧ r'.feed = r.feed ∧
    r.arena.Reckons (Token.Counts (Token.Admits S)) r'.arena) : Sums S m := by
  intro r hr
  obtain ⟨x, r', hrun, hfeed, hreckons⟩ := h r
  exact .of_ok hrun ⟨hfeed ▸ hr.tokens, hfeed ▸ hr.failure, hr.arena.reckons hreckons⟩

/-- A token that is looked at is one of those that are left. -/
theorem ends_peek {r : Reading σ} (hr : Counted S r) :
    Ends peek r (fun token r' => token.Admits S ∧ Counted S r') fun failure r' =>
      failure.Counted S ∧ r'.arena.Counted S := by
  obtain ⟨feed, comments, attrs, arena, host⟩ := r
  obtain ⟨htokens, hfailure, harena⟩ := hr
  cases feed with
  | more leading token rest =>
    have htoken := htokens token List.mem_cons_self
    cases leading <;> exact ⟨htoken, htokens, hfailure, harena⟩
  | done leading position => exact ⟨nofun, htokens, nofun, harena⟩
  | broken failure => exact ⟨hfailure failure rfl, harena⟩

theorem walks_sums : Walks (Token.Admits S) (Sums (σ := σ) S) where
  pure _ _ := id
  bind := Sums.bind
  look h r hr := (ends_peek hr).bind fun token r' ⟨htoken, hr'⟩ => h token htoken r' hr'
  advance r hr := by
    obtain ⟨feed, comments, attrs, arena, host⟩ := r
    cases feed with
    | more leading token rest =>
      exact ⟨fun other hother => hr.tokens other (List.mem_cons_of_mem _ hother), hr.failure,
        hr.arena⟩
    | done leading position => exact hr
    | broken failure => exact hr
  failAt position cause _ hnumber r hr := by
    refine ⟨fun value hvalue => ?_, hr.arena⟩
    obtain ⟨size, hcounts, rfl⟩ := hnumber value hvalue
    exact hcounts.sound
  build h := sums_of_arena fun r => ⟨_, _, rfl, rfl, h r.arena⟩
  inspect _ := sums_of_arena fun _ => ⟨_, _, rfl, rfl, refl _⟩
  attachComments _ r hr := (ends_peek hr).bind fun _ r' ⟨_, hr'⟩ =>
    ⟨hr'.tokens, hr'.failure, hr'.arena.reckons (.bindComments ..)⟩
  attachAllComments _ := sums_of_arena fun _ => ⟨_, _, rfl, rfl, .bindComments ..⟩
  holdAttr _ := sums_of_arena fun _ => ⟨_, _, rfl, rfl, refl _⟩
  attachAttrs _ := sums_of_arena fun _ => ⟨_, _, rfl, rfl, .addAttrs ..⟩

/-- An import leaves the feed alone. -/
theorem sums_importPackage (h : ∀ path position x, x.1.Counted S →
      Ends (cx.importer path position) x (fun _ y => y.1.Counted S)
        fun failure y => failure.Counted S ∧ y.1.Counted S) (path : String) (position : Position) :
    Sums S (importPackage cx path position) := by
  rintro ⟨feed, comments, attrs, arena, host⟩ hr
  have hanswer := h path position (arena, host) hr.arena
  unfold Ends at hanswer ⊢
  unfold importPackage
  dsimp only
  split at hanswer
  · rename_i hrun
    rw [hrun]
    exact ⟨hr.tokens, hr.failure, hanswer⟩
  · rename_i hrun
    rw [hrun]
    exact hanswer

end Parse

/-- The numbers in the tree and in the message of a failure are those of the integer tokens of the file
and the negatives of these, as integers, where imports bring no others. -/
theorem ends_readScript {importer : Importer σ} {script : NodeId} {source : Source} {a : Arena}
    {host : σ} (htokens : ∀ token ∈ (Lexing.ofSource (a.scriptFile script) source).tokens,
      ∀ value, token.kind = .int value → S value.toInt ∧ S (-value.toInt))
    (himport : ∀ path position x, x.1.Counted S → Ends (importer path position) x
      (fun _ y => y.1.Counted S) fun failure y => failure.Counted S ∧ y.1.Counted S)
    (ha : a.Counted S) :
    Ends (readScript importer script source) (a, host) (fun _ y => y.1.Counted S)
      fun failure y => failure.Counted S ∧ y.1.Counted S := by
  have hadmits : ∀ token ∈ (Lexing.ofSource (a.scriptFile script) source).tokens,
      token.Admits S := fun token htoken value hkind =>
    have hsound := htokens token htoken value hkind
    ⟨hsound.1, hsound.2, toInt_neg_of_nonneg (Lexing.nonneg_of_int htoken hkind)⟩
  have hcounted : Parse.Counted S
      ⟨Feed.ofLexing (Lexing.ofSource (a.scriptFile script) source), [], [], a, host⟩ := by
    refine ⟨fun token htoken => ?_, fun failure hfailure => ?_, ha⟩
    · rw [Feed.tokens_ofSource] at htoken
      exact hadmits token (List.mem_of_mem_filter htoken)
    · rw [Feed.failure_ofSource] at hfailure
      intro value hvalue
      rw [Cause.number?_of_lexer (Lexing.phase_of_failure hfailure)] at hvalue
      cases hvalue
  unfold Ends readScript
  dsimp only
  generalize Feed.ofLexing _ = feed at hcounted ⊢
  generalize hcx : (⟨script, a.scriptFile script, (a.packageName? script).getD "",
    feed.size + 1, importer⟩ : ReadingContext σ) = cx
  have hanswers : ∀ path position, Parse.Sums S (Parse.importPackage cx path position) := by
    subst hcx
    exact Parse.sums_importPackage himport
  have hscript := Parse.walks_sums.script hanswers _ hcounted
  unfold Ends at hscript
  split at hscript
  · rename_i hrun
    rw [hrun]
    exact hscript.arena
  · rename_i hrun
    rw [hrun]
    exact hscript

/-- The largest integer of 64 bits. -/
def largest : Nat :=
  2 ^ 63 - 1

/-- The token of an integer literal with this value, if it fits into 64 bits. -/
def fitting? (value : Nat) : Option TokenKind :=
  if value ≤ largest then some (.int (Int64.ofNat value)) else none

theorem intKind?_eq_fitting? (value : Nat) : Numeral.intKind? value = fitting? value := by
  unfold Numeral.intKind? fitting? largest
  split
  · rw [if_pos (by omega)]
  · rw [if_neg (by omega)]

/-- An integer literal of any length, in base ten or sixteen and up to a character that does not go on
with it, denotes its value or is refused, as is a hexadecimal mark without digits. So no integer token
is negative, and its negative is an integer of 64 bits. What is read from a file has the numbers of its
tokens and their negatives, in the tree and in the messages: no sign makes a number wrap around. -/
theorem integers_exact :
    (∀ digits : List Char, digits ≠ [] → (∀ c ∈ digits, c.isDigit = true) → ∀ rest : List Char,
      (∀ c ∈ rest.head?, c.isDigit = false ∧ c ≠ '.' ∧ c ≠ 'e' ∧ c ≠ 'E' ∧
        (digits = ['0'] → c ≠ 'x' ∧ c ≠ 'X')) →
      Lexing.Meets digits rest (fitting? (Nat.ofDigits 10 (digits.reverse.map digitRank)))) ∧
    (∀ mark : Char, mark = 'x' ∨ mark = 'X' → ∀ digits : List Char,
      (∀ c ∈ digits, isHexDigit c = true) → ∀ rest : List Char,
      (∀ c ∈ rest.head?, isHexDigit c = false) →
      Lexing.Meets ('0' :: mark :: digits) rest (if digits = [] then none
        else fitting? (Nat.ofDigits 16 (digits.reverse.map digitRank)))) ∧
    (∀ value : Nat, value ≤ largest → (Int64.ofNat value).toInt = value) ∧
    (∀ (file : String) (source : Source), ∀ token ∈ (Lexing.ofSource file source).tokens,
      ∀ value, token.kind = .int value →
        0 ≤ value.toInt ∧ value.toInt ≤ largest ∧ (-value).toInt = -value.toInt) ∧
    ∀ {σ : Type} (S : Int → Prop) (importer : Importer σ) (script : NodeId) (source : Source)
      (a : Arena) (host : σ),
      (∀ token ∈ (Lexing.ofSource (a.scriptFile script) source).tokens,
        ∀ value, token.kind = .int value → S value.toInt ∧ S (-value.toInt)) →
      (∀ path position x, x.1.Counted S → Ends (importer path position) x
        (fun _ y => y.1.Counted S) fun failure y => failure.Counted S ∧ y.1.Counted S) →
      a.Counted S →
      Ends (readScript importer script source) (a, host) (fun _ y => y.1.Counted S)
        fun failure y => failure.Counted S ∧ y.1.Counted S := by
  refine ⟨fun digits hne hdigits rest hstop => ?_, fun mark hmark digits hdigits rest hstop => ?_,
    fun value hle => Int64.toInt_ofNat_of_lt ?_, fun file source token htoken value hkind => ?_,
    fun S importer script source a host => ends_readScript⟩
  · have hliteral : (Numeral.decimal digits none none).Literal :=
      ⟨List.exists_cons_of_ne_nil hne, hdigits, nofun, nofun⟩
    have hmeets := Lexing.meets_of_isPlain hliteral ⟨rfl, rfl⟩ hstop
    rw [Numeral.kind?_of_isInteger hliteral ⟨rfl, rfl⟩, intKind?_eq_fitting?, Numeral.lexeme,
      List.append_nil, List.append_nil] at hmeets
    exact hmeets
  · have hliteral : (Numeral.hex mark digits).Literal := ⟨hmark, hdigits⟩
    have hmeets := Lexing.meets_of_isPlain hliteral trivial hstop
    by_cases hempty : digits = []
    · subst hempty
      exact hmeets
    · rw [Numeral.kind?_of_isInteger hliteral hempty, intKind?_eq_fitting?] at hmeets
      rwa [if_neg hempty]
  · unfold largest at hle
    omega
  · have hnonneg := Lexing.nonneg_of_int htoken hkind
    have hlt := value.toInt_lt
    refine ⟨hnonneg, ?_, toInt_neg_of_nonneg hnonneg⟩
    unfold largest
    omega

/-- The largest integer is a token of its value, the next one is refused, and an argument keeps the
negative that is written. -/
theorem integers_exact_edges :
    (Lexing.ofSource "a" ⟨"9223372036854775807".toList, true⟩).tokens.head? =
      some ⟨.int (Int64.ofNat 9223372036854775807), ⟨"a", 1, 1⟩⟩ ∧
    (Lexing.ofSource "a" ⟨"0x8000000000000000".toList, true⟩).complete =
      .error ⟨.malformedNumber "0x8000000000000000", ⟨"a", 1, 1⟩⟩ ∧
    ∃ importer : Importer Unit,
      Ends (readScript importer 0 ⟨"@A(-7)".toList, true⟩) (Arena.empty, ())
        (fun _ y => y.1.Counted (· ∈ [7, -7]))
        fun failure y => failure.Counted (· ∈ [7, -7]) ∧ y.1.Counted (· ∈ [7, -7]) := by
  obtain ⟨hdecimal, hhex, -, -, hscript⟩ := integers_exact
  obtain ⟨importer, himporter⟩ : ∃ importer : Importer Unit, ∀ path position x,
      importer path position x = .ok 0 x := ⟨fun _ _ x => .ok 0 x, fun _ _ _ => rfl⟩
  refine ⟨?_, ?_, importer, hscript _ importer 0 _ Arena.empty () ?_
    (fun path position x hx => .of_ok (himporter path position x) hx) fun n value hn => by cases hn⟩
  · have hvalue : Nat.ofDigits 10 ("9223372036854775807".toList.reverse.map digitRank) =
        9223372036854775807 := by decide +kernel
    have hmeets := hdecimal "9223372036854775807".toList (by decide) (List.all_eq_true.1 rfl) [] nofun
      (.ofSource "a" ⟨"9223372036854775807".toList, true⟩) [] rfl (fun _ => rfl)
      (List.forall_mem_nil _) (List.append_nil _).symm
    rw [Lexing.ofSource, hmeets, hvalue, fitting?, if_pos (by decide)]
    rfl
  · have hvalue : Nat.ofDigits 16 ("8000000000000000".toList.reverse.map digitRank) =
        9223372036854775808 := by decide +kernel
    have hname : String.ofList ('0' :: 'x' :: "8000000000000000".toList) = "0x8000000000000000" := by
      decide
    have hmeets := hhex 'x' (.inl rfl) "8000000000000000".toList (List.all_eq_true.1 rfl) [] nofun
      (.ofSource "a" ⟨"0x8000000000000000".toList, true⟩) [] rfl (fun _ => rfl)
      (List.forall_mem_nil _) (by decide)
    rw [Lexing.ofSource, hmeets, if_neg (by decide), hvalue, fitting?, if_neg (by decide), hname]
    rfl
  · have hkinds : (Lexing.ofSource (Arena.empty.scriptFile 0) ⟨"@A(-7)".toList, true⟩).tokens.map
        Token.kind = [.char '@', .ident "A", .char '(', .char '-', .int 7, .char ')', .eof] := by
      decide +kernel
    intro token htoken value hkind
    have hmem := List.mem_map_of_mem (f := Token.kind) htoken
    rw [hkinds, hkind] at hmem
    obtain rfl : value = 7 := by simpa using hmem
    decide

end SchemaLang
