import SchemaLang.Proofs.Grammar.Accounting
import SchemaLang.Proofs.Session.Reachable

/-!
# The comments of scripts

Whoever answers the imports of a script, and in particular where the compiler does: when a script is
read to its end, each comment of its source is on the script or on one of its nodes, once
(`readScript_comments`). The comments of a node stand in the order of the source, and those of a node
other than the script lead up to its line without a gap, as long as the source is short enough for its
lines to be counted in 32 bits.
-/

namespace SchemaLang

open Arena Session

variable {σ : Type} {importer : Importer σ} {p script : Nat} {a b c : Arena} {host host' : σ}

/-- In a script that was just entered all comments are still to come. -/
theorem Arena.Opened.accounts {decl : Package} (h : Opened p script a b) (ha : Anchored a)
    (hp : a.kind p = .package decl) (file : String) (source : Text.Source) (host : σ) :
    Parse.Accounts (source.chars.length < UInt32.size) script
      (Feed.ofLexing (Lexing.ofSource file source)).comments
      ⟨Feed.ofLexing (Lexing.ofSource file source), [], [], b, host⟩ := by
  obtain ⟨hs, hsize⟩ := h.size_eq
  obtain ⟨name, path, position, hnode⟩ := h.script_eq
  have hnone : b.bound script = [] := by
    refine List.flatMap_eq_nil_iff.2 fun n _ => ?_
    unfold commentsIn
    split
    · rename_i howner
      rcases howner with rfl | ho
      · rw [hnode]
      · exact absurd ho (h.not_own hp ha n)
    · rfl
  have hplaces : source.chars.length < UInt32.size → _ := Feed.pairwise_places_ofSource file
  have hnext : source.chars.length < UInt32.size → _ := Feed.hasNextLine_ofSource file
  generalize Feed.ofLexing (Lexing.ofSource file source) = feed at hplaces hnext ⊢
  refine ⟨?_, h.not_own hp ha script, ?_, ?_, fun hcounted => ?_, hnext, hplaces, ?_, ?_⟩
  · show script < b.size
    omega
  · show (b.node script).comments = []
    rw [hnode]
  · show (b.bound script ++ ([] ++ feed.comments)).Perm feed.comments
    rw [hnone]
    exact .refl _
  · exact (List.pairwise_map (f := Comment.position)).1
      ((hplaces hcounted).sublist feed.positions_sublist)
  · exact fun _ n ho => absurd ho (h.not_own hp ha n)
  · exact fun _ n ho => absurd ho (h.not_own hp ha n)

/-- Reading a source into a script that was just entered into its package. -/
theorem Arena.Opened.commented (hosting : Hosting importer p) {decl : Package}
    {source : Text.Source} (h : Opened p script a b) (ha : Anchored a)
    (hp : a.kind p = .package decl) (hlisted : ∀ t ∈ decl.types.nodes, t < a.size)
    (hi : hosting.Inv b host)
    (hrun : readScript importer script source (b, host) = .ok () (c, host')) :
    ∃ tokens, (Lexing.ofSource (b.scriptFile script) source).complete = .ok tokens ∧
      Parse.Commented (source.chars.length < UInt32.size) script (tokens.filterMap Token.comment?) c := by
  obtain ⟨r, hscript, hr⟩ := of_readScript_ok hrun
  cases hr
  let feed := Feed.ofLexing (Lexing.ofSource (b.scriptFile script) source)
  let cx : ReadingContext σ :=
    ⟨script, b.scriptFile script, (b.packageName? script).getD "", feed.size + 1, importer⟩
  let hosting' : Hosting cx.importer p := hosting
  have hstands : Parse.Stands hosting' ⟨feed, [], [], b, host⟩ [] :=
    ⟨hi, h.forest hp ha (by rwa [Arena.typesOf_eq hp]), nofun⟩
  obtain ⟨hcommented, hfailure⟩ :=
    Parse.accounts_script hstands (h.accounts ha hp (b.scriptFile script) source host)
      (Lexing.spells_ofSource (b.scriptFile script) source) (Nat.lt_succ_self _) hscript
  have hsound : (Lexing.ofSource (b.scriptFile script) source).failure = none :=
    (Feed.failure_ofSource ..).symm.trans hfailure
  refine ⟨(Lexing.ofSource (b.scriptFile script) source).tokens, ?_, ?_⟩
  · rw [Lexing.complete, hsound]
  · rwa [Feed.comments_ofSource hsound] at hcommented

/-- Reading one more script of a package enters the script and reads the source into it. -/
theorem Hosting.Rests.commented {hosting : Hosting importer p} {x y : Arena × σ} {name : String}
    {path : Option Path} {source : Text.Source} (h : hosting.Rests x)
    (hrun : Compile.readFile importer p name path source x = .ok () y) :
    ∃ script b tokens, x.1.newScript p name path = (.ok script, b) ∧
      (Lexing.ofSource (b.scriptFile script) source).complete = .ok tokens ∧
      Parse.Commented (source.chars.length < UInt32.size) script (tokens.filterMap Token.comment?)
        y.1 := by
  obtain ⟨a, host⟩ := x
  obtain ⟨hi, hgathered⟩ := h
  have ha := hosting.anchored hi
  obtain ⟨decl, hp⟩ := hgathered.isPackage
  have htries := opened_newScript hp name path
  unfold Compile.readFile at hrun
  dsimp only at hrun ⊢
  cases hnew : a.newScript p name path with
  | mk result b =>
    rw [hnew] at htries
    rw [hnew] at hrun
    cases result with
    | error existing => cases hrun
    | ok script =>
      have hopened : Opened p script a b := htries
      have hlisted : ∀ t ∈ decl.types.nodes, t < a.size := by
        intro t ht
        rw [← Arena.typesOf_eq hp] at ht
        obtain ⟨s, -, ho⟩ := hgathered.types t ht
        exact ho.lt_size
      obtain ⟨tokens, htokens, hcommented⟩ := hopened.commented hosting ha hp hlisted
        (hosting.built hi (hopened.within hp ha)) hrun
      exact ⟨script, b, tokens, rfl, htokens, hcommented⟩

namespace Session.Annotated

/-- The tokens of the script as they are written. -/
def words : List (String × TokenKind) :=
  let word (name : String) := (name, TokenKind.ident name)
  let sign (c : Char) := (String.singleton c, TokenKind.char c)
  [("// first", .comment " first"), ("table", .keyword .table), word "A", sign '\x7b',
    ("// of the field", .comment " of the field"), word "f", word "A", sign ';',
    ("/* after */", .comment " after "), sign '\x7d', ("// last", .comment " last")]

@[irreducible] def bytes : ByteArray :=
  lines words

def tokens : List Token :=
  lineTokens words

theorem lexing_eq : Lexing.ofSource "a" (.ofBytes bytes) = ⟨tokens, none⟩ := by
  unfold bytes
  exact Words.lexing_lines (by decide +kernel)

def sample : Sample := ⟨bytes, tokens, lexing_eq⟩

/-- The comment of the field is on the field when the script is read. -/
theorem read_ok : ∃ x, sample.read = .ok () x ∧
    (x.1.node 4).comments.map (·.text) = [" of the field"] := by
  have h : succeedsWith (fun x => decide ((x.1.node 4).comments.map (·.text) = [" of the field"]))
      sample.read = true := by
    decide +kernel
  obtain ⟨x, hx, hcheck⟩ := succeedsWith_eq_true h
  exact ⟨x, hx, of_decide_eq_true hcheck⟩

end Session.Annotated

end SchemaLang
