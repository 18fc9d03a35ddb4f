import SchemaLang.Proofs.Grammar.Lexing
import SchemaLang.Proofs.Token.Tiling

/-!
# What is left of a feed

A reading goes through a feed from the front: it looks at a token, which takes the comments before it,
and takes a token that it has looked at (`Feed.Leaves`). Whatever is left are the last comments and
places of the feed, up to the same end.

The feed of a file without lexical failure has all its comments (`Feed.comments_ofSource`). Its places
stand in reading order where the file is short enough for its lines and columns to be counted in 32 bits
(`Feed.pairwise_places_ofSource`), and then there is a line below each comment
(`Feed.hasNextLine_ofSource`).
-/

namespace SchemaLang

/-- The comment that a token is. -/
def Token.comment? (token : Token) : Option Comment :=
  match token.kind with
  | .comment text => some ⟨text, token.position⟩
  | _ => none

namespace Feed

/-- The comments of a feed. -/
def comments : Feed → List Comment
  | more leading _ rest => leading ++ rest.comments
  | done leading _ => leading
  | broken _ => []

/-- Where the comments and the tokens of a feed stand. -/
def places : Feed → List Position
  | more leading token rest => leading.map (·.position) ++ token.position :: rest.places
  | done leading _ => leading.map (·.position)
  | broken _ => []

theorem positions_sublist : ∀ feed : Feed,
    (feed.comments.map (·.position)).Sublist feed.places
  | more leading token rest => by
    rw [comments, List.map_append]
    exact (List.Sublist.refl _).append ((positions_sublist rest).cons _)
  | done leading position => .refl _
  | broken failure => .slnil

/-- The failure that a feed ends with. -/
def failure : Feed → Option Diagnostic
  | more _ _ rest => rest.failure
  | done _ _ => none
  | broken failure => some failure

/-! ## Going through a feed -/

/-- What may be left of a feed when its front was read. -/
inductive Leaves : Feed → Feed → Prop
  | refl (feed : Feed) : Leaves feed feed
  | look {feed rest : Feed} {leading : List Comment} {token : Token}
      (h : Leaves feed (more leading token rest)) : Leaves feed (more [] token rest)
  | lookEnd {feed : Feed} {leading : List Comment} {position : Position}
      (h : Leaves feed (done leading position)) : Leaves feed (done [] position)
  | take {feed rest : Feed} {token : Token} (h : Leaves feed (more [] token rest)) :
      Leaves feed rest

theorem size_more (leading : List Comment) (token : Token) (rest : Feed) :
    (more leading token rest).size = rest.size + 1 := by
  have honto : ∀ (feed : Feed) (count : Nat), feed.sizeOnto count = feed.size + count := by
    intro feed
    unfold size
    induction feed with
    | more _ _ rest ih =>
      intro count
      rw [sizeOnto, sizeOnto, ih, ih 1]
      omega
    | done => exact fun count => (Nat.zero_add count).symm
    | broken => exact fun count => (Nat.zero_add count).symm
  exact honto rest 1

namespace Leaves

variable {feed feed' feed'' : Feed}

theorem trans (h : feed.Leaves feed') (h' : feed'.Leaves feed'') : feed.Leaves feed'' := by
  induction h' with
  | refl => exact h
  | look _ ih => exact ih.look
  | lookEnd _ ih => exact ih.lookEnd
  | take _ ih => exact ih.take

theorem comments_suffix (h : feed.Leaves feed') : feed'.comments <:+ feed.comments := by
  induction h with
  | refl => exact List.suffix_rfl
  | look _ ih => exact (List.suffix_append ..).trans ih
  | lookEnd _ ih => exact List.nil_suffix.trans ih
  | take _ ih => exact ih

theorem places_suffix (h : feed.Leaves feed') : feed'.places <:+ feed.places := by
  induction h with
  | refl => exact List.suffix_rfl
  | look _ ih => exact (List.suffix_append ..).trans ih
  | lookEnd _ ih => exact List.nil_suffix.trans ih
  | take _ ih => exact (List.suffix_cons ..).trans ih

theorem failure_eq (h : feed.Leaves feed') : feed'.failure = feed.failure := by
  induction h with
  | refl => rfl
  | look _ ih => exact ih
  | lookEnd _ ih => exact ih
  | take _ ih => exact ih

theorem size_le (h : feed.Leaves feed') : feed'.size ≤ feed.size := by
  induction h with
  | refl => exact Nat.le_refl _
  | look _ ih => rwa [size_more] at *
  | lookEnd _ ih => exact ih
  | take _ ih =>
    rw [size_more] at ih
    exact Nat.le_of_succ_le ih

theorem spells {kinds : List TokenKind} (h : feed.Leaves feed') (hs : feed.Spells kinds) :
    ∃ kinds, feed'.Spells kinds := by
  induction h with
  | refl => exact ⟨kinds, hs⟩
  | look _ ih =>
    obtain ⟨_, hs'⟩ := ih
    cases hs' with
    | more hkind hne hrest => exact ⟨_, .more hkind hne hrest⟩
  | lookEnd _ ih => exact ⟨_, .done⟩
  | take _ ih =>
    obtain ⟨_, hs'⟩ := ih
    cases hs' with
    | more _ _ hrest => exact ⟨_, hrest⟩

end Leaves

/-! ## The feed of a file -/

theorem failure_precede (comment : Comment) (feed : Feed) :
    (feed.precede comment).failure = feed.failure := by
  cases feed <;> rfl

theorem failure_push {token : Token} (hne : token.kind ≠ .eof) (feed : Feed) :
    (feed.push token).failure = feed.failure := by
  unfold push
  split
  · exact failure_precede ..
  · exact absurd ‹_› hne
  · rfl

theorem comments_push {token : Token} {feed : Feed} (hne : token.kind ≠ .eof)
    (hsound : feed.failure = none) :
    (feed.push token).comments = token.comment?.toList ++ feed.comments := by
  obtain ⟨kind, position⟩ := token
  cases kind with
  | comment text =>
    cases feed with
    | broken => cases hsound
    | more => rfl
    | done => rfl
  | eof => exact absurd rfl hne
  | _ => rfl

/-- A feed stands where its tokens do. A comment before a failure is not in it, and neither is the end
of the file. -/
theorem places_push (token : Token) (feed : Feed) :
    (feed.push token).places.Sublist
      (([token].filter (·.kind ≠ .eof)).map Token.position ++ feed.places) := by
  obtain ⟨kind, position⟩ := token
  cases kind with
  | comment text =>
    cases feed with
    | broken => exact List.nil_sublist _
    | more => exact .refl _
    | done => exact .refl _
  | eof => exact List.nil_sublist _
  | _ => exact .refl _

theorem comments_push_sublist (token : Token) (feed : Feed) :
    (feed.push token).comments.Sublist ([token].filterMap Token.comment? ++ feed.comments) := by
  obtain ⟨kind, position⟩ := token
  cases kind with
  | comment text =>
    cases feed with
    | broken => exact List.nil_sublist _
    | more => exact .refl _
    | done => exact .refl _
  | eof => exact List.nil_sublist _
  | _ => exact .refl _

theorem failure_foldr {tokens : List Token} (hne : ∀ token ∈ tokens, token.kind ≠ .eof)
    (last : Feed) : (tokens.foldr push last).failure = last.failure := by
  induction tokens with
  | nil => rfl
  | cons token tokens ih =>
    rw [List.forall_mem_cons] at hne
    rw [List.foldr_cons, failure_push hne.1, ih hne.2]

theorem comments_foldr {tokens : List Token} (hne : ∀ token ∈ tokens, token.kind ≠ .eof)
    {last : Feed} (hsound : last.failure = none) :
    (tokens.foldr push last).comments = tokens.filterMap Token.comment? ++ last.comments := by
  induction tokens with
  | nil => rfl
  | cons token tokens ih =>
    rw [List.forall_mem_cons] at hne
    have hrest := (failure_foldr hne.2 last).trans hsound
    rw [List.foldr_cons, comments_push hne.1 hrest, ih hne.2]
    cases hcomment : token.comment? with
    | none => rw [List.filterMap_cons_none hcomment]; rfl
    | some comment => rw [List.filterMap_cons_some hcomment]; rfl

/-- A file whose feed has no failure has none. -/
theorem failure_ofSource (file : String) (source : Text.Source) :
    (ofLexing (Lexing.ofSource file source)).failure = (Lexing.ofSource file source).failure := by
  cases hfailure : (Lexing.ofSource file source).failure with
  | none =>
    obtain ⟨init, last, htokens, hlast, hinit⟩ := Lexing.ends file source hfailure
    unfold ofLexing
    rw [htokens, List.foldr_append, failure_foldr hinit, List.foldr_cons, push, hlast]
    rfl
  | some failure =>
    have hne := Lexing.ends_or_broken _ (.ofSource file source) [] (List.forall_mem_nil _)
      (by rw [show (Lexing.read _ _ _).failure = _ from hfailure]; exact Option.some_ne_none _)
    unfold ofLexing
    rw [hfailure]
    exact failure_foldr hne _

/-- The feed of a file without failure has the comments of the file. -/
theorem comments_ofSource {file : String} {source : Text.Source}
    (h : (Lexing.ofSource file source).failure = none) :
    (ofLexing (Lexing.ofSource file source)).comments =
      (Lexing.ofSource file source).tokens.filterMap Token.comment? := by
  obtain ⟨init, last, htokens, hlast, hinit⟩ := Lexing.ends file source h
  have hcomment : last.comment? = none := by rw [Token.comment?, hlast]
  have hend : ∀ feed, push last feed = done [] last.position := by
    intro feed
    rw [push, hlast]
  unfold ofLexing
  rw [htokens, List.foldr_append, List.foldr_cons, hend, comments_foldr hinit rfl,
    List.filterMap_append, List.filterMap_cons_none hcomment]
  rfl

/-- What a feed has of the tokens that are read into it, one after the other. -/
theorem sublist_ofLexing {α : Type} (items : Feed → List α) (ofTokens : List Token → List α)
    (happend : ∀ token tokens, ofTokens (token :: tokens) = ofTokens [token] ++ ofTokens tokens)
    (hpush : ∀ token feed, (items (push token feed)).Sublist (ofTokens [token] ++ items feed))
    (hdone : ∀ position, items (done [] position) = [])
    (hbroken : ∀ failure, items (broken failure) = []) (lexing : Lexing) :
    (items (ofLexing lexing)).Sublist (ofTokens lexing.tokens) := by
  have hlast : ∀ (tokens : List Token) (last : Feed), items last = [] →
      (items (tokens.foldr push last)).Sublist (ofTokens tokens) := by
    intro tokens last hlast
    induction tokens with
    | nil => rw [List.foldr_nil, hlast]; exact List.nil_sublist _
    | cons token tokens ih =>
      rw [List.foldr_cons, happend]
      exact (hpush token _).trans ((List.Sublist.refl _).append ih)
  unfold ofLexing
  refine hlast _ _ ?_
  cases lexing.failure with
  | none => exact hdone _
  | some failure => exact hbroken failure

/-- A comment takes at least the two characters that mark it. -/
theorem two_le_of_comment {text : String} {lexeme : List Char}
    (h : (TokenKind.comment text).WrittenAs lexeme) : 2 ≤ lexeme.length := by
  generalize hkind : TokenKind.comment text = kind at h
  cases h with
  | @word c rest =>
    rcases TokenKind.ofWord_cases (String.ofList (c :: rest)) with ⟨_, h⟩ | ⟨_, h⟩ | h <;>
      cases hkind.trans h
  | number _ hliteral =>
    rcases Scan.Numeral.kind?_cases hliteral with ⟨_, rfl⟩ | ⟨_, rfl⟩ <;> cases hkind
  | lineComment => exact Nat.le_add_left ..
  | blockComment => exact Nat.le_add_left ..
  | _ => cases hkind

/-- The comments and tokens of the feed of a file stand one after the other. -/
theorem pairwise_places_ofSource (file : String) {source : Text.Source}
    (hlength : source.chars.length < UInt32.size) :
    (ofLexing (Lexing.ofSource file source)).places.Pairwise Position.Precedes := by
  have htiles := (Lexing.tiles_ofSource file source).pairwise_stands
  refine List.Pairwise.sublist (sublist_ofLexing places
    (fun tokens => (tokens.filter (·.kind ≠ .eof)).map Token.position) (fun token tokens => ?_)
    places_push (fun _ => rfl) (fun _ => rfl) _) (List.pairwise_map.2 ?_)
  · rw [← List.singleton_append, List.filter_append, List.map_append]
  refine (htiles.filter _).imp_of_mem fun _ hlater h => ?_
  obtain ⟨taken, more, lexeme, hmore, hform, hp, hq, hkind⟩ := h
  have hwritten := hkind.resolve_left (by simpa using (List.mem_filter.1 hlater).2)
  obtain ⟨c, others, rfl, -⟩ := hwritten.starts
  have hbound := hform.length_le
  simp only [List.length_append, List.length_cons] at hbound
  exact (hp.marks (by rw [List.nil_append]; omega)).precedes
    (hq.marks (by rw [List.nil_append, List.length_append]; omega)) hmore

/-- There is a line below each comment of the feed of a file. -/
theorem hasNextLine_ofSource (file : String) {source : Text.Source}
    (hlength : source.chars.length < UInt32.size) :
    ∀ c ∈ (ofLexing (Lexing.ofSource file source)).comments,
      c.position.line.toNat + 1 < UInt32.size := by
  intro c hc
  have hsublist := sublist_ofLexing comments (List.filterMap Token.comment?)
    (fun token tokens => by rw [← List.singleton_append, List.filterMap_append])
    comments_push_sublist (fun _ => rfl) (fun _ => rfl) (Lexing.ofSource file source)
  obtain ⟨token, htoken, hcomment⟩ := List.mem_filterMap.1 (hsublist.mem hc)
  obtain ⟨taken, lexeme, hform, hplace, hkind⟩ :=
    (Lexing.tiles_ofSource file source).stands token htoken
  obtain ⟨kind, position⟩ := token
  cases kind with
  | comment text =>
    cases hcomment
    have htwo := two_le_of_comment (hkind.resolve_left nofun)
    have hbound := hform.length_le
    rw [List.length_append] at hbound
    have hmarks := hplace.marks (by rw [List.nil_append]; omega)
    have hcount : taken.count '\n' ≤ taken.length := List.count_le_length
    dsimp only at hmarks ⊢
    rw [hmarks.line_eq, List.nil_append]
    omega
  | _ => cases hcomment

end Feed

end SchemaLang
