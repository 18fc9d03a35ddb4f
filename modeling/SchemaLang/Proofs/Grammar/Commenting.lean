import SchemaLang.Proofs.Arena.Comments
import SchemaLang.Proofs.Grammar.Claiming
import SchemaLang.Proofs.Grammar.Feeding
import SchemaLang.Proofs.Grammar.Reading

/-!
# Where comments go during a reading

Each comment of a script is in one of three places: it is bound to a node, it waits, or it is still to
come (`Parse.Accounts`). The parts of a reading move comments from one place to the next and neither
lose nor reorder them (`Parse.Carries`): looking at a token makes comments wait, and a node that claims
comments takes them from those that wait.

A node claims once (`Parse.carries_attachComments`), and a method a second time when its slots are read
(`Parse.carries_attachComments_again`). In between the comments that it did not claim stay where they
are, or go to its slots, so that what it claims then goes on with what it has.

No comment is lost, whatever the positions are. That the comments of a node stand in order, in a block
above it, is kept account of under the condition `counted`: that the lines and columns of the script are
counted without wrapping around.
-/

namespace SchemaLang.Parse

open Arena

variable {σ α β : Type} {counted : Prop} {s : NodeId} {mark n : Nat} {all : List Comment}
  {r r' r'' : Reading σ}

/-- The comments that no node has claimed: those that wait, and those still to come. -/
def unclaimed (r : Reading σ) : List Comment :=
  r.comments ++ r.feed.comments

/-- All comments of a script are bound to its nodes or unclaimed. Where positions are counted, those of
a node stand in order, in a block above it. The script itself has none before the end. -/
structure Accounts (counted : Prop) (script : NodeId) (all : List Comment) (r : Reading σ) : Prop where
  script_lt : script < r.arena.size
  root : ¬ r.arena.Own script script
  bare : (r.arena.node script).comments = []
  perm : (r.arena.bound script ++ unclaimed r).Perm all
  sorted : counted → (unclaimed r).Pairwise Comment.Precedes
  nextLine : counted → ∀ c ∈ unclaimed r, c.HasNextLine
  places : counted → r.feed.places.Pairwise Position.Precedes
  ordered : counted → ∀ n : Nat, r.arena.Own script n →
    (r.arena.node n).comments.Pairwise Comment.Precedes
  block : counted → ∀ n : Nat, r.arena.Own script n →
    Block (r.arena.position n).line (r.arena.node n).comments

/-- A part of a reading goes from one state to another. It goes on in the feed, takes from the
unclaimed comments, and keeps account of all. The comments of the nodes below `mark` stay as they
are. -/
structure Carries (counted : Prop) (script : NodeId) (mark : Nat) (r r' : Reading σ) : Prop where
  size_le : r.arena.size ≤ r'.arena.size
  script_eq : ∀ n : Nat, n < r.arena.size → (r'.arena.node n).script = (r.arena.node n).script
  position_eq : ∀ n : Nat, n < r.arena.size → r'.arena.position n = r.arena.position n
  fixed : ∀ n : Nat, n < mark → n < r.arena.size →
    (r'.arena.node n).comments = (r.arena.node n).comments
  leaves : r.feed.Leaves r'.feed
  unclaimed : (unclaimed r').Sublist (unclaimed r)
  accounts : ∀ all, Accounts counted script all r → Accounts counted script all r'

instance : IsPreorder (Reading σ) (Carries counted s mark) where
  refl _ := ⟨Nat.le_refl _, fun _ _ => rfl, fun _ _ => rfl, fun _ _ _ => rfl, .refl _, .refl _,
    fun _ => id⟩
  trans _ _ _ h h' := {
    size_le := Nat.le_trans h.size_le h'.size_le
    script_eq := fun n hn =>
      (h'.script_eq n (Nat.lt_of_lt_of_le hn h.size_le)).trans (h.script_eq n hn)
    position_eq := fun n hn =>
      (h'.position_eq n (Nat.lt_of_lt_of_le hn h.size_le)).trans (h.position_eq n hn)
    fixed := fun n hm hn =>
      (h'.fixed n hm (Nat.lt_of_lt_of_le hn h.size_le)).trans (h.fixed n hm hn)
    leaves := h.leaves.trans h'.leaves
    unclaimed := h'.unclaimed.trans h.unclaimed
    accounts := fun all ha => h'.accounts all (h.accounts all ha) }

namespace Carries

theorem mono {mark' : Nat} (h : Carries counted s mark' r r') (hm : mark ≤ mark') :
    Carries counted s mark r r' :=
  { h with fixed := fun n hn => h.fixed n (Nat.lt_of_lt_of_le hn hm) }

theorem own (h : Carries counted s mark r r') (ho : r.arena.Own s n) : r'.arena.Own s n :=
  (h.script_eq n ho.lt_size).trans ho

/-- Going on in the feed, with all comments that come before what is left. -/
theorem of_feed {feed : Feed} {comments : List Comment} (hleaves : r.feed.Leaves feed)
    (hcomments : comments ++ feed.comments = Parse.unclaimed r) :
    Carries counted s mark r (retake r feed comments) where
  size_le := Nat.le_refl _
  script_eq _ _ := rfl
  position_eq _ _ := rfl
  fixed _ _ _ := rfl
  leaves := hleaves
  unclaimed := by
    rw [show Parse.unclaimed (retake r feed comments) = _ from hcomments]
  accounts all ha :=
    have hsame : Parse.unclaimed (retake r feed comments) = Parse.unclaimed r := hcomments
    { script_lt := ha.script_lt
      root := ha.root
      bare := ha.bare
      perm := by rw [hsame]; exact ha.perm
      sorted := by rw [hsame]; exact ha.sorted
      nextLine := by rw [hsame]; exact ha.nextLine
      places := fun hc => (ha.places hc).sublist hleaves.places_suffix.sublist
      ordered := ha.ordered
      block := ha.block }

/-- Building binds no comments. -/
theorem of_adds {b : Arena} (h : r.arena.Adds s b) (attrs : List NodeId) (host : σ) :
    Carries counted s mark r ⟨r.feed, r.comments, attrs, b, host⟩ where
  size_le := h.size_le
  script_eq := h.script_eq
  position_eq := h.position_eq
  fixed n _ hn := h.comments_eq n hn
  leaves := .refl _
  unclaimed := .refl _
  accounts all ha := by
    have hold : ∀ n : Nat, n < r.arena.size → b.Own s n → r.arena.Own s n :=
      fun n hn ho => (h.script_eq n hn).symm.trans ho
    refine ⟨Nat.lt_of_lt_of_le ha.script_lt h.size_le, fun ho => ha.root (hold s ha.script_lt ho),
      (h.comments_eq s ha.script_lt).trans ha.bare, ?_, ha.sorted, ha.nextLine, ha.places, ?_, ?_⟩
    · have hbound := bound_of_adds h ha.script_lt
      dsimp only
      rw [hbound]
      exact ha.perm
    · intro hc n ho
      rcases Nat.lt_or_ge n r.arena.size with hlt | hge
      · dsimp only
        rw [h.comments_eq n hlt]
        exact ha.ordered hc n (hold n hlt ho)
      · dsimp only
        rw [h.bare n hge ho]
        exact .nil
    · intro hc n ho
      rcases Nat.lt_or_ge n r.arena.size with hlt | hge
      · dsimp only
        rw [h.comments_eq n hlt, h.position_eq n hlt]
        exact ha.block hc n (hold n hlt ho)
      · dsimp only
        rw [h.bare n hge ho]
        exact block_nil _

/-- A node claims comments that go on with those it has. -/
theorem of_claim {node : Nat} (hn : r.arena.Own s node) (hm : mark ≤ node)
    (hfits : ∀ all, Accounts counted s all r → counted →
      ((r.arena.node node).comments ++ (claim (r.arena.position node).line r.comments).1).Pairwise
        Comment.Precedes ∧
      Block (r.arena.position node).line
        ((r.arena.node node).comments ++ (claim (r.arena.position node).line r.comments).1)) :
    Carries counted s mark r ⟨r.feed, (claim (r.arena.position node).line r.comments).2, r.attrs,
      r.arena.bindComments node (claim (r.arena.position node).line r.comments).1, r.host⟩ := by
  generalize hclaim : claim (r.arena.position node).line r.comments = result at hfits ⊢
  have hleft : result.2.Sublist r.comments := hclaim ▸ left_sublist
  have hperm : (result.1 ++ result.2).Perm r.comments := hclaim ▸ claim_perm
  have hnode : ∀ n : Nat, (r.arena.bindComments node result.1).node n = if n = node then
      { r.arena.node n with comments := (r.arena.node n).comments ++ result.1 }
      else r.arena.node n := by
    intro n
    unfold bindComments
    split
    · rename_i heq
      subst heq
      exact node_update_self hn.lt_size _
    · exact node_update_ne ‹_› _
  have hscript : ∀ n : Nat, ((r.arena.bindComments node result.1).node n).script =
      (r.arena.node n).script := by
    intro n
    rw [hnode]
    split <;> rfl
  have hposition : ∀ n : Nat, (r.arena.bindComments node result.1).position n =
      r.arena.position n := by
    intro n
    rw [Arena.position, hnode, Arena.position]
    split <;> rfl
  have hsize : (r.arena.bindComments node result.1).size = r.arena.size := size_update ..
  refine ⟨Nat.le_of_eq hsize.symm, fun n _ => hscript n, fun n _ => hposition n, fun n hlt _ => ?_,
    .refl _, hleft.append (.refl _), fun all ha => ?_⟩
  · dsimp only
    rw [hnode, if_neg (by omega)]
  · have hne : s ≠ node := by
      rintro rfl
      exact ha.root hn
    refine ⟨Nat.lt_of_lt_of_eq ha.script_lt hsize.symm, ?_, ?_, ?_, ?_, ?_, ha.places, ?_, ?_⟩
    · exact fun ho => ha.root ((hscript s).symm.trans ho)
    · dsimp only
      rw [hnode, if_neg hne]
      exact ha.bare
    · have hbound := bound_bindComments_perm (.inr hn) hn.lt_size result.1
      refine ((hbound.append_right _).trans ?_).trans ha.perm
      unfold Parse.unclaimed
      rw [List.append_assoc, ← List.append_assoc result.1]
      exact (hperm.append_right _).append_left _
    · exact fun hc => (ha.sorted hc).sublist (hleft.append (.refl _))
    · exact fun hc c hmem => ha.nextLine hc c ((hleft.append (.refl _)).mem hmem)
    · intro hc n ho
      have ho' : r.arena.Own s n := (hscript n).symm.trans ho
      dsimp only
      rw [hnode]
      split
      · rename_i heq
        exact heq ▸ (hfits all ha hc).1
      · exact ha.ordered hc n ho'
    · intro hc n ho
      have ho' : r.arena.Own s n := (hscript n).symm.trans ho
      dsimp only
      rw [hnode, hposition]
      split
      · rename_i heq
        exact heq ▸ (hfits all ha hc).2
      · exact ha.block hc n ho'

end Carries

/-! ## Looking at tokens -/

/-- The token is next in the feed, and the comments before it wait already. -/
inductive Shows : Token → Feed → Prop
  | more {token : Token} {rest : Feed} : Shows token (.more [] token rest)
  | done {position : Position} : Shows ⟨.eof, position⟩ (.done [] position)

/-- The token was taken, or the feed is at its end. -/
def Took (token : Token) (feed feed' : Feed) : Prop :=
  (∃ leading, feed.Leaves (.more leading token feed')) ∨
    ∃ position, token = ⟨.eof, position⟩ ∧ feed' = .done [] position

theorem carries_peek : Leads (Carries counted s mark) (peek : Parse σ Token) r fun token r' =>
    r'.arena = r.arena ∧ Shows token r'.feed := by
  obtain ⟨feed, comments, attrs, arena, host⟩ := r
  cases feed with
  | more leading token rest =>
    have hcarries : Carries counted s mark ⟨.more leading token rest, comments, attrs, arena, host⟩
        ⟨.more [] token rest, comments ++ leading, attrs, arena, host⟩ :=
      .of_feed (r := ⟨_, _, _, _, _⟩) (.look (.refl _)) (List.append_assoc ..)
    cases leading with
    | nil => exact .of_ok rfl (refl _) ⟨rfl, .more⟩
    | cons comment others => exact .of_ok rfl hcarries ⟨rfl, .more⟩
  | done leading position =>
    exact .of_ok rfl (.of_feed (r := ⟨_, _, _, _, _⟩) (.lookEnd (.refl _))
      (List.append_nil _)) ⟨rfl, .done⟩
  | broken failure => exact .of_error rfl (refl _)

theorem carries_advance {token : Token} (h : Shows token r.feed) :
    Leads (Carries counted s mark) (advance : Parse σ Unit) r fun _ r' =>
      r'.arena = r.arena ∧ Took token r.feed r'.feed := by
  obtain ⟨feed, comments, attrs, arena, host⟩ := r
  cases h with
  | @more token rest =>
    exact .of_ok rfl (.of_feed (r := ⟨_, _, _, _, _⟩) (.take (.refl _)) rfl)
      ⟨rfl, .inl ⟨[], .refl _⟩⟩
  | @done position => exact .of_ok rfl (refl _) ⟨rfl, .inr ⟨position, rfl, rfl⟩⟩

theorem carries_next : Leads (Carries counted s mark) (next : Parse σ Token) r fun token r' =>
    r'.arena = r.arena ∧ Took token r.feed r'.feed := by
  refine carries_peek.bind fun token r₁ hr₁ ⟨harena₁, hshows⟩ => ?_
  refine (carries_advance hshows).bind fun _ r₂ _ ⟨harena₂, htook⟩ => Leads.pure ?_
  refine ⟨harena₂.trans harena₁, ?_⟩
  rcases htook with ⟨leading, hleaves⟩ | hend
  · exact .inl ⟨leading, hr₁.leaves.trans hleaves⟩
  · exact .inr hend

/-- The comments still to come do not stand above a token that was taken. -/
theorem Took.line_le {token : Token} {feed feed' : Feed} (h : Took token feed feed')
    (hplaces : feed.places.Pairwise Position.Precedes) :
    ∀ c ∈ feed'.comments, token.position.line.toNat ≤ c.position.line.toNat := by
  rcases h with ⟨leading, hleaves⟩ | ⟨position, rfl, rfl⟩
  · intro c hc
    have hrest := List.pairwise_append.1 (hplaces.sublist hleaves.places_suffix.sublist)
    exact ((List.pairwise_cons.1 hrest.2.1).1 c.position
      ((Feed.positions_sublist feed').mem (List.mem_map_of_mem hc))).line_le
  · exact List.forall_mem_nil _

/-- A token that was taken is gone. -/
theorem Took.size_lt {token : Token} {feed feed' : Feed} (h : Took token feed feed')
    (hne : token.kind ≠ .eof) : feed'.size < feed.size := by
  rcases h with ⟨leading, hleaves⟩ | ⟨position, rfl, -⟩
  · have hle := hleaves.size_le
    rw [Feed.size_more] at hle
    omega
  · exact absurd rfl hne

/-- The end of a file is not taken. -/
theorem Took.ended {token : Token} {feed feed' : Feed} {kinds : List TokenKind}
    (h : Took token feed feed') (hs : feed.Spells kinds) (heof : token.kind = .eof) :
    ∃ position, feed' = .done [] position := by
  rcases h with ⟨leading, hleaves⟩ | ⟨position, -, rfl⟩
  · obtain ⟨_, hspells⟩ := hleaves.spells hs
    cases hspells with
    | more hkind hne _ => exact absurd (hkind.symm.trans heof) hne
  · exact ⟨position, rfl⟩

/-- The part changes the feed and the waiting comments only, and keeps account of all comments. -/
def Passes (m : Parse σ α) : Prop :=
  ∀ (counted : Prop) (s : NodeId) (mark : Nat) (r : Reading σ),
    Leads (Carries counted s mark) m r fun _ r' => r'.arena = r.arena

namespace Passes

theorem pure (x : α) : Passes (Pure.pure x : Parse σ α) :=
  fun _ _ _ _ => Leads.pure rfl

theorem bind {m : Parse σ α} {f : α → Parse σ β} (h : Passes m) (hf : ∀ x, Passes (f x)) :
    Passes (m >>= f) :=
  fun counted s mark r => (h counted s mark r).bind fun x r' _ harena =>
    (hf x counted s mark r').mono fun _ _ _ harena' => harena'.trans harena

end Passes

theorem passes_failAt (position : Position) (cause : Cause) :
    Passes (failAt position cause : Parse σ α) :=
  fun _ _ _ _ => Leads.throw

theorem passes_unexpected (token : Token) (expected : String) :
    Passes (unexpected token expected : Parse σ α) :=
  passes_failAt _ _

theorem passes_inspect (query : Arena → α) : Passes (inspect query : Parse σ α) :=
  fun _ _ _ _ => .of_ok rfl (refl _) rfl

theorem passes_peek : Passes (peek : Parse σ Token) :=
  fun _ _ _ _ => carries_peek.mono fun _ _ _ h => h.1

theorem passes_next : Passes (next : Parse σ Token) :=
  fun _ _ _ _ => carries_next.mono fun _ _ _ h => h.1

theorem carries_nextIs (c : Char) : Leads (Carries counted s mark) (nextIs c : Parse σ Bool) r
    fun _ r' => r'.arena = r.arena ∧ ∃ token, Shows token r'.feed :=
  carries_peek.bind fun token _ _ h => Leads.pure ⟨h.1, token, h.2⟩

theorem passes_nextIs (c : Char) : Passes (nextIs c : Parse σ Bool) :=
  fun _ _ _ _ => (carries_nextIs c).mono fun _ _ _ h => h.1

theorem passes_matchChar (c : Char) : Passes (matchChar c : Parse σ Bool) := by
  intro counted s mark r
  refine (carries_nextIs c).bind fun found r₁ _ ⟨harena₁, token, hshows⟩ => ?_
  split
  · exact (carries_advance hshows).bind fun _ r₂ _ ⟨harena₂, _⟩ =>
      Leads.pure (harena₂.trans harena₁)
  · exact Leads.pure harena₁

theorem passes_expectChar (c : Char) : Passes (expectChar c : Parse σ Unit) := by
  refine passes_next.bind fun token => ?_
  split
  · exact .pure _
  · exact passes_unexpected _ _

theorem passes_expectString (what : String) :
    Passes (expectString what : Parse σ (String × Position)) := by
  refine passes_next.bind fun token => ?_
  split
  · exact .pure _
  · exact passes_unexpected _ _

theorem passes_expectIdent (what : String) :
    Passes (expectIdent what : Parse σ (String × Position)) := by
  refine passes_next.bind fun token => ?_
  split
  · exact .pure _
  · exact passes_unexpected _ _

theorem carries_expectIdent {what : String} :
    Leads (Carries counted s mark) (expectIdent what : Parse σ (String × Position)) r fun ident r' =>
      r'.arena = r.arena ∧ (r.feed.places.Pairwise Position.Precedes →
        ∀ c ∈ r'.feed.comments, ident.2.line.toNat ≤ c.position.line.toNat) := by
  refine carries_next.bind fun token r₁ _ ⟨harena, htook⟩ => ?_
  split
  · exact Leads.pure ⟨harena, htook.line_le⟩
  · exact Leads.throw

theorem passes_nextIsIdent : Passes (nextIsIdent : Parse σ Bool) := by
  refine passes_peek.bind fun token => ?_
  split
  · exact .pure _
  · exact .pure _

theorem passes_pathTail : ∀ (fuel : Nat) (path : List String),
    Passes (pathTail fuel path : Parse σ (List String))
  | 0, path => .pure path
  | fuel + 1, path => by
    refine (passes_matchChar '.').bind fun found => ?_
    split
    · exact (passes_expectIdent _).bind fun name => passes_pathTail fuel _
    · exact .pure _

theorem passes_enumBase : Passes (enumBase : Parse σ EnumBase) := by
  refine (passes_matchChar '(').bind fun found => ?_
  split
  · refine passes_next.bind fun token => ?_
    dsimp only
    split
    · exact (passes_expectChar ')').bind fun _ => .pure _
    · exact passes_unexpected _ _
  · exact .pure _

theorem passes_arrayLength : Passes (arrayLength : Parse σ (Option UInt16)) := by
  intro counted s mark r
  refine carries_peek.bind fun literal r₁ _ ⟨harena₁, hshows⟩ => ?_
  split
  · refine (carries_advance hshows).bind fun _ r₂ _ ⟨harena₂, _⟩ => ?_
    split
    · exact Leads.pure (harena₂.trans harena₁)
    · exact Leads.throw
  · exact Leads.pure harena₁

/-! ## Building -/

/-- The part binds no comments. -/
def Steady (m : Parse σ α) : Prop :=
  ∀ (counted : Prop) (s : NodeId) (mark : Nat) (r : Reading σ),
    Leads (Carries counted s mark) m r fun _ _ => True

theorem Passes.steady {m : Parse σ α} (h : Passes m) : Steady m :=
  fun counted s mark r => (h counted s mark r).mono fun _ _ _ _ => trivial

theorem Steady.bind {m : Parse σ α} {f : α → Parse σ β} (h : Steady m) (hf : ∀ x, Steady (f x)) :
    Steady (m >>= f) :=
  fun counted s mark r => (h counted s mark r).bind fun x r' _ _ => hf x counted s mark r'

theorem steady_build {operation : Arena → α × Arena}
    (h : ∀ (s : NodeId) (a : Arena), a.Adds s (operation a).2) :
    Steady (build operation : Parse σ α) :=
  fun _ s _ r => .of_ok (build_eq operation r) (.of_adds (h s r.arena) ..) trivial

theorem steady_attachAttrs (node : NodeId) : Steady (attachAttrs node : Parse σ Unit) :=
  fun _ s _ r => .of_ok rfl (.of_adds (.addAttrs s node r.attrs r.arena) ..) trivial

theorem steady_holdAttr (attr : NodeId) : Steady (holdAttr attr : Parse σ Unit) :=
  fun _ s _ r => .of_ok rfl (.of_adds (.refl s r.arena) ..) trivial

/-- A node of the script that has no comments yet. -/
structure New (script : NodeId) (mark n : Nat) (r : Reading σ) : Prop where
  own : r.arena.Own script n
  mark_le : mark ≤ n
  bare : (r.arena.node n).comments = []

theorem New.keep (h : New s mark n r) (hr : Carries counted s (n + 1) r r') : New s mark n r' where
  own := hr.own h.own
  mark_le := h.mark_le
  bare := (hr.fixed n (Nat.lt_succ_self n) h.own.lt_size).trans h.bare

/-- A part that binds no comments to a node. -/
theorem New.leads {m : Parse σ α} {Q : α → Reading σ → Prop} (h : New s mark n r)
    (hm : Leads (Carries counted s (n + 1)) m r Q) :
    Leads (Carries counted s mark) m r fun x r' => Q x r' ∧ New s mark n r' :=
  (hm.mono fun _ _ hr hq => ⟨hq, h.keep hr⟩).weaken fun _ hr =>
    hr.mono (Nat.le_succ_of_le h.mark_le)

theorem New.steady {m : Parse σ α} (h : New s mark n r) (hm : Steady m) :
    Leads (Carries counted s mark) m r fun _ r' => New s mark n r' :=
  (h.leads (hm counted s (n + 1) r)).mono fun _ _ _ h' => h'.2

/-- An operation that makes a node. -/
theorem carries_new (operation : Arena → NodeId × Arena) (hm : mark ≤ r.arena.size)
    (h : r.arena.Adds s (operation r.arena).2) (hid : (operation r.arena).1 = r.arena.size)
    (ho : (operation r.arena).2.Own s r.arena.size) :
    Leads (Carries counted s mark) (build operation) r (New s mark) :=
  .of_ok (build_eq operation r) (.of_adds h ..)
    ⟨hid ▸ ho, hid ▸ hm, hid ▸ h.bare _ (Nat.le_refl _) ho⟩

/-- An operation with a rule of uniqueness. -/
theorem carries_buildUnique {what : Duplicate} {name : String} {position : Position}
    (operation : Arena → Except NodeId α × Arena) (h : r.arena.Adds s (operation r.arena).2) :
    Leads (Carries counted s mark) (buildUnique what name position operation : Parse σ α) r fun x r' =>
      (operation r.arena).1 = .ok x ∧ r' = rebuild r (operation r.arena).2 := by
  cases hresult : (operation r.arena).1 with
  | ok x =>
    have hbuild := build_eq operation r
    rw [hresult] at hbuild
    exact .of_ok (bind_ok hbuild) (.of_adds h ..) ⟨rfl, rfl⟩
  | error existing =>
    have hbuild := build_eq operation r
    rw [hresult] at hbuild
    exact .of_error (bind_ok hbuild) (.of_adds h ..)

/-- An operation that makes a node if its name is not taken. -/
theorem carries_newUnique {what : Duplicate} {name : String} {position : Position}
    (operation : Arena → Except NodeId NodeId × Arena) (hm : mark ≤ r.arena.size)
    (h : r.arena.Adds s (operation r.arena).2)
    (hid : ∀ x, (operation r.arena).1 = .ok x →
      x = r.arena.size ∧ (operation r.arena).2.Own s r.arena.size) :
    Leads (Carries counted s mark) (buildUnique what name position operation : Parse σ NodeId) r
      (New s mark) := by
  refine (carries_buildUnique operation h).mono fun x r' _ ⟨hx, hr'⟩ => ?_
  obtain ⟨rfl, ho⟩ := hid x hx
  exact hr' ▸ ⟨ho, hm, h.bare _ (Nat.le_refl _) ho⟩

/-! ## Claiming -/

/-- A node that has claimed. Where positions are counted, no comment on the line above it is left, and
those on its own line come after those it has. -/
structure Rests (counted : Prop) (script : NodeId) (n : Nat) (r : Reading σ) : Prop where
  own : r.arena.Own script n
  above : counted → ∀ c ∈ unclaimed r, c.position.line + 1 ≠ (r.arena.position n).line
  after : counted → ∀ c ∈ unclaimed r, c.position.line = (r.arena.position n).line →
    ∀ d ∈ (r.arena.node n).comments, d.Precedes c

theorem Rests.keep (h : Rests counted s n r) (hr : Carries counted s (n + 1) r r') :
    Rests counted s n r' where
  own := hr.own h.own
  above hcounted c hc := by
    rw [hr.position_eq n h.own.lt_size]
    exact h.above hcounted c (hr.unclaimed.mem hc)
  after hcounted c hc := by
    rw [hr.position_eq n h.own.lt_size, hr.fixed n (Nat.lt_succ_self n) h.own.lt_size]
    exact h.after hcounted c (hr.unclaimed.mem hc)

/-- A part that binds no comments to a node. -/
theorem Rests.leads {m : Parse σ α} {Q : α → Reading σ → Prop} (h : Rests counted s n r)
    (hmark : mark ≤ n) (hm : Leads (Carries counted s (n + 1)) m r Q) :
    Leads (Carries counted s mark) m r fun _ r' => Rests counted s n r' :=
  (hm.mono fun _ _ hr _ => h.keep hr).weaken fun _ hr => hr.mono (Nat.le_succ_of_le hmark)

/-- No comment still to come is on a line above the node. -/
def Behind (n : Nat) (r : Reading σ) : Prop :=
  ∀ c ∈ r.feed.comments, (r.arena.position n).line.toNat ≤ c.position.line.toNat

theorem Behind.keep (h : Behind n r) (hn : n < r.arena.size) (hr : Carries counted s mark r r') :
    Behind n r' := by
  intro c hc
  rw [hr.position_eq n hn]
  exact h c (hr.leaves.comments_suffix.mem hc)

/-- A node claims for the first time. -/
theorem carries_attachComments (h : New s mark n r) :
    Leads (Carries counted s mark) (attachComments n) r fun _ r' =>
      ∀ all, Accounts counted s all r → (counted → Behind n r) → Rests counted s n r' := by
  refine (h.leads carries_peek).bind fun _ r₁ hr₁ ⟨⟨harena, _⟩, h₁⟩ => ?_
  have hcarries : Carries counted s mark r₁ _ := .of_claim h₁.own h₁.mark_le fun all ha hcounted => by
    rw [h₁.bare, List.nil_append]
    exact ⟨(ha.sorted hcounted).sublist (claimed_sublist.trans (List.sublist_append_left ..)),
      block_claimed⟩
  refine .of_ok rfl hcarries fun all ha hbehind => ?_
  have ha₁ := hr₁.accounts all ha
  have hposition : ∀ comments : List Comment,
      (r₁.arena.bindComments n comments).position n = r₁.arena.position n := by
    intro comments
    rw [Arena.position, bindComments, node_update_self h₁.own.lt_size, Arena.position]
  -- what is left is far from the node, or comes behind it
  have hfar : counted → ∀ c ∈ (claim (r₁.arena.position n).line r₁.comments).2,
      c.position.line.toNat + 1 < (r₁.arena.position n).line.toNat ∨
        (r₁.arena.position n).line.toNat < c.position.line.toNat := fun hcounted =>
    far_of_left (List.pairwise_append.1 (ha₁.sorted hcounted)).1 fun c hc =>
      ha₁.nextLine hcounted c (List.mem_append_left _ hc)
  refine ⟨hcarries.own h₁.own, fun hcounted c hc htouches => ?_, fun hcounted c hc hline d hd => ?_⟩
  · have hline := ha₁.nextLine hcounted c ((left_sublist.append (.refl r₁.feed.comments)).mem hc)
    have htoNat := hline.toNat_add_one
    rw [htouches, hposition] at htoNat
    rcases List.mem_append.1 hc with hc | hc
    · have hleft := hfar hcounted c hc
      omega
    · have hahead := (hbehind hcounted).keep h.own.lt_size hr₁ c hc
      omega
  · rw [hposition] at hline
    rw [bindComments, node_update_self h₁.own.lt_size] at hd
    dsimp only at hd
    rw [h₁.bare, List.nil_append] at hd
    rcases List.mem_append.1 hc with hc | hc
    · have hleft := hfar hcounted c hc
      rw [hline] at hleft
      omega
    · exact (List.pairwise_append.1 (ha₁.sorted hcounted)).2.2 d (claimed_sublist.mem hd) c hc

/-- A node claims again. -/
theorem carries_attachComments_again (h : Rests counted s n r) (hm : mark ≤ n) :
    Leads (Carries counted s mark) (attachComments n) r fun _ _ => True := by
  refine (h.leads hm carries_peek).bind fun _ r₁ _ h₁ => ?_
  refine .of_ok rfl (.of_claim h₁.own hm fun all ha hcounted => ?_) trivial
  have hwaiting : ∀ c ∈ r₁.comments, c ∈ unclaimed r₁ := fun c hc => List.mem_append_left _ hc
  have hline := line_claimed (fun c hc => h₁.above hcounted c (hwaiting c hc))
  refine ⟨List.pairwise_append.2 ⟨ha.ordered hcounted n h₁.own, ?_, fun d hd c hc => ?_⟩,
    (ha.block hcounted n h₁.own).append hline⟩
  · exact (ha.sorted hcounted).sublist (claimed_sublist.trans (List.sublist_append_left ..))
  · exact h₁.after hcounted c (hwaiting c (claimed_sublist.mem hc)) (hline c hc) d hd

end SchemaLang.Parse
