import Mathlib.Data.List.Chain
import SchemaLang.Grammar.Reading
import SchemaLang.Proofs.Token.Tiling

/-!
# What a node claims

A node claims those of the waiting comments that lead up to its line without a gap, and leaves the
others, both in the order they had (`Parse.claim_perm`, `Parse.claimed_sublist`,
`Parse.left_sublist`). What it claims is a block above its line (`Parse.block_claimed`).

A node may claim a second time. After the first time no comment on the line above it is left
(`Parse.far_of_left`), so that the second time it claims comments on its own line only
(`Parse.line_claimed`), and these go on with the block (`Parse.Block.append`). That holds of comments
in order, whose lines are counted without wrapping around.
-/

namespace SchemaLang

/-- The comment comes earlier in its file. -/
def Comment.Precedes (c d : Comment) : Prop :=
  c.position.Precedes d.position

theorem Comment.Precedes.line_le {c d : Comment} (h : c.Precedes d) :
    c.position.line.toNat ≤ d.position.line.toNat :=
  Position.Precedes.line_le h

/-- There is a line below the comment. -/
def Comment.HasNextLine (c : Comment) : Prop :=
  c.position.line.toNat + 1 < UInt32.size

theorem Comment.HasNextLine.toNat_add_one {c : Comment} (h : c.HasNextLine) :
    (c.position.line + 1).toNat = c.position.line.toNat + 1 := by
  rw [UInt32.toNat_add]
  exact Nat.mod_eq_of_lt h

namespace Parse

/-- The line is the next one or the line above it. -/
def Touches (line next : UInt32) : Prop :=
  line = next ∨ line + 1 = next

theorem touches_iff {c : Comment} (h : c.HasNextLine) (next : UInt32) :
    c.position.line = next ∨ c.position.line + 1 = next ↔
      c.position.line.toNat = next.toNat ∨ c.position.line.toNat + 1 = next.toNat := by
  rw [← UInt32.toNat_inj, ← UInt32.toNat_inj, h.toNat_add_one]

/-- Comments that lead up to an anchor: each touches the line of the next one, and the last one
touches the anchor. -/
def Block (anchor : UInt32) (comments : List Comment) : Prop :=
  (comments.map (·.position.line) ++ [anchor]).IsChain Touches

theorem block_nil (anchor : UInt32) : Block anchor [] :=
  .singleton anchor

theorem block_concat {anchor : UInt32} {comments : List Comment} {c : Comment} :
    Block anchor (comments ++ [c]) ↔
      Block c.position.line comments ∧ Touches c.position.line anchor := by
  unfold Block
  rw [List.map_append, List.map_singleton, List.append_assoc, List.singleton_append,
    List.isChain_split, List.isChain_pair]

/-- Comments on the anchor itself go on with a block. -/
theorem Block.append {anchor : UInt32} {comments more : List Comment} (h : Block anchor comments)
    (hmore : ∀ c ∈ more, c.position.line = anchor) : Block anchor (comments ++ more) := by
  induction more using List.reverseRecOn with
  | nil => rwa [List.append_nil]
  | append_singleton more c ih =>
    have hc : c.position.line = anchor := hmore c (List.mem_append_right _ (List.mem_singleton_self c))
    rw [← List.append_assoc, block_concat, hc]
    exact ⟨ih fun d hd => hmore d (List.mem_append_left _ hd), .inl rfl⟩

/-! ## Claiming from the newest comment on -/

/-- One round of claiming: the anchor, what is claimed and what is left, oldest first. -/
def claimStep : UInt32 × List Comment × List Comment → Comment →
    UInt32 × List Comment × List Comment :=
  fun (anchor, claimed, left) comment =>
    let line := comment.position.line
    if line = anchor ∨ line + 1 = anchor then (line, comment :: claimed, left)
    else (anchor, claimed, comment :: left)

theorem claimStep_eq (anchor : UInt32) (claimed left : List Comment) (c : Comment) :
    claimStep (anchor, claimed, left) c =
      if c.position.line = anchor ∨ c.position.line + 1 = anchor then
        (c.position.line, c :: claimed, left)
      else (anchor, claimed, c :: left) := rfl

theorem claim_eq (anchor : UInt32) (comments : List Comment) :
    claim anchor comments = (comments.reverse.foldl claimStep (anchor, [], [])).2 := rfl

/-- The comments that were dealt with stay behind those that come. -/
theorem foldl_claimStep (newest : List Comment) : ∀ (anchor : UInt32) (claimed left : List Comment),
    (newest.foldl claimStep (anchor, claimed, left)).2 =
      ((newest.foldl claimStep (anchor, [], [])).2.1 ++ claimed,
        (newest.foldl claimStep (anchor, [], [])).2.2 ++ left) := by
  induction newest with
  | nil => exact fun _ _ _ => rfl
  | cons c newest ih =>
    intro anchor claimed left
    rw [List.foldl_cons, List.foldl_cons, claimStep_eq, claimStep_eq]
    split
    · rw [ih, ih _ [c] []]
      simp
    · rw [ih, ih _ [] [c]]
      simp

/-- One comment more: it is claimed if it touches the anchor, and is then the anchor of the rest. -/
theorem claim_concat (anchor : UInt32) (comments : List Comment) (c : Comment) :
    claim anchor (comments ++ [c]) =
      if c.position.line = anchor ∨ c.position.line + 1 = anchor then
        ((claim c.position.line comments).1 ++ [c], (claim c.position.line comments).2)
      else ((claim anchor comments).1, (claim anchor comments).2 ++ [c]) := by
  rw [claim_eq, List.reverse_append, List.reverse_singleton, List.singleton_append,
    List.foldl_cons, claimStep_eq]
  split
  · rw [foldl_claimStep, claim_eq, List.append_nil]
  · rw [foldl_claimStep, claim_eq, List.append_nil]

section

variable {anchor : UInt32} {comments : List Comment}

theorem claim_perm : ((claim anchor comments).1 ++ (claim anchor comments).2).Perm comments := by
  induction comments using List.reverseRecOn generalizing anchor with
  | nil => exact .nil
  | append_singleton comments c ih =>
    rw [claim_concat]
    split
    · rw [List.append_assoc]
      exact (List.perm_append_comm.append_left _).trans
        (by rw [← List.append_assoc]; exact ih.append_right [c])
    · rw [← List.append_assoc]
      exact ih.append_right [c]

theorem claimed_sublist : (claim anchor comments).1.Sublist comments := by
  induction comments using List.reverseRecOn generalizing anchor with
  | nil => exact .slnil
  | append_singleton comments c ih =>
    rw [claim_concat]
    split
    · exact ih.append (.refl _)
    · exact ih.trans (List.sublist_append_left ..)

theorem left_sublist : (claim anchor comments).2.Sublist comments := by
  induction comments using List.reverseRecOn generalizing anchor with
  | nil => exact .slnil
  | append_singleton comments c ih =>
    rw [claim_concat]
    split
    · exact ih.trans (List.sublist_append_left ..)
    · exact ih.append (.refl _)

/-- What is claimed leads up to the anchor. -/
theorem block_claimed : Block anchor (claim anchor comments).1 := by
  induction comments using List.reverseRecOn generalizing anchor with
  | nil => exact block_nil anchor
  | append_singleton comments c ih =>
    rw [claim_concat]
    split
    · rename_i htouches
      exact block_concat.2 ⟨ih, htouches⟩
    · exact ih

/-- Of comments in order, those that are left are above the line over the anchor, or below it. -/
theorem far_of_left (hsorted : comments.Pairwise Comment.Precedes)
    (hnext : ∀ c ∈ comments, c.HasNextLine) :
    ∀ c ∈ (claim anchor comments).2,
      c.position.line.toNat + 1 < anchor.toNat ∨ anchor.toNat < c.position.line.toNat := by
  induction comments using List.reverseRecOn generalizing anchor with
  | nil => exact List.forall_mem_nil _
  | append_singleton comments d ih =>
    obtain ⟨hfront, -, hlast⟩ := List.pairwise_append.1 hsorted
    obtain ⟨hfront', hd⟩ := List.forall_mem_append.1 hnext
    rw [List.forall_mem_singleton] at hd
    have hle : ∀ c ∈ comments, c.position.line.toNat ≤ d.position.line.toNat :=
      fun c hc => (hlast c hc d (List.mem_singleton_self d)).line_le
    intro c hc
    rw [claim_concat] at hc
    split at hc
    · rename_i htouches
      have hline := (touches_iff hd anchor).1 htouches
      have hc' := ih hfront hfront' c hc
      have hcd := hle c (left_sublist.mem hc)
      omega
    · rename_i htouches
      have hline := mt (touches_iff hd anchor).2 htouches
      rcases List.mem_append.1 hc with hc | hc
      · exact ih hfront hfront' c hc
      · rw [List.mem_singleton.1 hc]
        omega

/-- Where no comment is on the line above the anchor, those on the anchor are claimed. -/
theorem line_claimed (h : ∀ c ∈ comments, c.position.line + 1 ≠ anchor) :
    ∀ c ∈ (claim anchor comments).1, c.position.line = anchor := by
  induction comments using List.reverseRecOn with
  | nil => exact List.forall_mem_nil _
  | append_singleton comments d ih =>
    have hd := h d (List.mem_append_right _ (List.mem_singleton_self d))
    have hfront : ∀ c ∈ comments, c.position.line + 1 ≠ anchor :=
      fun c hc => h c (List.mem_append_left _ hc)
    rw [claim_concat]
    split
    · rename_i htouches
      have hline : d.position.line = anchor := htouches.resolve_right hd
      rw [hline]
      refine List.forall_mem_append.2 ⟨ih hfront, ?_⟩
      exact List.forall_mem_singleton.2 hline
    · exact ih hfront

end

end Parse

end SchemaLang
