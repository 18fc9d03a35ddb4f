import SchemaLang.Proofs.Grammar.Operations
import SchemaLang.Proofs.Grammar.Tokens

/-!
# What holds all along a reading

A reading answers its imports through a host. What it relies on is a contract: the host has an
invariant of its own that building below the script does not disturb, and its answers leave the
package at hand alone (`Hosting`).

* `Parse.Runs`: what any part of a reading does, whether it fails or not.
* `Parse.Steps`: what a part does that makes no declaration.
* `Parse.Stands`: the state between two parts: the trees below the script, the host's invariant, and
  attributes that wait.
* `leads_quiet_bind`, `leads_build_bind`, `leads_unique`: how one part follows another.
-/

namespace SchemaLang

open Arena

variable {σ α β : Type}

/-- What a reading of a script of `package` relies on when its imports are answered. -/
structure Hosting (importer : Importer σ) (package : NodeId) where
  /-- The invariant of the host. -/
  Inv : Arena → σ → Prop
  /-- The packages that the host has answered with. -/
  served : σ → NodeId → Prop
  anchored : ∀ {a : Arena} {host : σ}, Inv a host → Anchored a
  built : ∀ {a b : Arena} {host : σ}, Inv a host → Within package (served host) a b → Inv b host
  answered : ∀ {path : String} {position : Position} {a b : Arena} {host host' : σ} {q : NodeId},
    Inv a host → importer path position (a, host) = .ok q (b, host') →
    Answers package a b ∧ Inv b host' ∧ (∀ x, served host x → served host' x) ∧
      (b.kind q).level = 8 ∧ served host' q
  refused : ∀ {path : String} {position : Position} {a b : Arena} {host host' : σ}
    {failure : Diagnostic}, Inv a host →
    importer path position (a, host) = .error failure (b, host') →
    Answers package a b ∧ Inv b host' ∧ ∀ x, served host x → served host' x

namespace Parse

variable {cx : ReadingContext σ} {p mark : Nat} {r r' : Reading σ} {loose : List NodeId}

/-! ## One part of a reading -/

/-- A part of a reading goes from one state to another. -/
structure Runs (hosting : Hosting cx.importer p) (r r' : Reading σ) : Prop where
  grows : Grows p cx.script r.arena r'.arena
  inv : hosting.Inv r.arena r.host → hosting.Inv r'.arena r'.host
  served : ∀ q, hosting.served r.host q → hosting.served r'.host q

/-- A part that makes no declaration. The nodes below `mark` stay as they are. -/
structure Steps (hosting : Hosting cx.importer p) (mark : Nat) (r r' : Reading σ) : Prop
    extends Runs hosting r r' where
  fixed : ∀ n : Nat, n < mark → r'.arena.node n = r.arena.node n
  low : ∀ n : Nat, r.arena.size ≤ n → r'.arena.Own cx.script n → (r'.arena.kind n).level < 6

/-- The state between two parts. The nodes of `loose` are in the hands of the reading, and beside
them attributes wait. -/
structure Stands (hosting : Hosting cx.importer p) (r : Reading σ) (loose : List NodeId) : Prop where
  inv : hosting.Inv r.arena r.host
  forest : Forest p cx.script (hosting.served r.host) r.arena (loose ++ r.attrs)
  attrs : ∀ x ∈ r.attrs, (r.arena.attr? x).isSome

variable {hosting : Hosting cx.importer p}

instance : IsPreorder (Reading σ) (Runs hosting) where
  refl _ := ⟨.refl .., id, fun _ => id⟩
  trans _ _ _ h h' := ⟨h.grows.trans h'.grows, fun hi => h'.inv (h.inv hi),
    fun q hq => h'.served q (h.served q hq)⟩

/-- A part that adds no node. -/
theorem Steps.of_size_eq (hr : Runs hosting r r') (hsize : r'.arena.size = r.arena.size)
    (hf : ∀ n : Nat, n < mark → r'.arena.node n = r.arena.node n) : Steps hosting mark r r' where
  toRuns := hr
  fixed := hf
  low _ hn ho := absurd (hsize ▸ ho.lt_size) (Nat.not_lt.2 hn)

instance : IsPreorder (Reading σ) (Steps hosting mark) where
  refl r := .of_size_eq (refl r) rfl fun _ _ => rfl
  trans _ r' _ h h' := by
    refine ⟨trans_of (Runs hosting) h.toRuns h'.toRuns,
      fun n hn => (h'.fixed n hn).trans (h.fixed n hn), fun n hn ho => ?_⟩
    rcases Nat.lt_or_ge n r'.arena.size with hlt | hge
    · rw [h'.grows.level hlt]
      exact h.low n hn ((h'.grows.own_iff hlt).1 ho)
    · exact h'.low n hge ho

theorem Steps.mono {mark' : Nat} (h : Steps hosting mark' r r') (hm : mark ≤ mark') :
    Steps hosting mark r r' :=
  ⟨h.toRuns, fun n hn => h.fixed n (Nat.lt_of_lt_of_le hn hm), h.low⟩

/-- A part that makes no declaration leaves no enum without values. -/
theorem Steps.filled {begun : List NodeId} (h : Steps hosting mark r r')
    (hf : r.arena.Filled cx.script begun) : r'.arena.Filled cx.script begun :=
  h.grows.filled (fun n hn ho _ => h.low n hn ho) hf

theorem leads_runs {m : Parse σ α} {Q : α → Reading σ → Prop}
    (h : Leads (Steps hosting mark) m r Q) : Leads (Runs hosting) m r Q :=
  h.weaken fun _ hs => hs.toRuns

/-- A part that keeps more nodes keeps fewer. -/
theorem leads_mark {mark' : Nat} {m : Parse σ α} {Q : α → Reading σ → Prop}
    (h : Leads (Steps hosting mark') m r Q) (hm : mark ≤ mark') :
    Leads (Steps hosting mark) m r Q :=
  h.weaken fun _ hs => hs.mono hm

/-! ## Quiet parts -/

theorem steps_retake (r : Reading σ) (feed : Feed) (comments : List Comment) :
    Steps hosting mark r (retake r feed comments) :=
  .of_size_eq ⟨.refl .., id, fun _ => id⟩ rfl fun _ _ => rfl

theorem leads_quiet {m : Parse σ α} {Q : α → Reading σ → Prop} (hm : Quiet m)
    (h : ∀ x feed comments, Q x (retake r feed comments)) : Leads (Steps hosting mark) m r Q := by
  obtain ⟨feed, comments, ⟨x, hx⟩ | ⟨e, he⟩⟩ := hm r
  · exact .of_ok hx (steps_retake ..) (h x feed comments)
  · exact .of_error he (steps_retake ..)

theorem leads_quiet_bind {m : Parse σ α} {f : α → Parse σ β} {Q : β → Reading σ → Prop}
    (hm : Quiet m)
    (h : ∀ x feed comments, Leads (Steps hosting mark) (f x) (retake r feed comments) Q) :
    Leads (Steps hosting mark) (m >>= f) r Q := by
  refine Leads.bind (P := fun _ r' => ∃ feed comments, r' = retake r feed comments)
    (leads_quiet hm fun x feed comments => ⟨feed, comments, rfl⟩) ?_
  rintro x _ - ⟨feed, comments, rfl⟩
  exact h x feed comments

theorem runs_quiet_bind {m : Parse σ α} {f : α → Parse σ β} {Q : β → Reading σ → Prop}
    (hm : Quiet m)
    (h : ∀ x feed comments, Leads (Runs hosting) (f x) (retake r feed comments) Q) :
    Leads (Runs hosting) (m >>= f) r Q := by
  have hquiet : Leads (Steps hosting 0) m r fun _ r' => ∃ feed comments, r' = retake r feed comments :=
    leads_quiet hm fun x feed comments => ⟨feed, comments, rfl⟩
  refine (leads_runs hquiet).bind ?_
  rintro x _ - ⟨feed, comments, rfl⟩
  exact h x feed comments

theorem leads_failAt {position : Position} {cause : Cause} {Q : α → Reading σ → Prop} :
    Leads (Steps hosting mark) (failAt position cause : Parse σ α) r Q :=
  Leads.throw

theorem leads_unexpected {token : Token} {expected : String} {Q : α → Reading σ → Prop} :
    Leads (Steps hosting mark) (unexpected token expected : Parse σ α) r Q :=
  leads_failAt

/-! ## Parts that build -/

/-- The reading with another arena. -/
def rebuild (r : Reading σ) (arena : Arena) : Reading σ :=
  { r with arena := arena }

theorem build_eq (operation : Arena → α × Arena) (r : Reading σ) :
    build operation r = .ok (operation r.arena).1 (rebuild r (operation r.arena).2) := rfl

namespace Stands

theorem retake (h : Stands hosting r loose) (feed : Feed) (comments : List Comment) :
    Stands hosting (retake r feed comments) loose :=
  ⟨h.inv, h.forest, h.attrs⟩

/-- Building below the script does not disturb the host. -/
theorem built {b : Arena} (h : Stands hosting r loose) (hb : Makes p cx.script r.arena b) :
    hosting.Inv b r.host := by
  obtain ⟨package, hp⟩ := h.forest.isPackage
  obtain ⟨decl, hd, hf⟩ := h.forest.isScript
  exact hosting.built h.inv (hb.within (hosting.anchored h.inv) (home_of_package hp) hd
    hf.package_eq)

theorem runs {b : Arena} (h : Stands hosting r loose) (hb : Makes p cx.script r.arena b) :
    Runs hosting r (rebuild r b) :=
  ⟨hb.toGrows, fun _ => h.built hb, fun _ => id⟩

theorem steps {b : Arena} (h : Stands hosting r loose) (hb : Builds p cx.script r.arena b)
    (hf : ∀ n : Nat, n < mark → b.node n = r.arena.node n) :
    Steps hosting mark r (rebuild r b) :=
  ⟨h.runs hb.toMakes, hf, fun n hn ho => hb.low_new n hn ho.lt_size⟩

theorem remake {b : Arena} {loose' : List NodeId} (h : Stands hosting r loose)
    (hb : Makes p cx.script r.arena b)
    (hf : Forest p cx.script (hosting.served r.host) b (loose' ++ r.attrs)) :
    Stands hosting (rebuild r b) loose' where
  inv := h.built hb
  forest := hf
  attrs x hx := by
    have hx' := h.forest.held x (List.mem_append_right _ hx)
    exact attr?_isSome_congr (hb.shape hx'.lt_size) (h.attrs x hx)

theorem rebuild {b : Arena} {loose' : List NodeId} (h : Stands hosting r loose)
    (hb : Builds p cx.script r.arena b)
    (hf : Forest p cx.script (hosting.served r.host) b (loose' ++ r.attrs)) :
    Stands hosting (Parse.rebuild r b) loose' :=
  h.remake hb.toMakes hf

end Stands

theorem leads_build {operation : Arena → α × Arena} {Q : α → Reading σ → Prop}
    (h : Stands hosting r loose) (hb : Builds p cx.script r.arena (operation r.arena).2)
    (hf : ∀ n : Nat, n < mark → (operation r.arena).2.node n = r.arena.node n)
    (hq : Q (operation r.arena).1 (rebuild r (operation r.arena).2)) :
    Leads (Steps hosting mark) (build operation) r Q :=
  .of_ok (build_eq operation r) (h.steps hb hf) hq

theorem leads_build_bind {operation : Arena → α × Arena} {f : α → Parse σ β}
    {Q : β → Reading σ → Prop} (h : Stands hosting r loose)
    (hb : Builds p cx.script r.arena (operation r.arena).2)
    (hf : ∀ n : Nat, n < mark → (operation r.arena).2.node n = r.arena.node n)
    (hq : Leads (Steps hosting mark) (f (operation r.arena).1)
      (rebuild r (operation r.arena).2) Q) :
    Leads (Steps hosting mark) (build operation >>= f) r Q := by
  refine Leads.bind (P := fun x r' => x = (operation r.arena).1 ∧
    r' = rebuild r (operation r.arena).2) (leads_build h hb hf ⟨rfl, rfl⟩) ?_
  rintro x r' - ⟨rfl, rfl⟩
  exact hq

/-- What a reading finds in the arena may decide how it goes on. -/
theorem leads_inspect_bind {query : Arena → α} {f : α → Parse σ β} {Q : β → Reading σ → Prop}
    (h : Leads (Steps hosting mark) (f (query r.arena)) r Q) :
    Leads (Steps hosting mark) (inspect query >>= f) r Q := by
  refine Leads.bind (P := fun x r' => x = query r.arena ∧ r' = r)
    (.of_ok rfl (refl r) ⟨rfl, rfl⟩) ?_
  rintro x r' - ⟨rfl, rfl⟩
  exact h

/-- A part with a rule of uniqueness. -/
theorem leads_unique {what : Duplicate} {name : String} {position : Position}
    {operation : Arena → Except NodeId α × Arena} {Q : α → Reading σ → Prop}
    (h : Stands hosting r loose)
    (ht : Tries r.arena (operation r.arena) fun x b => Builds p cx.script r.arena b ∧
      (∀ n : Nat, n < mark → b.node n = r.arena.node n) ∧ Q x (rebuild r b)) :
    Leads (Steps hosting mark) (buildUnique what name position operation) r Q := by
  unfold Tries at ht
  cases hop : operation r.arena with
  | mk x b =>
    rw [hop] at ht
    have hbuild : build operation r = .ok x (rebuild r b) := by rw [build_eq, hop]
    cases x with
    | error existing =>
      have hb : b = r.arena := ht
      subst hb
      exact .of_error (bind_ok hbuild) (refl r)
    | ok value =>
      obtain ⟨h₁, h₂, h₃⟩ := ht
      exact .of_ok (bind_ok hbuild) (h.steps h₁ h₂) h₃

/-! ## Loops -/

theorem leads_repeatWhile {R : Reading σ → Reading σ → Prop} [IsPreorder (Reading σ) R]
    {step : Parse σ Bool} {I : Reading σ → Prop}
    (h : ∀ r, I r → Leads R step r fun _ r' => I r') :
    ∀ (fuel : Nat) (r : Reading σ), I r → Leads R (repeatWhile step fuel) r fun _ r' => I r'
  | 0, r, hi => Leads.pure hi
  | fuel + 1, r, hi => by
    refine (h r hi).bind fun more r' _ hi' => ?_
    split
    · exact leads_repeatWhile h fuel r' hi'
    · exact Leads.pure hi'

/-- A loop that is run at all. -/
theorem leads_repeatWhile_pos {step : Parse σ Bool} {I J : Reading σ → Prop}
    (h : ∀ r, I r → Leads (Steps hosting mark) step r fun _ r' => J r') (hj : ∀ r, J r → I r)
    {fuel : Nat} (hfuel : 0 < fuel) (hi : I r) :
    Leads (Steps hosting mark) (repeatWhile step fuel) r fun _ r' => J r' := by
  obtain ⟨fuel, rfl⟩ := Nat.exists_eq_succ_of_ne_zero (Nat.ne_of_gt hfuel)
  refine (h r hi).bind fun more r' _ hj' => ?_
  split
  · exact leads_repeatWhile (fun r hr => h r (hj r hr)) fuel r' hj'
  · exact Leads.pure hj'

/-! ## Comments, attributes and imports -/

theorem fixed_update {a : Arena} {m : Nat} (h : mark ≤ m) (f : Node → Node) (n : Nat)
    (hn : n < mark) : (a.update m f).node n = a.node n :=
  node_update_ne (by omega) f

theorem leads_attachComments {node : Nat} (h : Stands hosting r loose)
    (hn : r.arena.Owner cx.script node) (hm : mark ≤ node) :
    Leads (Steps hosting mark) (attachComments node) r fun _ r' => Stands hosting r' loose := by
  refine leads_quiet_bind quiet_peek fun _ feed comments => ?_
  obtain ⟨hb, hf⟩ := h.forest.bindComments hn (claim (r.arena.position node).line comments).1
  have hr := (h.retake feed (claim (r.arena.position node).line comments).2)
  exact .of_ok rfl (.of_size_eq ⟨hb.toGrows, fun _ => h.built hb.toMakes, fun _ => id⟩
    (size_update ..) (fixed_update hm _)) (hr.rebuild hb hf)

theorem leads_attachAllComments {node : Nat} (h : Stands hosting r loose)
    (hn : r.arena.Owner cx.script node) :
    Leads (Steps hosting 0) (attachAllComments node) r fun _ r' => Stands hosting r' loose ∧
      r'.attrs = r.attrs := by
  obtain ⟨hb, hf⟩ := h.forest.bindComments hn r.comments
  have hr := h.retake r.feed []
  exact .of_ok rfl (.of_size_eq ⟨hb.toGrows, fun _ => h.built hb.toMakes, fun _ => id⟩
    (size_update ..) fun n hn => by omega) ⟨hr.rebuild hb hf, rfl⟩

theorem leads_holdAttr {attr : Nat} (h : Stands hosting r (attr :: loose))
    (ha : (r.arena.attr? attr).isSome) :
    Leads (Steps hosting mark) (holdAttr attr) r fun _ r' => Stands hosting r' loose := by
  refine .of_ok rfl (.of_size_eq ⟨.refl .., id, fun _ => id⟩ rfl fun _ _ => rfl)
    ⟨h.inv, ?_, ?_⟩
  · have hperm := (List.perm_append_singleton attr (loose ++ r.attrs)).symm
    rw [List.append_assoc] at hperm
    exact h.forest.perm hperm
  · intro x hx
    rcases List.mem_append.1 hx with hx | hx
    · exact h.attrs x hx
    · rw [List.mem_singleton] at hx
      exact hx ▸ ha

/-- Waiting attributes are put on a node. -/
theorem forest_attachAttrs {s : Nat} {served : NodeId → Prop} {node : Nat} :
    ∀ (attrs : List NodeId) (a : Arena), Forest p s served a (loose ++ attrs) → a.Owner s node →
      (a.kind node).carries = true → (∀ x ∈ attrs, (a.attr? x).isSome) →
      Builds p s a (attrs.foldl (fun arena attr => arena.addAttr node attr) a) ∧
        Forest p s served (attrs.foldl (fun arena attr => arena.addAttr node attr) a) loose
  | [], a, h, _, _, _ => ⟨.refl p s a, by rwa [List.append_nil] at h⟩
  | attr :: rest, a, h, hn, hc, ha => by
    obtain ⟨h₁, h₂⟩ := (h.perm List.perm_middle).carry hn hc (ha attr (List.mem_cons_self ..))
    have hc' : ((a.addAttr node attr).kind node).carries = true := by
      rw [NodeKind.carries_congr (h₁.shape (h.owner_lt_size hn)), hc]
    have ha' : ∀ x ∈ rest, ((a.addAttr node attr).attr? x).isSome := by
      intro x hx
      have hx' := ha x (List.mem_cons_of_mem _ hx)
      exact attr?_isSome_congr (h₁.shape (lt_size_of_attr hx')) hx'
    obtain ⟨h₃, h₄⟩ := forest_attachAttrs rest _ h₂ (h₁.toGrows.owner hn) hc' ha'
    exact ⟨h₁.trans h₃, h₄⟩

theorem leads_attachAttrs {node : Nat} (h : Stands hosting r loose)
    (hn : r.arena.Owner cx.script node) (hc : (r.arena.kind node).carries = true) :
    Leads (Steps hosting 0) (attachAttrs node) r fun _ r' => Stands hosting r' loose ∧
      r'.attrs = [] := by
  obtain ⟨hb, hf⟩ := forest_attachAttrs r.attrs r.arena h.forest hn hc h.attrs
  have hi := h.built hb.toMakes
  refine .of_ok rfl ?_ ⟨⟨hi, ?_, fun x hx => by cases hx⟩, rfl⟩
  · exact ⟨⟨hb.toGrows, fun _ => hi, fun _ => id⟩, fun n hn => by omega,
      fun n hn ho => hb.low_new n hn ho.lt_size⟩
  · rw [List.append_nil]
    exact hf

/-- What the host does to the arena and to what it keeps is all that an import does. -/
theorem leads_answer {R : Reading σ → Reading σ → Prop} {Q : NodeId → Reading σ → Prop}
    {path : String} {position : Position}
    (hok : ∀ q b host, cx.importer path position (r.arena, r.host) = .ok q (b, host) →
      R r ⟨r.feed, r.comments, r.attrs, b, host⟩ ∧ Q q ⟨r.feed, r.comments, r.attrs, b, host⟩)
    (herror : ∀ e b host, cx.importer path position (r.arena, r.host) = .error e (b, host) →
      R r ⟨r.feed, r.comments, r.attrs, b, host⟩) :
    Leads R (importPackage cx path position) r Q := by
  obtain ⟨feed, comments, attrs, a, host⟩ := r
  unfold Leads importPackage
  dsimp only
  cases hrun : cx.importer path position (a, host) with
  | ok q s' => exact hok q s'.1 s'.2 hrun
  | error e s' => exact herror e s'.1 s'.2 hrun

theorem leads_importPackage {path : String} {position : Position} (h : Stands hosting r loose) :
    Leads (Steps hosting 0) (importPackage cx path position) r fun q r' =>
      Stands hosting r' loose ∧ (r'.arena.kind q).level = 8 ∧ hosting.served r'.host q := by
  have hstands : ∀ b host, Answers p r.arena b → hosting.Inv b host →
      (∀ x, hosting.served r.host x → hosting.served host x) →
      Stands hosting ⟨r.feed, r.comments, r.attrs, b, host⟩ loose := by
    intro b host ha hi hs
    obtain ⟨hg, hf⟩ := h.forest.answers (hosting.anchored h.inv) ha
    refine ⟨hi, hf.mono hs, fun x hx => ?_⟩
    have hx' := h.forest.held x (List.mem_append_right _ hx)
    exact attr?_isSome_congr (hg.shape hx'.lt_size) (h.attrs x hx)
  have hsteps : ∀ b host, Answers p r.arena b → hosting.Inv b host →
      (∀ x, hosting.served r.host x → hosting.served host x) →
      Steps hosting 0 r ⟨r.feed, r.comments, r.attrs, b, host⟩ := by
    intro b host ha hi hs
    obtain ⟨decl, hd, hf⟩ := h.forest.isScript
    exact ⟨⟨(h.forest.answers (hosting.anchored h.inv) ha).1, fun _ => hi, hs⟩,
      fun n hn => by omega, fun n hn ho => absurd ho (ha.not_own hd hf.package_eq hn)⟩
  refine leads_answer (fun q b host hrun => ?_) fun e b host hrun => ?_
  · obtain ⟨ha, hi, hs, hl, hq⟩ := hosting.answered h.inv hrun
    exact ⟨hsteps b host ha hi hs, hstands b host ha hi hs, hl, hq⟩
  · obtain ⟨ha, hi, hs⟩ := hosting.refused h.inv hrun
    exact hsteps b host ha hi hs

end Parse

end SchemaLang
