import SchemaLang.Proofs.Link.Masks
import SchemaLang.Proofs.Link.Sites

/-!
# Where attributes go

The second pass of linking goes through the sites of a package and checks the attributes on each.
What it has done so far is said by the list of its moves (`Relocated`): an attribute that was moved is
where it was moved to, after those that were there, and every other one is where it was.

The masks that the pass consults are read from attributes that it may move. Usage declarations stand
on tables, though, and where they may stand on tables and structs (`UsageStays`) the pass leaves them
there, so that the masks are the same all along (`Sorts.usageMask_eq`).

* `Arena.Destined`: where an attribute goes, said of the arena before the pass.
* `Sorts`: the invariant of the pass. One attribute: `Sorts.leads_placeAttr`.
* `Laid.placesExactly`: where the pass succeeds, every attribute is where it goes.
-/

namespace SchemaLang

namespace Arena

variable {a b c : Arena} {attr d m n p x : Nat} {site : Site} {mask : Int64}
  {vocabulary : Vocabulary} {moves : List (NodeId × NodeId)} {pending : List NodeId}

/-! ## Where an attribute goes -/

/-- The site that counts for the attributes of a node: a table that carries the struct marker is a
struct. -/
def StandsAt (a : Arena) (vocabulary : Vocabulary) (n : NodeId) (site : Site) : Prop :=
  ∃ base, a.SiteOf n base ∧ site =
    if base = .table ∧ a.attrsOfType n vocabulary.structMarker ≠ [] then .struct else base

/-- Where an attribute with a mask goes from a node at a site: it stays, or goes to the script of the
node, or to the package, whichever the mask permits first. -/
inductive Goes (a : Arena) (vocabulary : Vocabulary) (package n : NodeId) (site : Site)
    (mask : Int64) : NodeId → Prop
  | stays : vocabulary.permits mask site = true → Goes a vocabulary package n site mask n
  | toScript {s : NodeId} : vocabulary.permits mask site = false → site ≠ .script →
    vocabulary.permits mask .script = true → a.scriptOf n = some s →
    Goes a vocabulary package n site mask s
  | toPackage : vocabulary.permits mask site = false →
    ¬ (site ≠ .script ∧ vocabulary.permits mask .script = true) →
    vocabulary.permits mask .package = true → Goes a vocabulary package n site mask package

theorem Goes.unique {d' : NodeId} (h : a.Goes vocabulary p n site mask d)
    (h' : a.Goes vocabulary p n site mask d') : d = d' := by
  cases h with
  | stays hp =>
    cases h' with
    | stays => rfl
    | toScript hnot => exact absurd (hp.symm.trans hnot) nofun
    | toPackage hnot => exact absurd (hp.symm.trans hnot) nofun
  | toScript hnot hne hp hs =>
    cases h' with
    | stays hp' => exact absurd (hp'.symm.trans hnot) nofun
    | toScript _ _ _ hs' => exact Option.some.inj (hs.symm.trans hs')
    | toPackage _ hnot' => exact absurd ⟨hne, hp⟩ hnot'
  | toPackage hnot hnot' =>
    cases h' with
    | stays hp' => exact absurd (hp'.symm.trans hnot) nofun
    | toScript _ hne hp => exact absurd ⟨hne, hp⟩ hnot'
    | toPackage => rfl

/-- Where an attribute on a node of the package goes, by its mask and the site of the node. -/
def Destined (a : Arena) (vocabulary : Vocabulary) (package n attr d : NodeId) : Prop :=
  ∃ site mask, a.StandsAt vocabulary n site ∧ a.HasMask vocabulary attr mask ∧
    a.Goes vocabulary package n site mask d

/-- Usage declarations may stand on tables and on structs. -/
def UsageStays (a : Arena) (vocabulary : Vocabulary) : Prop :=
  ∃ mask, a.TypeMask vocabulary vocabulary.usage mask ∧
    vocabulary.permits mask .table = true ∧ vocabulary.permits mask .struct = true

/-- Where a usage declaration has a mask that permits both, they may stand on tables and structs. -/
theorem usageStays_of_usageMask (h : a.usageMask vocabulary attr = .ok mask)
    (hattr : a.attrType attr = some vocabulary.usage)
    (htable : vocabulary.permits mask .table = true)
    (hstruct : vocabulary.permits mask .struct = true) : a.UsageStays vocabulary := by
  obtain ⟨type, htype, hmask⟩ := hasMask_of_usageMask h
  cases htype.symm.trans hattr
  exact ⟨mask, hmask, htable, hstruct⟩

/-- The attribute is on a node of the package, once, and on no other one. -/
structure Attached (b : Arena) (package attr d : NodeId) : Prop where
  home : b.home d = some package
  parent : (b.node attr).parent = some d
  once : (b.node d).attrs.toList.count attr = 1
  only : ∀ m, b.home m = some package → attr ∈ (b.node m).attrs → m = d

/-- An attribute that leaves its node goes to one above it, which is the script or the package. -/
theorem Laid.goes_above (h : Laid p a) (hn : a.home n = some p) (hs : a.StandsAt vocabulary n site)
    (hg : a.Goes vocabulary p n site mask d) (hne : d ≠ n) : (a.scriptOf n = some d ∨ d = p) ∧
      a.home d = some p ∧ 7 ≤ (a.kind d).level ∧ a.Reaches d n := by
  obtain ⟨base, hsite, -⟩ := hs
  cases hg with
  | stays => exact absurd rfl hne
  | toScript _ _ _ hs =>
    rcases h.below n hn with rfl | ⟨s, hs', ⟨decl, hk⟩, hc, hr⟩
    · obtain ⟨decl, hk⟩ := h.isPackage
      have hcarries := hsite.carries
      rw [hk] at hcarries
      cases hcarries
    · cases Option.some.inj (hs.symm.trans hs')
      refine ⟨Or.inl hs, (h.descends.down p d h.home_package hc).1, ?_, hr⟩
      rw [hk]
      exact Nat.le_refl 7
  | toPackage =>
    obtain ⟨decl, hk⟩ := h.isPackage
    refine ⟨Or.inr rfl, h.home_package, ?_, reaches_of_mem_walk (h.mem_walk_iff.2 hn)⟩
    rw [hk]
    exact Nat.le_succ 7

theorem Laid.destined_above (h : Laid p a) (hn : a.home n = some p)
    (hd : a.Destined vocabulary p n attr d) (hne : d ≠ n) :
    a.home d = some p ∧ 7 ≤ (a.kind d).level ∧ a.Reaches d n := by
  obtain ⟨site, mask, hs, -, hg⟩ := hd
  exact (h.goes_above hn hs hg hne).2

/-- An attribute goes to one place. -/
theorem Laid.destined_unique {d' : Nat} (h : Laid p a) (hn : a.home n = some p)
    (hd : a.Destined vocabulary p n attr d) (hd' : a.Destined vocabulary p n attr d') : d = d' := by
  obtain ⟨site, mask, ⟨base, hs, rfl⟩, hm, hg⟩ := hd
  obtain ⟨site', mask', ⟨base', hs', rfl⟩, hm', hg'⟩ := hd'
  cases h.site_unique hn hs hs'
  cases hm.unique hm'
  exact hg.unique hg'

/-- An attribute that may not stay does not go to its own node. -/
theorem Laid.goes_ne (h : Laid p a) (hn : a.home n = some p) (hs : a.StandsAt vocabulary n site)
    (hg : a.Goes vocabulary p n site mask d) (hnot : vocabulary.permits mask site = false) :
    d ≠ n := by
  obtain ⟨base, hbase, rfl⟩ := hs
  rintro rfl
  cases hg with
  | stays hp => exact absurd (hp.symm.trans hnot) nofun
  | toScript _ hne _ hs =>
    rcases h.below d hn with rfl | ⟨s, hs', ⟨decl, hk⟩, -, -⟩
    · obtain ⟨decl, hk⟩ := h.isPackage
      have hcarries := hbase.carries
      rw [hk] at hcarries
      cases hcarries
    · cases Option.some.inj (hs.symm.trans hs')
      cases h.site_unique hn hbase (.script hk)
      exact hne rfl
  | toPackage =>
    obtain ⟨decl, hk⟩ := h.isPackage
    have hcarries := hbase.carries
    rw [hk] at hcarries
    cases hcarries

/-- The pass finds where an attribute goes that may not stay. -/
theorem goes_of_destination? (hr : Retagged a c) (hn : a.home n = some p)
    (hnot : vocabulary.permits mask site = false)
    (hd : c.destination? vocabulary n site mask = some d) : a.Goes vocabulary p n site mask d := by
  unfold destination? at hd
  split at hd
  · rename_i hscript
    rw [hr.scriptOf_eq] at hd
    exact .toScript hnot hscript.1 hscript.2 hd
  · rename_i hscript
    split at hd
    · rename_i hpackage
      rw [packageOf_of_home ((hr.home_eq n).trans hn)] at hd
      cases hd
      exact .toPackage hnot hscript hpackage
    · cases hd

/-! ## Moves -/

/-- The attributes of `moves` were moved one after another, each to the node it is paired with, and
nothing else was changed but tags. -/
structure Relocated (package : NodeId) (a c : Arena) (moves : List (NodeId × NodeId)) : Prop
    extends Retagged a c where
  attrs_eq : ∀ m, a.home m = some package → (c.node m).attrs.toList =
    ((a.node m).attrs.toList.filter fun x => x ∉ moves.map (·.1)) ++
      (moves.filter fun move => move.2 = m).map (·.1)
  frame : ∀ m, a.home m ≠ some package → (c.node m).attrs = (a.node m).attrs
  moved : ∀ x d, (x, d) ∈ moves → (c.node x).parent = some d
  unmoved : ∀ x, x ∉ moves.map (·.1) → (c.node x).parent = (a.node x).parent

theorem Relocated.refl (p : NodeId) (a : Arena) : Relocated p a a [] where
  toRetagged := refl_of Retagged a
  attrs_eq m _ := by simp
  frame _ _ := rfl
  moved x d hm := by cases hm
  unmoved _ _ := rfl

theorem Relocated.retag {kind : NodeKind} (h : Relocated p a c moves)
    (hc : Changed c b n { c.node n with kind := kind }) (hk : kind.untag = (c.kind n).untag) :
    Relocated p a b moves := by
  have hattrs : ∀ m, (b.node m).attrs = (c.node m).attrs := fun m => by
    by_cases he : m = n
    · rw [he, hc.node_self]
    · rw [hc.node_ne he]
  have hparent : ∀ m, (b.node m).parent = (c.node m).parent := fun m => by
    by_cases he : m = n
    · rw [he, hc.node_self]
    · rw [hc.node_ne he]
  refine ⟨trans_of Retagged h.toRetagged (hc.retagged hk rfl rfl rfl), fun m hm => ?_, fun m hm => ?_,
    fun x d hx => ?_, fun x hx => ?_⟩
  · rw [hattrs, h.attrs_eq m hm]
  · rw [hattrs, h.frame m hm]
  · rw [hparent, h.moved x d hx]
  · rw [hparent, h.unmoved x hx]

theorem retagged_update (n : Nat) {f : Node → Node} (hkind : ∀ x : Node, (f x).kind = x.kind)
    (hname : ∀ x : Node, (f x).name = x.name) (hscript : ∀ x : Node, (f x).script = x.script)
    (hposition : ∀ x : Node, (f x).position = x.position) : Retagged c (c.update n f) := by
  rcases Nat.lt_or_ge n c.size with hn | hn
  · exact (changed_update hn f).retagged (congrArg _ (hkind _)) (hname _) (hscript _) (hposition _)
  · have hsame : c.update n f = c := ext_node (size_update ..) fun m hm => by
      rw [node_update, if_neg]
      rintro ⟨rfl, hlt⟩
      exact absurd hlt (Nat.not_lt.2 hn)
    rw [hsame]
    exact refl_of Retagged c

theorem retagged_moveAttr : Retagged c (c.moveAttr n d x) := by
  refine trans_of Retagged (b := (c.removeAttr n x).2) ?_ ?_
  · exact retagged_update n (fun _ => rfl) (fun _ => rfl) (fun _ => rfl) fun _ => rfl
  · unfold moveAttr
    rw [addAttr_eq]
    refine trans_of Retagged (b := (c.removeAttr n x).2.update d (withAttr x)) ?_ ?_
    · exact retagged_update d (fun _ => rfl) (fun _ => rfl) (fun _ => rfl) fun _ => rfl
    · exact retagged_update x (fun _ => rfl) (fun _ => rfl) (fun _ => rfl) fun _ => rfl

theorem kind_moveAttr (m : Nat) : (c.moveAttr n d x).kind m = c.kind m := by
  have hadopt : ∀ e : Arena, (e.adopt d x).kind m = e.kind m := fun e => by
    unfold kind
    rw [node_adopt]
    split <;> rfl
  have hupdate : ∀ (e : Arena) (k : Nat) (f : Node → Node), (∀ y : Node, (f y).kind = y.kind) →
      (e.update k f).kind m = e.kind m := fun e k f hf => by
    unfold kind
    rw [node_update]
    split
    · exact hf _
    · rfl
  unfold moveAttr
  rw [addAttr_eq, hadopt, hupdate _ d (withAttr x) fun _ => rfl]
  exact hupdate c n _ fun _ => rfl

theorem parent_moveAttr (hx : x < c.size) (m : Nat) :
    ((c.moveAttr n d x).node m).parent = if m = x then some d else (c.node m).parent := by
  unfold moveAttr
  rw [addAttr_eq, node_adopt]
  by_cases he : m = x
  · subst he
    rw [if_pos ⟨rfl, by simpa [removeAttr] using hx⟩, if_pos rfl]
    rfl
  · rw [if_neg fun e => he e.1, if_neg he, node_update]
    split
    all_goals
      unfold removeAttr
      rw [node_update]
      split <;> rfl

theorem attrs_removeAttr (m : Nat) : ((c.removeAttr n x).2.node m).attrs.toList =
    if m = n then (c.node m).attrs.toList.filter (· != x) else (c.node m).attrs.toList := by
  unfold removeAttr
  by_cases he : m = n
  · subst he
    rw [if_pos rfl, node_update]
    split
    · exact Array.toList_filter
    · rename_i hlt
      rw [node_of_size_le (Nat.le_of_not_lt fun hm => hlt ⟨rfl, hm⟩)]
      rfl
  · rw [if_neg he, node_update_ne he]

theorem attrs_adopt (m : Nat) : ((c.adopt d x).node m).attrs = (c.node m).attrs := by
  rw [node_adopt]
  split <;> rfl

/-- Beside the node that an attribute is moved to, only the one that it leaves has other attributes. -/
theorem attrs_moveAttr_ne (hne : m ≠ d) : ((c.moveAttr n d x).node m).attrs.toList =
    if m = n then (c.node m).attrs.toList.filter (· != x) else (c.node m).attrs.toList := by
  unfold moveAttr
  rw [addAttr_eq, attrs_adopt, node_update_ne hne, attrs_removeAttr]

/-- The node that an attribute is moved to has it, beside those that it had. -/
theorem mem_attrs_moveAttr (hd : d < c.size) (hne : d ≠ n) {y : NodeId} :
    y ∈ ((c.moveAttr n d x).node d).attrs ↔ y = x ∨ y ∈ (c.node d).attrs := by
  have hold : ((c.removeAttr n x).2.node d).attrs = (c.node d).attrs :=
    Array.toList_inj.1 ((attrs_removeAttr d).trans (if_neg hne))
  unfold moveAttr
  rw [addAttr_eq, attrs_adopt, node_update_self (by simpa [removeAttr] using hd), mem_attrs_withAttr, hold,
    or_comm]

theorem attrs_moveAttr (hd : d < c.size) (hx : d = n ∨ x ∉ (c.node d).attrs) (m : Nat) :
    ((c.moveAttr n d x).node m).attrs.toList =
      (if m = n then (c.node m).attrs.toList.filter (· != x) else (c.node m).attrs.toList) ++
        if m = d then [x] else [] := by
  by_cases he : m = d
  · subst he
    have hfree : x ∉ ((c.removeAttr n x).2.node m).attrs := by
      rw [← Array.mem_toList_iff, attrs_removeAttr]
      split
      · simp
      · rename_i hne
        rw [Array.mem_toList_iff]
        exact hx.resolve_left hne
    rw [if_pos rfl, ← attrs_removeAttr]
    unfold moveAttr
    rw [addAttr_eq, attrs_adopt, node_update_self (by simpa [removeAttr] using hd)]
    unfold withAttr
    simp [hfree]
  · rw [attrs_moveAttr_ne he, if_neg he, List.append_nil]

/-- One more attribute is moved, which is on no other node of the package. -/
theorem Relocated.move (h : Relocated p a c moves) (hn : a.home n = some p) (hd : a.home d = some p)
    (hx : x < a.size) (hfresh : x ∉ moves.map (·.1))
    (honly : ∀ m, a.home m = some p → x ∈ (a.node m).attrs → m = n) :
    Relocated p a (c.moveAttr n d x) (moves ++ [(x, d)]) := by
  have hlt : ∀ m : Nat, m < a.size → m < c.size := fun m hm => h.size_eq.symm ▸ hm
  have hnew : ∀ y d', (y, d') ∈ moves ++ [(x, d)] ↔ (y, d') ∈ moves ∨ y = x ∧ d' = d := by
    simp
  -- where the attribute is moved to, it is not there yet
  have habsent : ∀ m, a.home m = some p → m ≠ n → x ∉ (c.node m).attrs := by
    intro m hm hne hmem
    rw [← Array.mem_toList_iff, h.attrs_eq m hm, List.mem_append] at hmem
    rcases hmem with hmem | hmem
    · exact hne (honly m hm (Array.mem_toList_iff.1 (List.mem_of_mem_filter hmem)))
    · obtain ⟨move, hmove, rfl⟩ := List.mem_map.1 hmem
      exact hfresh (List.mem_map_of_mem (List.mem_of_mem_filter hmove))
  have hattrs := fun m => attrs_moveAttr (n := n) (hlt d (lt_size_of_home hd))
    (or_iff_not_imp_left.2 fun hne => habsent d hd hne) m
  refine ⟨trans_of Retagged h.toRetagged retagged_moveAttr, fun m hm => ?_, fun m hm => ?_,
    fun y d' hy => ?_, fun y hy => ?_⟩
  · have hleft : ∀ y, decide (y ∉ (moves ++ [(x, d)]).map (·.1)) =
        (decide (y ∉ moves.map (·.1)) && y != x) := fun y => by
      rw [Bool.eq_iff_iff]
      simp only [decide_eq_true_iff, Bool.and_eq_true, bne_iff_ne, List.map_append, List.mem_append,
        List.map_cons, List.map_nil, List.mem_singleton, not_or, ne_eq]
    have hmoved : ((moves ++ [(x, d)]).filter fun move => move.2 = m).map (·.1) =
        (moves.filter fun move => move.2 = m).map (·.1) ++ if m = d then [x] else [] := by
      rw [List.filter_append, List.map_append]
      by_cases he : m = d
      · simp [he]
      · simp [he, Ne.symm he]
    rw [hattrs, h.attrs_eq m hm, hmoved, ← List.append_assoc]
    congr 1
    by_cases he : m = n
    · have hkept : ∀ y ∈ (moves.filter fun move => move.2 = m).map (·.1), (y != x) = true := by
        intro y hy
        obtain ⟨move, hmove, rfl⟩ := List.mem_map.1 hy
        refine bne_iff_ne.2 fun e => hfresh ?_
        exact e ▸ List.mem_map_of_mem (List.mem_of_mem_filter hmove)
      rw [if_pos he, List.filter_append, List.filter_filter, List.filter_eq_self.2 hkept]
      congr 1
      refine List.filter_congr fun y _ => ?_
      rw [hleft, Bool.and_comm]
    · rw [if_neg he]
      congr 1
      refine List.filter_congr fun y hy => ?_
      have hne : (y != x) = true := bne_iff_ne.2 fun e =>
        he (honly m hm (e ▸ Array.mem_toList_iff.1 hy))
      rw [hleft, hne, Bool.and_true]
  · have hmn : m ≠ n := fun e => hm (e ▸ hn)
    have hmd : m ≠ d := fun e => hm (e ▸ hd)
    have he := hattrs m
    rw [if_neg hmn, if_neg hmd, List.append_nil] at he
    rw [← h.frame m hm]
    exact Array.toList_inj.1 he
  · rw [parent_moveAttr (hlt x hx)]
    rcases (hnew y d').1 hy with hold | ⟨rfl, rfl⟩
    · rw [if_neg fun e => hfresh (List.mem_map.2 ⟨(y, d'), hold, e⟩), h.moved y d' hold]
    · rw [if_pos rfl]
  · rw [List.map_append, List.mem_append, not_or] at hy
    rw [parent_moveAttr (hlt x hx), if_neg, h.unmoved y hy.1]
    rintro rfl
    exact hy.2 (List.mem_singleton_self _)

/-- What checking an attribute does: kinds stay. -/
structure Shifts (c b : Arena) : Prop extends Retagged c b where
  kind_eq : ∀ m, b.kind m = c.kind m

instance : IsPreorder Arena Shifts where
  refl c := ⟨refl_of Retagged c, fun _ => rfl⟩
  trans _ _ _ h h' := ⟨trans_of Retagged h.toRetagged h'.toRetagged, fun m =>
    (h'.kind_eq m).trans (h.kind_eq m)⟩

/-- What checking a site does: only its own node may be tagged. -/
structure Visits (n : NodeId) (c b : Arena) : Prop extends Retagged c b where
  kind_eq : ∀ m, m ≠ n → b.kind m = c.kind m

instance : IsPreorder Arena (Visits n) where
  refl c := ⟨refl_of Retagged c, fun _ _ => rfl⟩
  trans _ _ _ h h' := ⟨trans_of Retagged h.toRetagged h'.toRetagged, fun m hm =>
    (h'.kind_eq m hm).trans (h.kind_eq m hm)⟩

/-- The node is tagged by the attributes that it had in the first arena. -/
structure TaggedBy (vocabulary : Vocabulary) (a c : Arena) (n : NodeId) : Prop where
  struct : ∀ decl, c.kind n = .table decl →
    decl.isStruct = !(a.attrsOfType n vocabulary.structMarker).isEmpty
  error : ∀ decl, c.kind n = .enum decl →
    decl.isError = !(a.attrsOfType n vocabulary.errorMarker).isEmpty

theorem TaggedBy.congr (h : TaggedBy vocabulary a c n) (hk : b.kind n = c.kind n) :
    TaggedBy vocabulary a b n :=
  ⟨fun decl hd => h.struct decl (hk ▸ hd), fun decl hd => h.error decl (hk ▸ hd)⟩

/-- Tagging finds the site that counts, and changes nothing but the tag. -/
theorem Retagged.tag (h : Retagged a c) (hlt : n < c.size) (hs : a.SiteOf n site)
    (hattrs : (a.kind n).level = 6 → (c.node n).attrs = (a.node n).attrs) :
    ∃ site' b kind, Link.tag vocabulary n site c = .ok site' b ∧
      Changed c b n { c.node n with kind := kind } ∧ kind.untag = (c.kind n).untag ∧
      a.StandsAt vocabulary n site' ∧ TaggedBy vocabulary a b n := by
  have hmarked : (a.kind n).level = 6 → ∀ type, c.attrsOfType n type = a.attrsOfType n type :=
    fun hl type => by
      unfold attrsOfType
      simp only [hattrs hl, h.sameBelow.attrType]
  have hkind : ∀ {b : Arena} {kind : NodeKind}, Changed c b n { c.node n with kind := kind } →
      b.kind n = kind := fun hc => congrArg Node.kind hc.node_self
  have hshape := h.shape n
  have hstands : site ≠ .table → a.StandsAt vocabulary n site := fun hne =>
    ⟨site, hs, by rw [if_neg fun e => hne e.1]⟩
  cases hs with
  | table hk =>
    rw [hk] at hshape
    have hmarks := hmarked (by rw [hk]; rfl) vocabulary.structMarker
    obtain ⟨⟨fields, old⟩, hkc⟩ := NodeKind.table_of_ctorIdx hshape
    have hc : Changed c (c.setStruct n !(c.attrsOfType n vocabulary.structMarker).isEmpty) n
        { c.node n with kind := .table ⟨fields, !(c.attrsOfType n vocabulary.structMarker).isEmpty⟩ } :=
      changed_kind hlt hkc rfl
    refine ⟨_, _, _, rfl, hc, by rw [hkc]; rfl, ⟨.table, .table hk, ?_⟩, fun decl hd => ?_,
      fun decl hd => ?_⟩
    · rw [hmarks]
      cases a.attrsOfType n vocabulary.structMarker <;> simp
    · rw [hkind hc] at hd
      cases hd
      rw [hmarks]
    · rw [hkind hc] at hd
      cases hd
  | enum hk =>
    rw [hk] at hshape
    have hmarks := hmarked (by rw [hk]; rfl) vocabulary.errorMarker
    obtain ⟨⟨base, values, default, old⟩, hkc⟩ := NodeKind.enum_of_ctorIdx hshape
    have hc : Changed c (c.setError n !(c.attrsOfType n vocabulary.errorMarker).isEmpty) n
        { c.node n with kind := .enum ⟨base, values, default,
          !(c.attrsOfType n vocabulary.errorMarker).isEmpty⟩ } :=
      changed_kind hlt hkc rfl
    refine ⟨_, _, _, rfl, hc, by rw [hkc]; rfl, hstands nofun, fun decl hd => ?_, fun decl hd => ?_⟩
    · rw [hkind hc] at hd
      cases hd
    · rw [hkind hc] at hd
      cases hd
      rw [hmarks]
  | script hk | enumValue hk | field hk | contract hk | method hk | param hk | result hk =>
    -- the other nodes have no tag
    have hsame : Changed c c n { c.node n with kind := c.kind n } :=
      ⟨rfl, fun m => by
        split
        · rename_i he
          rw [he]
          rfl
        · rfl⟩
    refine ⟨_, c, _, rfl, hsame, rfl, hstands nofun, fun decl hd => ?_, fun decl hd => ?_⟩
    all_goals
      rw [hk, hd] at hshape
      cases hshape

/-! ## The invariant of the pass -/

/-- The pass between two attributes: those of `pending` are still to be checked, and every other one
is where it goes. -/
structure Sorts (vocabulary : Vocabulary) (package : NodeId) (a c : Arena) (pending : List NodeId)
    (moves : List (NodeId × NodeId)) : Prop extends Relocated package a c moves where
  once : (moves.map (·.1)).Nodup
  distinct : pending.Nodup
  fresh : ∀ x ∈ pending, x ∉ moves.map (·.1)
  sound : ∀ x d, (x, d) ∈ moves → ∃ n, a.home n = some package ∧ x ∈ (a.node n).attrs ∧
    a.Destined vocabulary package n x d ∧ d ≠ n
  settled : ∀ n x, a.home n = some package → x ∈ (a.node n).attrs → x ∈ pending ∨
    ∃ d, a.Destined vocabulary package n x d ∧ (d = n ∨ (x, d) ∈ moves)
  masked : ∀ n x, a.home n = some package → x ∈ (a.node n).attrs → x ∈ pending ∨
    ∃ mask, a.usageMask vocabulary x = .ok mask

namespace Sorts

/-- No attribute is moved to a table. -/
theorem not_moved_to (hl : Laid p a) (h : Sorts vocabulary p a c pending moves)
    (hlevel : (a.kind d).level = 6) : (x, d) ∉ moves := by
  intro hx
  obtain ⟨n, hn, -, hd, hne⟩ := h.sound x d hx
  have := (hl.destined_above hn hd hne).2.1
  omega

/-- An attribute that may stay where it stands is not moved. -/
theorem fresh_of_permits (hl : Laid p a) (h : Sorts vocabulary p a c pending moves)
    (hn : a.home n = some p) (hx : x ∈ (a.node n).attrs)
    (hp : ∀ site mask, a.StandsAt vocabulary n site → a.HasMask vocabulary x mask →
      vocabulary.permits mask site = true) : x ∉ moves.map (·.1) := by
  intro hmoved
  obtain ⟨⟨y, d⟩, hmem, rfl⟩ := List.mem_map.1 hmoved
  obtain ⟨m, hm, hy, ⟨site, mask, hsite, hmask, hg⟩, hne⟩ := h.sound y d hmem
  have he : m = n := hl.attrs_unique hm hn hy hx
  subst he
  have hpermits := hp site mask hsite hmask
  cases hg with
  | stays => exact hne rfl
  | toScript hnot => exact absurd (hpermits.symm.trans hnot) nofun
  | toPackage hnot => exact absurd (hpermits.symm.trans hnot) nofun

/-- A usage declaration on a table stays there. -/
theorem usage_fresh (hl : Laid p a) (hu : a.UsageStays vocabulary)
    (h : Sorts vocabulary p a c pending moves) {decl : Table} (hn : a.home n = some p)
    (hk : a.kind n = .table decl) (hx : x ∈ (a.node n).attrs)
    (hattr : a.attrType x = some vocabulary.usage) : x ∉ moves.map (·.1) := by
  refine h.fresh_of_permits hl hn hx ?_
  rintro _ mask ⟨base, hsite, rfl⟩ ⟨type, htype, hmask⟩
  cases hl.site_unique hn hsite (.table hk)
  cases Option.some.inj (htype.symm.trans hattr)
  obtain ⟨mask', hmask', htable, hstruct⟩ := hu
  cases hmask.unique hmask'
  split
  · exact hstruct
  · exact htable

/-- The attributes of a type on a declaration are the same where none of them is moved. -/
theorem attrsOfType_eq (hl : Laid p a) (h : Sorts vocabulary p a c pending moves)
    (hlevel : (a.kind n).level = 6) (type : NodeId)
    (hfresh : a.home n = some p → ∀ x ∈ (a.node n).attrs, a.attrType x = some type →
      x ∉ moves.map (·.1)) : c.attrsOfType n type = a.attrsOfType n type := by
  unfold attrsOfType
  simp only [h.toRetagged.sameBelow.attrType]
  by_cases hhome : a.home n = some p
  · have hnone : moves.filter (fun move => move.2 = n) = [] := by
      refine List.filter_eq_nil_iff.2 fun move hmove he => ?_
      obtain ⟨x, d⟩ := move
      have hd : d = n := of_decide_eq_true he
      exact h.not_moved_to hl (hd ▸ hlevel) hmove
    rw [h.attrs_eq n hhome, hnone, List.map_nil, List.append_nil, List.filter_filter]
    refine List.filter_congr fun x hx => ?_
    by_cases hattr : a.attrType x = some type
    · rw [decide_eq_true (hfresh hhome x (Array.mem_toList_iff.1 hx) hattr), Bool.and_true]
    · have hfalse : (a.attrType x == some type) = false := by simpa using hattr
      rw [hfalse, Bool.false_and]
  · rw [h.frame n hhome]

/-- The masks are the same all along. -/
theorem usageMask_eq (hl : Laid p a) (hu : a.UsageStays vocabulary)
    (h : Sorts vocabulary p a c pending moves) (attr : NodeId) :
    c.usageMask vocabulary attr = a.usageMask vocabulary attr := by
  refine h.toRetagged.sameBelow.usageMask fun type htable => ?_
  obtain ⟨decl, hd⟩ := Option.isSome_iff_exists.1 htable
  rw [table?_eq_some] at hd
  exact h.attrsOfType_eq hl (by rw [hd]; rfl) vocabulary.usage fun hn x hx hattr =>
    h.usage_fresh hl hu hn hd hx hattr

/-- Checking an attribute. -/
theorem leads_placeAttr (hl : Laid p a) (hu : a.UsageStays vocabulary)
    (h : Sorts vocabulary p a c (x :: pending) moves) (hn : a.home n = some p)
    (hx : x ∈ (a.node n).attrs) (hs : a.StandsAt vocabulary n site) :
    Leads Shifts (Link.placeAttr vocabulary n site x) c
      fun _ b => ∃ moves', Sorts vocabulary p a b pending moves' := by
  have honly : ∀ m, a.home m = some p → x ∈ (a.node m).attrs → m = n := fun m hm hxm =>
    hl.attrs_unique hm hn hxm hx
  obtain ⟨hnot, hdistinct⟩ := List.nodup_cons.1 h.distinct
  rcases Link.placeAttr_cases vocabulary n site x c with ⟨failure, hrun⟩ | ⟨mask, hmask, hcases⟩
  · exact .of_error hrun (refl c)
  rw [h.usageMask_eq hl hu] at hmask
  have hhas := hasMask_of_usageMask hmask
  have hmasked : ∀ m y, a.home m = some p → y ∈ (a.node m).attrs → y ∈ pending ∨
      ∃ mask, a.usageMask vocabulary y = .ok mask := by
    intro m y hm hy
    rcases h.masked m y hm hy with hpending | hdone
    · rcases List.mem_cons.1 hpending with rfl | hpending
      · exact Or.inr ⟨mask, hmask⟩
      · exact Or.inl hpending
    · exact Or.inr hdone
  rcases hcases with ⟨hp, hrun⟩ | ⟨hp, d, hd, hrun⟩
  · refine .of_ok hrun (refl c) ⟨moves, h.toRelocated, h.once, hdistinct,
      fun y hy => h.fresh y (List.mem_cons_of_mem _ hy), h.sound, fun m y hm hy => ?_, hmasked⟩
    rcases h.settled m y hm hy with hpending | hdone
    · rcases List.mem_cons.1 hpending with rfl | hpending
      · cases honly m hm hy
        exact Or.inr ⟨n, ⟨site, mask, hs, hhas, .stays hp⟩, Or.inl rfl⟩
      · exact Or.inl hpending
    · exact Or.inr hdone
  · have hg := goes_of_destination? h.toRetagged hn hp hd
    have hdestined : a.Destined vocabulary p n x d := ⟨site, mask, hs, hhas, hg⟩
    have hne := hl.goes_ne hn hs hg hp
    have hfresh := h.fresh x (List.mem_cons_self ..)
    have hsize : x < a.size := hl.descends.lt_size x
      (hl.descends.down n x hn (List.mem_append_left _ (Array.mem_toList_iff.2 hx))).1
    have hhome := (hl.destined_above hn hdestined hne).1
    have hmove := h.toRelocated.move hn hhome hsize hfresh honly
    refine .of_ok hrun ⟨retagged_moveAttr, kind_moveAttr⟩
      ⟨moves ++ [(x, d)], hmove, ?_, hdistinct, ?_, ?_, ?_, hmasked⟩
    · rw [List.map_append, List.map_singleton, List.nodup_append]
      refine ⟨h.once, List.nodup_singleton x, fun y hy z hz e => ?_⟩
      have he : y = x := e.trans (List.mem_singleton.1 hz)
      exact hfresh (he ▸ hy)
    · intro y hy hmem
      rw [List.map_append, List.mem_append] at hmem
      rcases hmem with hmem | hmem
      · exact h.fresh y (List.mem_cons_of_mem _ hy) hmem
      · have he : y = x := List.mem_singleton.1 hmem
        exact hnot (he ▸ hy)
    · intro y d' hy
      rcases List.mem_append.1 hy with hy | hy
      · exact h.sound y d' hy
      · cases List.mem_singleton.1 hy
        exact ⟨n, hn, hx, hdestined, hne⟩
    · intro m y hm hy
      rcases h.settled m y hm hy with hpending | ⟨d', hd', hdone⟩
      · rcases List.mem_cons.1 hpending with rfl | hpending
        · cases honly m hm hy
          exact Or.inr ⟨d, hdestined, Or.inr (List.mem_append_right _ (List.mem_singleton_self _))⟩
        · exact Or.inl hpending
      · exact Or.inr ⟨d', hd', hdone.imp id (List.mem_append_left _)⟩

/-- Before the attributes of a node are checked, they are as they were at first. -/
theorem attrs_eq_of_ahead (hl : Laid p a) {done rest : List (NodeId × Site)}
    (hsites : a.sites p = done ++ rest) {base : Site} (hmem : (n, base) ∈ rest)
    (h : Sorts vocabulary p a c (rest.flatMap fun entry => (a.node entry.1).attrs.toList) moves) :
    (c.node n).attrs = (a.node n).attrs := by
  obtain ⟨hn, -⟩ := hl.mem_sites_iff.1 (hsites ▸ List.mem_append_right done hmem)
  have hahead : ∀ m x, (m, x) ∈ rest → ∀ y ∈ (a.node m).attrs, y ∈
      rest.flatMap fun entry => (a.node entry.1).attrs.toList := fun m x hm y hy =>
    List.mem_flatMap.2 ⟨(m, x), hm, Array.mem_toList_iff.2 hy⟩
  have hkept : ∀ y ∈ (a.node n).attrs.toList, decide (y ∉ moves.map (·.1)) = true := fun y hy =>
    decide_eq_true (h.fresh y (hahead n base hmem y (Array.mem_toList_iff.1 hy)))
  -- what is moved to a node comes from below it, so the node comes first
  have hnone : moves.filter (fun move => move.2 = n) = [] := by
    refine List.filter_eq_nil_iff.2 fun move hmove he => ?_
    obtain ⟨y, d⟩ := move
    have hd : d = n := of_decide_eq_true he
    subst hd
    obtain ⟨m, hm, hy, hdestined, hne⟩ := h.sound y d hmove
    have hreach := (hl.destined_above hm hdestined hne).2.2
    obtain ⟨site, hsite⟩ := hl.exists_site hm (hl.dressed m y hm hy)
    have hentry := hl.mem_sites_iff.2 ⟨hm, hsite⟩
    rw [hsites] at hentry
    rcases List.mem_append.1 hentry with hentry | hentry
    · have hpairwise := hl.pairwise_sites
      rw [hsites] at hpairwise
      exact (List.pairwise_append.1 hpairwise).2.2 _ hentry _ hmem hreach
    · exact h.fresh y (hahead m site hentry y hy) (List.mem_map.2 ⟨(y, d), hmove, rfl⟩)
  have heq := h.attrs_eq n hn
  rw [hnone, List.map_nil, List.append_nil, List.filter_eq_self.2 hkept] at heq
  exact Array.toList_inj.1 heq

theorem retag {kind : NodeKind} (h : Sorts vocabulary p a c pending moves)
    (hc : Changed c b n { c.node n with kind := kind }) (hk : kind.untag = (c.kind n).untag) :
    Sorts vocabulary p a b pending moves :=
  ⟨h.toRelocated.retag hc hk, h.once, h.distinct, h.fresh, h.sound, h.settled, h.masked⟩

/-- Tagging moves nothing. -/
theorem leads_tag (h : Sorts vocabulary p a c pending moves) (hn : a.home n = some p)
    (hs : a.SiteOf n site) (hattrs : (c.node n).attrs = (a.node n).attrs) :
    Leads (Visits n) (Link.tag vocabulary n site) c fun site' b => a.StandsAt vocabulary n site' ∧
      (b.node n).attrs = (a.node n).attrs ∧ TaggedBy vocabulary a b n ∧
        Sorts vocabulary p a b pending moves := by
  obtain ⟨site', b, kind, hrun, hc, hk, hstands, htagged⟩ := h.toRetagged.tag
    (h.size_eq.symm ▸ lt_size_of_home hn) hs fun _ => hattrs
  refine .of_ok hrun ⟨hc.retagged hk rfl rfl rfl, fun m hm => ?_⟩
    ⟨hstands, by rw [hc.node_self, ← hattrs], htagged, h.retag hc hk⟩
  unfold Arena.kind
  rw [hc.node_ne hm]

/-- Checking the attributes of one site. -/
theorem leads_placeSite (hl : Laid p a) (hu : a.UsageStays vocabulary)
    {done rest : List (NodeId × Site)} {entry : NodeId × Site}
    (hsites : a.sites p = done ++ entry :: rest)
    (h : Sorts vocabulary p a c
      ((entry :: rest).flatMap fun entry => (a.node entry.1).attrs.toList) moves) :
    Leads (Visits entry.1) (Link.placeSite vocabulary entry) c fun _ b =>
      TaggedBy vocabulary a b entry.1 ∧ ∃ moves', Sorts vocabulary p a b
        (rest.flatMap fun entry => (a.node entry.1).attrs.toList) moves' := by
  obtain ⟨n, base⟩ := entry
  have hattrs := h.attrs_eq_of_ahead hl hsites (List.mem_cons_self ..)
  obtain ⟨hn, hbase⟩ := hl.mem_sites_iff.1
    (hsites ▸ List.mem_append_right done (List.mem_cons_self ..))
  refine (h.leads_tag hn hbase hattrs).bind fun site b _ ⟨hs, hb, htagged, hsorts⟩ => ?_
  have hloop : Leads Shifts ((a.node n).attrs.toList.forM (Link.placeAttr vocabulary n site)) b
      fun _ b => ∃ moves', Sorts vocabulary p a b
        ([] ++ rest.flatMap fun entry => (a.node entry.1).attrs.toList) moves' := by
    refine (Leads.forM (I := fun pending e => (∀ x ∈ pending, x ∈ (a.node n).attrs) ∧
      ∃ moves', Sorts vocabulary p a e
        (pending ++ rest.flatMap fun entry => (a.node entry.1).attrs.toList) moves') ?_ _ b
      ⟨fun x hx => Array.mem_toList_iff.1 hx, moves, hsorts⟩).mono fun _ _ _ hend => hend.2
    intro x pending e ⟨hmem, moves', he⟩
    exact (he.leads_placeAttr hl hu hn (hmem x (List.mem_cons_self ..)) hs).mono
      fun _ _ _ hend => ⟨fun y hy => hmem y (List.mem_cons_of_mem _ hy), hend⟩
  rw [List.nil_append] at hloop
  refine .follow (by rw [hb]) (refl b) ((hloop.mono fun _ e hr hend => ?_).weaken fun e hr =>
    ⟨hr.toRetagged, fun m _ => hr.kind_eq m⟩)
  exact ⟨htagged.congr (hr.kind_eq n), hend⟩

/-- Before the first site all attributes are still to be checked. -/
theorem start (hl : Laid p a) (vocabulary : Vocabulary) : Sorts vocabulary p a a
    ((a.sites p).flatMap fun entry => (a.node entry.1).attrs.toList) [] where
  toRelocated := .refl p a
  once := List.nodup_nil
  distinct := by
    refine List.nodup_flatMap.2 ⟨fun entry he => ?_, ?_⟩
    · exact hl.nodup_attrs (hl.mem_sites_iff.1 he).1
    · refine (List.pairwise_map.1 hl.nodup_sites).imp_of_mem fun {e e'} he he' hne x hx hx' => ?_
      exact hne (hl.attrs_unique (hl.mem_sites_iff.1 he).1 (hl.mem_sites_iff.1 he').1
        (Array.mem_toList_iff.1 hx) (Array.mem_toList_iff.1 hx'))
  fresh _ _ := List.not_mem_nil
  sound x d hx := by cases hx
  settled n x hn hx := by
    obtain ⟨site, hs⟩ := hl.exists_site hn (hl.dressed n x hn hx)
    exact Or.inl (List.mem_flatMap.2 ⟨(n, site), hl.mem_sites_iff.2 ⟨hn, hs⟩,
      Array.mem_toList_iff.2 hx⟩)
  masked n x hn hx := by
    obtain ⟨site, hs⟩ := hl.exists_site hn (hl.dressed n x hn hx)
    exact Or.inl (List.mem_flatMap.2 ⟨(n, site), hl.mem_sites_iff.2 ⟨hn, hs⟩,
      Array.mem_toList_iff.2 hx⟩)

/-- Checking the attributes of all sites. -/
theorem leads_placeSites (hl : Laid p a) (hu : a.UsageStays vocabulary) :
    Leads Retagged ((a.sites p).forM (Link.placeSite vocabulary)) a
      fun _ b => (∀ entry ∈ a.sites p, TaggedBy vocabulary a b entry.1) ∧
        ∃ moves, Sorts vocabulary p a b [] moves := by
  refine (Leads.forM (I := fun rest c => ∃ done moves, a.sites p = done ++ rest ∧
    (∀ entry ∈ done, TaggedBy vocabulary a c entry.1) ∧
    Sorts vocabulary p a c (rest.flatMap fun entry => (a.node entry.1).attrs.toList) moves)
      ?_ _ a ⟨[], [], rfl, fun _ he => (by cases he), start hl vocabulary⟩).mono
        fun _ _ _ ⟨done, moves, hsites, htagged, hend⟩ => ⟨?_, moves, hend⟩
  · intro entry rest c ⟨done, moves, hsites, htagged, h⟩
    refine ((h.leads_placeSite hl hu hsites).mono fun _ b hr ⟨hentry, moves', hend⟩ =>
      ⟨done ++ [entry], moves', ?_, fun e he => ?_, hend⟩).weaken fun _ hr => hr.toRetagged
    · rw [hsites, List.append_assoc, List.singleton_append]
    · rcases List.mem_append.1 he with he | he
      · -- no node has two sites, so the tags that were set before stay
        refine (htagged e he).congr (hr.kind_eq e.1 fun heq => ?_)
        have hnodup := hl.nodup_sites
        rw [hsites, List.map_append, List.nodup_append] at hnodup
        exact hnodup.2.2 e.1 (List.mem_map_of_mem he) entry.1 (List.mem_cons_self ..) heq
      · rw [List.mem_singleton.1 he]
        exact hentry
  · rw [hsites, List.append_nil]
    exact htagged

/-! ## The end of the pass -/

section

variable (hl : Laid p a) (h : Sorts vocabulary p a b [] moves)

include hl h

theorem unmoved_of_stays (hn : a.home n = some p) (hx : x ∈ (a.node n).attrs)
    (hd : a.Destined vocabulary p n x n) : x ∉ moves.map (·.1) := by
  intro hmem
  obtain ⟨⟨y, d⟩, hmove, rfl⟩ := List.mem_map.1 hmem
  obtain ⟨m, hm, hy, hd', hne⟩ := h.sound y d hmove
  cases hl.attrs_unique hm hn hy hx
  exact hne (hl.destined_unique hn hd' hd)

theorem nodup_attrs (hn : a.home n = some p) : (b.node n).attrs.toList.Nodup := by
  rw [h.attrs_eq n hn, List.nodup_append]
  refine ⟨(hl.nodup_attrs hn).filter _, ?_, fun x hx y hy e => ?_⟩
  · exact h.once.sublist (List.filter_sublist.map _)
  · have hfresh := of_decide_eq_true (List.mem_filter.1 hx).2
    obtain ⟨move, hmove, rfl⟩ := List.mem_map.1 hy
    exact hfresh (e ▸ List.mem_map_of_mem (List.mem_of_mem_filter hmove))

omit hl in
theorem mem_attrs_iff (hn : a.home n = some p) : x ∈ (b.node n).attrs ↔
    x ∈ (a.node n).attrs ∧ x ∉ moves.map (·.1) ∨ (x, n) ∈ moves := by
  rw [← Array.mem_toList_iff, h.attrs_eq n hn, List.mem_append, List.mem_filter]
  refine or_congr (and_congr Array.mem_toList_iff decide_eq_true_iff)
    (List.mem_map.trans ⟨?_, fun hx => ?_⟩)
  · rintro ⟨⟨y, d⟩, hmove, rfl⟩
    have hd : d = n := of_decide_eq_true (List.mem_filter.1 hmove).2
    exact hd ▸ List.mem_of_mem_filter hmove
  · exact ⟨(x, n), List.mem_filter.2 ⟨hx, decide_eq_true rfl⟩, rfl⟩

/-- Every attribute is where it goes, and nowhere else. -/
theorem attached (hn : a.home n = some p) (hx : x ∈ (a.node n).attrs) :
    ∃ d, a.Destined vocabulary p n x d ∧ b.Attached p x d := by
  rcases h.settled n x hn hx with hpending | ⟨d, hd, hplace⟩
  · cases hpending
  have hattached : a.home d = some p → (b.node x).parent = some d →
      (∀ m, a.home m = some p → (x ∈ (b.node m).attrs ↔ m = d)) → b.Attached p x d :=
    fun hhome hparent hmem => ⟨(h.home_eq d).trans hhome, hparent,
      List.count_eq_one_of_mem (h.nodup_attrs hl hhome)
        (Array.mem_toList_iff.2 ((hmem d hhome).2 rfl)),
      fun m hm => (hmem m ((h.home_eq m).symm.trans hm)).1⟩
  refine ⟨d, hd, ?_⟩
  rcases hplace with rfl | hmove
  · have hunmoved := h.unmoved_of_stays hl hn hx hd
    refine hattached hn ?_ fun m hm => ?_
    · rw [h.unmoved x hunmoved]
      exact hl.tied d x hn (List.mem_append_left _ (Array.mem_toList_iff.2 hx))
    · rw [h.mem_attrs_iff hm]
      refine ⟨?_, fun e => Or.inl ⟨e ▸ hx, hunmoved⟩⟩
      rintro (⟨hxm, -⟩ | hmove)
      · exact hl.attrs_unique hm hn hxm hx
      · exact absurd (List.mem_map.2 ⟨(x, m), hmove, rfl⟩) hunmoved
  · obtain ⟨k, hk, hxk, hdk, hne⟩ := h.sound x d hmove
    refine hattached (hl.destined_above hk hdk hne).1 (h.moved x d hmove) fun m hm => ?_
    rw [h.mem_attrs_iff hm]
    refine ⟨?_, fun e => Or.inr (e ▸ hmove)⟩
    rintro (⟨-, hunmoved⟩ | hmove')
    · exact absurd (List.mem_map.2 ⟨(x, d), hmove, rfl⟩) hunmoved
    · exact (Prod.mk.inj (List.inj_on_of_nodup_map h.once hmove' hmove rfl)).2

omit hl in
/-- No attribute comes from anywhere else. -/
theorem mem_attrs (hn : a.home n = some p) (hx : x ∈ (b.node n).attrs) :
    ∃ m, a.home m = some p ∧ x ∈ (a.node m).attrs := by
  rcases (h.mem_attrs_iff hn).1 hx with ⟨hx, -⟩ | hmove
  · exact ⟨n, hn, hx⟩
  · obtain ⟨m, hm, hx, -⟩ := h.sound x n hmove
    exact ⟨m, hm, hx⟩

/-- The attributes of a node that stay there keep their order. -/
theorem order (hn : a.home n = some p) :
    ((b.node n).attrs.toList.filter fun x => x ∈ (a.node n).attrs) =
      (a.node n).attrs.toList.filter fun x => x ∈ (b.node n).attrs := by
  -- what is moved to a node was not on it
  have hleave : ∀ x, x ∈ (a.node n).attrs → (x, n) ∉ moves := by
    intro x hx hmove
    obtain ⟨m, hm, hx', -, hne⟩ := h.sound x n hmove
    exact hne (hl.attrs_unique hn hm hx hx')
  have hmoved : (((moves.filter fun move => move.2 = n).map (·.1)).filter
      fun x => decide (x ∈ (a.node n).attrs)) = [] := by
    refine List.filter_eq_nil_iff.2 fun x hx hold => ?_
    obtain ⟨⟨y, d⟩, hmove, rfl⟩ := List.mem_map.1 hx
    have hd : d = n := of_decide_eq_true (List.mem_filter.1 hmove).2
    exact hleave y (of_decide_eq_true hold) (hd ▸ List.mem_of_mem_filter hmove)
  rw [h.attrs_eq n hn, List.filter_append, hmoved, List.append_nil, List.filter_filter]
  refine List.filter_congr fun x hx => ?_
  rw [Array.mem_toList_iff] at hx
  rw [decide_eq_true hx, Bool.true_and, decide_eq_decide, h.mem_attrs_iff hn]
  exact ⟨fun hunmoved => Or.inl ⟨hx, hunmoved⟩,
    fun hmem => hmem.elim And.right fun hmove => absurd hmove (hleave x hx)⟩

end

end Sorts

/-! ## The pass -/

/-- Placing the attributes of the package is right: where it succeeds every attribute is where it
goes, there is no other one, and those that stay on a node keep their order; where an attribute goes
nowhere it fails. -/
structure PlacesExactly (a : Arena) (package builtin : NodeId) : Prop where
  attached : ∀ b, Link.placeAttributes package builtin a = .ok () b → ∀ n attr,
    a.home n = some package → attr ∈ (a.node n).attrs → ∃ vocabulary d,
      Vocabulary.ofPackage a builtin = .ok vocabulary ∧ a.Destined vocabulary package n attr d ∧
        b.Attached package attr d
  known : ∀ b, Link.placeAttributes package builtin a = .ok () b → ∀ n attr,
    b.home n = some package → attr ∈ (b.node n).attrs →
      ∃ m, a.home m = some package ∧ attr ∈ (a.node m).attrs
  order : ∀ b, Link.placeAttributes package builtin a = .ok () b → ∀ n, a.home n = some package →
    ((b.node n).attrs.toList.filter fun attr => attr ∈ (a.node n).attrs) =
      (a.node n).attrs.toList.filter fun attr => attr ∈ (b.node n).attrs
  fails : ∀ n attr, a.home n = some package → attr ∈ (a.node n).attrs →
    (∀ vocabulary d, Vocabulary.ofPackage a builtin = .ok vocabulary →
      ¬ a.Destined vocabulary package n attr d) →
    ∃ failure b, Link.placeAttributes package builtin a = .error failure b

/-- A package without scripts is alone. -/
theorem Laid.eq_of_no_scripts (h : Laid p a)
    (hnone : ∀ decl, a.kind p = .package decl → decl.scripts.values = [])
    (hn : a.home n = some p) : n = p := by
  obtain ⟨decl, hd⟩ := h.isPackage
  refine (h.below n hn).resolve_right fun ⟨s, _, _, hc, _⟩ => ?_
  rcases List.mem_append.1 hc with hc | hc
  · have hcarries := h.dressed p s h.home_package (Array.mem_toList_iff.1 hc)
    rw [hd] at hcarries
    cases hcarries
  · have hparts : s ∈ (a.kind p).parts := hc
    rw [hd] at hparts
    have hmem : s ∈ decl.scripts.values := hparts
    rw [hnone decl hd] at hmem
    cases hmem

/-- A package without scripts has no attributes. -/
theorem Laid.attrs_of_no_scripts (h : Laid p a)
    (hnone : ∀ decl, a.kind p = .package decl → decl.scripts.values = [])
    (hn : a.home n = some p) : x ∉ (a.node n).attrs := by
  intro hx
  obtain ⟨decl, hd⟩ := h.isPackage
  have hcarries := h.dressed n x hn hx
  rw [h.eq_of_no_scripts hnone hn, hd] at hcarries
  cases hcarries

theorem Laid.placesExactly (h : Laid p a) (builtin : NodeId)
    (hu : ∀ vocabulary, Vocabulary.ofPackage a builtin = .ok vocabulary →
      a.UsageStays vocabulary) : a.PlacesExactly p builtin := by
  -- where the pass succeeds, either there is nothing to do or it went through all sites
  have hend : ∀ b, Link.placeAttributes p builtin a = .ok () b →
      b = a ∧ (∀ n attr, a.home n = some p → attr ∉ (a.node n).attrs) ∨
        ∃ vocabulary moves, Vocabulary.ofPackage a builtin = .ok vocabulary ∧
          Sorts vocabulary p a b [] moves := by
    intro b hb
    rcases Link.placeAttributes_cases p builtin a with
      ⟨hrun, hnone⟩ | ⟨failure, -, -, hrun⟩ | ⟨vocabulary, hv, hrun⟩
    · rw [hrun] at hb
      cases hb
      exact Or.inl ⟨rfl, fun n attr hn => h.attrs_of_no_scripts hnone hn⟩
    · rw [hrun] at hb
      cases hb
    · rw [hrun] at hb
      obtain ⟨-, -, moves, hsorts⟩ := (Sorts.leads_placeSites h (hu vocabulary hv)).ok hb
      exact Or.inr ⟨vocabulary, moves, hv, hsorts⟩
  have hattached : ∀ b, Link.placeAttributes p builtin a = .ok () b → ∀ n attr,
      a.home n = some p → attr ∈ (a.node n).attrs → ∃ vocabulary d,
        Vocabulary.ofPackage a builtin = .ok vocabulary ∧ a.Destined vocabulary p n attr d ∧
          b.Attached p attr d := by
    intro b hb n attr hn hx
    rcases hend b hb with ⟨-, hnone⟩ | ⟨vocabulary, moves, hv, hsorts⟩
    · exact absurd hx (hnone n attr hn)
    · obtain ⟨d, hd⟩ := hsorts.attached h hn hx
      exact ⟨vocabulary, d, hv, hd⟩
  refine ⟨hattached, fun b hb n attr hn hx => ?_, fun b hb n hn => ?_, fun n attr hn hx hnot => ?_⟩
  · rcases hend b hb with ⟨rfl, -⟩ | ⟨vocabulary, moves, -, hsorts⟩
    · exact ⟨n, hn, hx⟩
    · exact hsorts.mem_attrs ((hsorts.home_eq n).symm.trans hn) hx
  · rcases hend b hb with ⟨rfl, -⟩ | ⟨vocabulary, moves, -, hsorts⟩
    · rfl
    · exact hsorts.order h hn
  · cases hrun : Link.placeAttributes p builtin a with
    | error failure b => exact ⟨failure, b, rfl⟩
    | ok u b =>
      obtain ⟨vocabulary, d, hv, hd, -⟩ := hattached b hrun n attr hn hx
      exact absurd hd (hnot vocabulary d hv)

end Arena

end SchemaLang
