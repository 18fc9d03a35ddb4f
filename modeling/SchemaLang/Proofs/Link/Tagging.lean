import SchemaLang.Proofs.Link.Passes

/-!
# Tags and markers

While the second pass of linking goes through the sites of a package, it tags tables and enums by the
markers on them. The same visit may move a marker away, where the usage declaration of the marker
does not permit the site; the tag stays then. The usage declarations may be moved as well, so that the
masks change on the way.

Nothing is assumed of the built-in package here. A node below a script loses attributes while it is
visited and at no other time (`Sheds`), and what becomes of each of them is decided by the mask that is
found at that time (`Visited`). The usage declarations on a table all have one mask, so that either all
of them stay or none does (`Visited.usage`). A marker that has a mask in the end had it all along.

* `TagAgrees`: a tag agrees with the marker that it stands for.
* `Laid.tagsAgree`: after the pass all tags of the package agree with their markers.
-/

namespace SchemaLang.Arena

variable {a b c f : Arena} {d m n p type x : Nat} {site base : Site} {mask : Int64}
  {vocabulary : Vocabulary} {visited visited' : NodeId → Prop}

/-! ## What the pass does to attributes -/

/-- Attributes leave none but the nodes that are visited, for scripts or packages; no other node is
tagged, and nothing but attributes gets another parent. -/
structure Sheds (visited : NodeId → Prop) (a c : Arena) : Prop extends Retagged a c where
  sublist : ∀ n, (a.kind n).level < 7 → (c.node n).attrs.toList.Sublist (a.node n).attrs.toList
  attrs_eq : ∀ n, (a.kind n).level < 7 → ¬ visited n → (c.node n).attrs = (a.node n).attrs
  stays : ∀ n, ¬ visited n → ∀ x ∈ (a.node n).attrs, x ∈ (c.node n).attrs
  kind_eq : ∀ n, ¬ visited n → c.kind n = a.kind n
  parent_eq : ∀ n, a.attr? n = none → (c.node n).parent = (a.node n).parent

instance : IsPreorder Arena (Sheds visited) where
  refl a := ⟨refl_of Retagged a, fun _ _ => .refl _, fun _ _ _ => rfl, fun _ _ _ hx => hx,
    fun _ _ => rfl, fun _ _ => rfl⟩
  trans a b c h h' := by
    refine ⟨trans_of Retagged h.toRetagged h'.toRetagged, fun n hn => ?_, fun n hn hv => ?_,
      fun n hv x hx => h'.stays n hv x (h.stays n hv x hx),
      fun n hv => (h'.kind_eq n hv).trans (h.kind_eq n hv), fun n hn =>
        (h'.parent_eq n (h.toRetagged.sameBelow.attr?.trans hn)).trans (h.parent_eq n hn)⟩
    · exact (h'.sublist n (h.level_eq ▸ hn)).trans (h.sublist n hn)
    · exact (h'.attrs_eq n (h.level_eq ▸ hn) hv).trans (h.attrs_eq n hn hv)

theorem Sheds.mono (h : Sheds visited a c) (hv : ∀ n, visited n → visited' n) :
    Sheds visited' a c where
  toRetagged := h.toRetagged
  sublist := h.sublist
  attrs_eq n hn hnot := h.attrs_eq n hn fun e => hnot (hv n e)
  stays n hnot := h.stays n fun e => hnot (hv n e)
  kind_eq n hnot := h.kind_eq n fun e => hnot (hv n e)
  parent_eq := h.parent_eq

/-- Any part of the pass. -/
abbrev Thins : Arena → Arena → Prop :=
  Sheds fun _ => True

theorem Sheds.thins (h : Sheds visited a c) : Thins a c :=
  h.mono fun _ _ => trivial

theorem Sheds.attrsOfType_sublist (h : Sheds visited a c) (hn : (a.kind n).level < 7)
    (type : NodeId) : (c.attrsOfType n type).Sublist (a.attrsOfType n type) := by
  unfold attrsOfType
  simp only [h.toRetagged.sameBelow.attrType]
  exact (h.sublist n hn).filter _

theorem Sheds.attrsOfType_eq (h : Sheds visited a c) (hn : (a.kind n).level < 7)
    (hv : ¬ visited n) (type : NodeId) : c.attrsOfType n type = a.attrsOfType n type := by
  unfold attrsOfType
  simp only [h.toRetagged.sameBelow.attrType, h.attrs_eq n hn hv]

theorem mem_attrsOfType : x ∈ a.attrsOfType n type ↔
    x ∈ (a.node n).attrs ∧ a.attrType x = some type := by
  unfold attrsOfType
  rw [List.mem_filter, Array.mem_toList_iff, beq_iff_eq]

/-! ## One attribute -/

/-- Tagging a node. -/
theorem sheds_retag {kind : NodeKind} (hc : Changed c b n { c.node n with kind := kind })
    (hk : kind.untag = (c.kind n).untag) : Sheds (· = n) c b := by
  have hattrs : ∀ m, (b.node m).attrs = (c.node m).attrs := fun m => by
    by_cases he : m = n
    · rw [he, hc.node_self]
    · rw [hc.node_ne he]
  refine ⟨hc.retagged hk rfl rfl rfl, fun m _ => by rw [hattrs], fun m _ _ => hattrs m,
    fun m _ x hx => by rwa [hattrs], fun m hm => ?_, fun m _ => ?_⟩
  · unfold Arena.kind
    rw [hc.node_ne hm]
  · by_cases he : m = n
    · rw [he, hc.node_self]
    · rw [hc.node_ne he]

/-- An attribute leaves a node for a script or a package. -/
theorem sheds_moveAttr (hd : d < c.size) (hlevel : 7 ≤ (c.kind d).level) (hne : d ≠ n)
    (hx : (c.attr? x).isSome) : Sheds (· = n) c (c.moveAttr n d x) := by
  have hside : ∀ m, (c.kind m).level < 7 → m ≠ d := fun m hm e => by
    rw [e] at hm
    omega
  refine ⟨retagged_moveAttr, fun m hm => ?_, fun m hm hv => ?_, fun m hv y hy => ?_,
    fun m _ => kind_moveAttr m, fun m hm => ?_⟩
  · rw [attrs_moveAttr_ne (hside m hm)]
    split
    · exact List.filter_sublist
    · exact .refl _
  · refine Array.toList_inj.1 ?_
    rw [attrs_moveAttr_ne (hside m hm), if_neg hv]
  · by_cases he : m = d
    · subst he
      exact (mem_attrs_moveAttr hd hne).2 (Or.inr hy)
    · rw [← Array.mem_toList_iff, attrs_moveAttr_ne he, if_neg hv]
      exact Array.mem_toList_iff.2 hy
  · rw [parent_moveAttr (lt_size_of_attr hx), if_neg]
    rintro rfl
    rw [hm] at hx
    cases hx

/-- What has become of an attribute of a node, by the mask that was found: it stands there still, or on
the script or the package. -/
def Settles (vocabulary : Vocabulary) (package : NodeId) (a c : Arena) (n : NodeId) (site : Site)
    (x : NodeId) (mask : Int64) : Prop :=
  vocabulary.permits mask site = true ∧ x ∈ (c.node n).attrs ∨
    vocabulary.permits mask site = false ∧ x ∉ (c.node n).attrs ∧
      ∃ d, (a.scriptOf n = some d ∨ d = package) ∧ a.Reaches d n ∧ d ≠ n ∧ x ∈ (c.node d).attrs

/-- Checking other attributes leaves it there. -/
theorem Settles.sheds (h : Settles vocabulary p a b n site x mask) (hs : Sheds visited b c)
    (hn : (b.kind n).level < 7) (hstays : x ∈ (b.node n).attrs → x ∈ (c.node n).attrs)
    (hv : ∀ d, a.Reaches d n → d ≠ n → ¬ visited d) : Settles vocabulary p a c n site x mask := by
  refine h.imp (fun ⟨hp, hx⟩ => ⟨hp, hstays hx⟩) fun ⟨hp, hx, d, hd, hr, hne, hxd⟩ =>
    ⟨hp, fun hx' => hx ?_, d, hd, hr, hne, hs.stays d (hv d hr hne) x hxd⟩
  exact Array.mem_toList_iff.1 ((hs.sublist n hn).subset (Array.mem_toList_iff.2 hx'))

/-- Checking an attribute settles it. -/
theorem leads_settle (hl : Laid p a) (hr : Retagged a c) (hn : a.home n = some p)
    (hs : a.StandsAt vocabulary n site) :
    Leads (Sheds (· = n)) (Link.placeAttr vocabulary n site x) c fun _ b =>
      b.kind n = c.kind n ∧ (∀ y ∈ (c.node n).attrs, y ≠ x → y ∈ (b.node n).attrs) ∧
        (x ∈ (c.node n).attrs → ∃ mask, c.usageMask vocabulary x = .ok mask ∧
          Settles vocabulary p a b n site x mask) := by
  rcases Link.placeAttr_cases vocabulary n site x c with ⟨failure, hrun⟩ | ⟨mask, hmask, hcases⟩
  · exact .of_error hrun (refl c)
  rcases hcases with ⟨hp, hrun⟩ | ⟨hp, d, hd, hrun⟩
  · exact .of_ok hrun (refl c) ⟨rfl, fun y hy _ => hy, fun hx => ⟨mask, hmask, Or.inl ⟨hp, hx⟩⟩⟩
  · have hg := goes_of_destination? hr hn hp hd
    have hne := hl.goes_ne hn hs hg hp
    obtain ⟨hscript, hhome, hlevel, hreach⟩ := hl.goes_above hn hs hg hne
    have hlt : d < c.size := hr.size_eq ▸ lt_size_of_home hhome
    have hleft : ∀ y, y ∈ ((c.moveAttr n d x).node n).attrs ↔ y ∈ (c.node n).attrs ∧ y ≠ x :=
      fun y => by
        rw [← Array.mem_toList_iff, attrs_moveAttr_ne hne.symm, if_pos rfl, List.mem_filter,
          Array.mem_toList_iff, bne_iff_ne]
    refine .of_ok hrun (sheds_moveAttr hlt (hr.level_eq.symm ▸ hlevel) hne (attr?_of_usageMask hmask))
      ⟨kind_moveAttr n, fun y hy hyx => (hleft y).2 ⟨hy, hyx⟩, fun _ => ⟨mask, hmask,
        Or.inr ⟨hp, fun hx => ((hleft x).1 hx).2 rfl, d, hscript, hreach, hne, ?_⟩⟩⟩
    exact (mem_attrs_moveAttr hlt hne).2 (Or.inl rfl)

/-! ## One site -/

/-- Checking the attributes of a node, which are different, settles all of them. -/
theorem leads_settleAll (hl : Laid p a) (hr : Retagged a c) (hn : a.home n = some p)
    (hs : a.StandsAt vocabulary n site) :
    Leads (Sheds (· = n)) ((c.node n).attrs.toList.forM (Link.placeAttr vocabulary n site)) c
      fun _ b => b.kind n = c.kind n ∧ ((a.kind n).level < 7 → (c.node n).attrs.toList.Nodup →
        ∀ x ∈ (c.node n).attrs, ∃ f mask, Sheds (· = n) c f ∧ Sheds (· = n) f b ∧
          f.usageMask vocabulary x = .ok mask ∧ Settles vocabulary p a b n site x mask) := by
  refine (Leads.forM (I := fun rest e => ∃ done, (c.node n).attrs.toList = done ++ rest ∧
    Sheds (· = n) c e ∧ e.kind n = c.kind n ∧ ((a.kind n).level < 7 →
      (c.node n).attrs.toList.Nodup → (∀ x ∈ rest, x ∈ (e.node n).attrs) ∧
        ∀ x ∈ done, ∃ f mask, Sheds (· = n) c f ∧ Sheds (· = n) f e ∧
          f.usageMask vocabulary x = .ok mask ∧ Settles vocabulary p a e n site x mask)) ?_ _ c
    ⟨[], rfl, refl c, rfl, fun _ _ => ⟨fun x hx => Array.mem_toList_iff.1 hx, nofun⟩⟩).mono
      fun _ e hce ⟨done, hdone, _, hk, hall⟩ => ⟨hk, fun hlevel hnodup x hx => ?_⟩
  · intro x rest e ⟨done, hdone, hce, hk, hall⟩
    have hae : Retagged a e := trans_of Retagged hr hce.toRetagged
    refine (leads_settle hl hae hn hs).mono fun _ e' hr' ⟨hk', hothers, hsettle⟩ =>
      ⟨done ++ [x], ?_, trans_of (Sheds (· = n)) hce hr', hk'.trans hk, fun hlevel hnodup => ?_⟩
    · rw [hdone, List.append_assoc, List.singleton_append]
    · obtain ⟨hrest, hall⟩ := hall hlevel hnodup
      obtain ⟨mask, hmask, hsettles⟩ := hsettle (hrest x (List.mem_cons_self ..))
      rw [hdone, List.nodup_append] at hnodup
      refine ⟨fun y hy => hothers y (hrest y (List.mem_cons_of_mem _ hy)) fun he =>
        (List.nodup_cons.1 hnodup.2.1).1 (he ▸ hy), fun y hy => ?_⟩
      rcases List.mem_append.1 hy with hy | hy
      · obtain ⟨f, mask', hcf, hfe, hmask', hsettles'⟩ := hall y hy
        exact ⟨f, mask', hcf, trans_of (Sheds (· = n)) hfe hr', hmask',
          hsettles'.sheds hr' (hae.level_eq ▸ hlevel)
            (fun hye => hothers y hye (hnodup.2.2 y hy x (List.mem_cons_self ..)))
            fun d _ hne => hne⟩
      · rw [List.mem_singleton.1 hy]
        exact ⟨e, mask, hce, hr', hmask, hsettles⟩
  · rw [List.append_nil] at hdone
    exact (hall hlevel hnodup).2 x (hdone ▸ Array.mem_toList_iff.2 hx)

/-- A node that was visited: every attribute that it had is settled by the mask that was found during
the visit. -/
def Visited (vocabulary : Vocabulary) (package : NodeId) (a c : Arena) (n : NodeId) : Prop :=
  ∃ site start, a.StandsAt vocabulary n site ∧ Thins a start ∧ ∀ x ∈ (a.node n).attrs,
    ∃ f mask, Sheds (· = n) start f ∧ Thins f c ∧ f.usageMask vocabulary x = .ok mask ∧
      Settles vocabulary package a c n site x mask

/-- Later visits do not change what a visit did. -/
theorem Visited.sheds (h : Visited vocabulary p a b n) (hs : Sheds (· = m) b c)
    (hn : (b.kind n).level < 7) (hr : ¬ a.Reaches m n) : Visited vocabulary p a c n := by
  obtain ⟨site, start, hstands, hstart, hall⟩ := h
  refine ⟨site, start, hstands, hstart, fun x hx => ?_⟩
  obtain ⟨f, mask, hf, hfb, hmask, hsettles⟩ := hall x hx
  refine ⟨f, mask, hf, trans_of Thins hfb hs.thins, hmask, hsettles.sheds hs hn
    (hs.stays n (fun e => hr (e ▸ .refl)) x) fun d hd _ e => hr ?_⟩
  exact e ▸ hd

/-- Checking a site that was not visited before. -/
theorem leads_visit (hl : Laid p a) (h : Sheds visited a c) (hn : a.home n = some p)
    (hs : a.SiteOf n base) (hv : ¬ visited n) :
    Leads (Sheds (· = n)) (Link.placeSite vocabulary (n, base)) c fun _ b =>
      (a.kind n).level < 7 → TaggedBy vocabulary a b n ∧ Visited vocabulary p a b n := by
  have hold : (a.kind n).level < 7 → (c.node n).attrs = (a.node n).attrs := fun hlevel =>
    h.attrs_eq n hlevel hv
  obtain ⟨site, b, kind, hrun, hc, hk, hstands, htagged⟩ := h.toRetagged.tag
    (h.size_eq.symm ▸ lt_size_of_home hn) hs fun hlevel => hold (by omega)
  have hcb : Sheds (· = n) c b := sheds_retag hc hk
  have hattrs : (b.node n).attrs = (c.node n).attrs := by rw [hc.node_self]
  refine .follow (bind_ok hrun) hcb ((leads_settleAll hl
    (trans_of Retagged h.toRetagged hcb.toRetagged) hn hstands).mono
      fun _ e hbe ⟨hke, hall⟩ hlevel => ⟨htagged.congr hke, site, c, hstands, h.thins, fun x hx => ?_⟩)
  rw [hattrs, hold hlevel] at hall
  obtain ⟨f, mask, hbf, hfe, hmask, hsettles⟩ := hall hlevel (hl.nodup_attrs hn) x hx
  exact ⟨f, mask, trans_of (Sheds (· = n)) hcb hbf, hfe.thins, hmask, hsettles⟩

/-! ## All sites -/

/-- The pass over all sites. A node is visited once, and before it only nodes that are not below it. -/
theorem leads_sites (hl : Laid p a) {I : List (NodeId × Site) → Arena → Prop} (hstart : I [] a)
    (hstep : ∀ (done : List (NodeId × Site)) (entry : NodeId × Site) (c : Arena),
      Sheds (fun n => n ∈ done.map (·.1)) a c → I done c → a.home entry.1 = some p →
      a.SiteOf entry.1 entry.2 → (∀ e ∈ done, ¬ a.Reaches entry.1 e.1) →
      Leads (Sheds (· = entry.1)) (Link.placeSite vocabulary entry) c
        fun _ b => I (done ++ [entry]) b) :
    Leads Retagged ((a.sites p).forM (Link.placeSite vocabulary)) a fun _ c =>
      Sheds (fun n => a.home n = some p) a c ∧ I (a.sites p) c := by
  refine (Leads.forM (I := fun rest c => ∃ done, a.sites p = done ++ rest ∧
    Sheds (fun n => n ∈ done.map (·.1)) a c ∧ I done c) ?_ _ a
    ⟨[], rfl, refl a, hstart⟩).mono fun _ c _ ⟨done, hdone, hac, hall⟩ => ?_
  · intro entry rest c ⟨done, hdone, hac, hall⟩
    obtain ⟨hn, hs⟩ := hl.mem_sites_iff.1
      (hdone ▸ List.mem_append_right done (List.mem_cons_self ..) : (entry.1, entry.2) ∈ a.sites p)
    -- no node comes before one that it is below
    have hlater : ∀ e ∈ done, ¬ a.Reaches entry.1 e.1 := fun e he => by
      have hpairwise := hl.pairwise_sites
      rw [hdone] at hpairwise
      exact (List.pairwise_append.1 hpairwise).2.2 e he entry (List.mem_cons_self ..)
    refine ((hstep done entry c hac hall hn hs hlater).mono fun _ b hr hnext =>
      ⟨done ++ [entry], ?_, ?_, hnext⟩).weaken fun _ hr => hr.toRetagged
    · rw [hdone, List.append_assoc, List.singleton_append]
    · refine trans_of (Sheds _) (hac.mono fun n hn => ?_) (hr.mono fun n hn => ?_)
      · rw [List.map_append]
        exact List.mem_append_left _ hn
      · rw [List.map_append, hn]
        exact List.mem_append_right _ (List.mem_singleton_self _)
  · rw [List.append_nil] at hdone
    refine ⟨hac.mono fun n hn => ?_, hdone ▸ hall⟩
    obtain ⟨e, he, rfl⟩ := List.mem_map.1 hn
    exact (hl.mem_sites_iff.1 (hdone ▸ he : (e.1, e.2) ∈ a.sites p)).1

theorem not_mem_of_earlier {done : List (NodeId × Site)} {n : NodeId}
    (hlater : ∀ e ∈ done, ¬ a.Reaches n e.1) : n ∉ done.map (·.1) := fun hmem => by
  obtain ⟨e, he, heq⟩ := List.mem_map.1 hmem
  exact hlater e he (heq ▸ .refl)

/-- Every node below the scripts is visited and tagged in the end. -/
theorem leads_visits (hl : Laid p a) (vocabulary : Vocabulary) :
    Leads Retagged ((a.sites p).forM (Link.placeSite vocabulary)) a fun _ c =>
      Sheds (fun n => a.home n = some p) a c ∧ ∀ entry ∈ a.sites p, (a.kind entry.1).level < 7 →
        TaggedBy vocabulary a c entry.1 ∧ Visited vocabulary p a c entry.1 := by
  refine leads_sites hl (I := fun done c => ∀ entry ∈ done, (a.kind entry.1).level < 7 →
    TaggedBy vocabulary a c entry.1 ∧ Visited vocabulary p a c entry.1) nofun ?_
  intro done entry c hac hall hn hs hlater
  refine (leads_visit hl hac hn hs (not_mem_of_earlier hlater)).mono fun _ b hr hentry e he hlevel => ?_
  rcases List.mem_append.1 he with he | he
  · obtain ⟨htagged, hvisited⟩ := hall e he hlevel
    refine ⟨htagged.congr (hr.kind_eq e.1 fun heq => hlater e he (heq ▸ .refl)),
      hvisited.sheds hr (hac.level_eq.symm ▸ hlevel) (hlater e he)⟩
  · rw [List.mem_singleton.1 he] at hlevel ⊢
    exact hentry hlevel

/-- What a placement that succeeds does. -/
theorem Laid.sheds {builtin : NodeId} (hl : Laid p a)
    (hrun : Link.placeAttributes p builtin a = .ok () c) :
    Sheds (fun n => a.home n = some p) a c := by
  rcases Link.placeAttributes_cases p builtin a with
    ⟨hsame, -⟩ | ⟨failure, -, -, herror⟩ | ⟨vocabulary, -, hsites⟩
  · cases hsame.symm.trans hrun
    exact refl_of (Sheds _) a
  · cases herror.symm.trans hrun
  · exact ((leads_visits hl vocabulary).ok (hsites.symm.trans hrun)).2.1

/-! ## Usage declarations -/

/-- Of the usage declarations on a table all stay or none does: they have one mask, which the visit of the
table does not change. -/
theorem Visited.usage (h : Visited vocabulary p a c n) (hac : Thins a c)
    (hnodup : (a.node n).attrs.toList.Nodup) (hlevel : (a.kind n).level < 7)
    (husage : (a.kind vocabulary.usage).level < 7) (hne : vocabulary.usage ≠ n) :
    c.attrsOfType n vocabulary.usage = a.attrsOfType n vocabulary.usage ∨
      c.attrsOfType n vocabulary.usage = [] := by
  obtain ⟨site, start, -, hstart, hall⟩ := h
  have hmasks : ∀ x ∈ a.attrsOfType n vocabulary.usage, ∃ mask,
      start.TypeMask vocabulary vocabulary.usage mask ∧
        Settles vocabulary p a c n site x mask := fun x hx => by
    obtain ⟨hx, htype⟩ := mem_attrsOfType.1 hx
    obtain ⟨f, mask, hf, -, hmask, hsettles⟩ := hall x hx
    obtain ⟨type, htype', hmask'⟩ := hasMask_of_usageMask hmask
    rw [hf.toRetagged.sameBelow.attrType, hstart.toRetagged.sameBelow.attrType, htype] at htype'
    cases htype'
    refine ⟨mask, hmask'.congr hf.toRetagged.symm.sameBelow (.symm ?_), hsettles⟩
    exact hf.attrsOfType_eq (hstart.level_eq.symm ▸ husage) hne _
  have hsublist := hac.attrsOfType_sublist hlevel vocabulary.usage
  by_cases hstays : ∃ x ∈ a.attrsOfType n vocabulary.usage, x ∈ (c.node n).attrs
  · obtain ⟨x, hx, hxc⟩ := hstays
    obtain ⟨mask, hmask, ⟨hp, -⟩ | ⟨-, hnot, -⟩⟩ := hmasks x hx
    · refine Or.inl (hsublist.eq_of_length_le (List.Nodup.subperm ?_ fun y hy => ?_).length_le)
      · exact hnodup.filter _
      · obtain ⟨mask', hmask', ⟨-, hyc⟩ | ⟨hp', -⟩⟩ := hmasks y hy
        · refine mem_attrsOfType.2 ⟨hyc, ?_⟩
          rw [hac.toRetagged.sameBelow.attrType]
          exact (mem_attrsOfType.1 hy).2
        · cases hmask.unique hmask'
          exact absurd (hp.symm.trans hp') nofun
    · exact absurd hxc hnot
  · refine Or.inr (List.eq_nil_iff_forall_not_mem.2 fun x hx => hstays ?_)
    exact ⟨x, hsublist.subset hx, (mem_attrsOfType.1 hx).1⟩

/-- A mask in the end is the mask all along. -/
theorem typeMask_of_visits (hac : Sheds (fun n => a.home n = some p) a c) (hl : Laid p a)
    (hvisited : ∀ decl, a.kind type = .table decl → a.home type = some p →
      Visited vocabulary p a c type)
    (husage : (a.kind vocabulary.usage).level < 7) (hne : vocabulary.usage ≠ type)
    (hmask : c.TypeMask vocabulary type mask) (haf : Thins a f) (hfc : Thins f c) :
    f.TypeMask vocabulary type mask := by
  have hm := hmask
  obtain ⟨decl, usage, rest, -, -, -, hk, hu, -⟩ := hm
  have hshape := hac.shape type
  rw [hk] at hshape
  obtain ⟨decl', hk'⟩ := NodeKind.table_of_ctorIdx hshape.symm
  have hlevel : (a.kind type).level < 7 := by
    rw [hk']
    exact (by decide : 6 < 7)
  have hsame : c.attrsOfType type vocabulary.usage = a.attrsOfType type vocabulary.usage := by
    by_cases hhome : a.home type = some p
    · refine ((hvisited decl' hk' hhome).usage hac.thins (hl.nodup_attrs hhome) hlevel husage
        hne).resolve_right fun hnone => ?_
      rw [hnone] at hu
      cases hu
    · exact hac.attrsOfType_eq hlevel hhome _
  -- the usage declarations only get fewer, so they are the same at any time between
  have hfa := haf.attrsOfType_sublist hlevel vocabulary.usage
  have hcf := hfc.attrsOfType_sublist (haf.level_eq.symm ▸ hlevel) vocabulary.usage
  exact hmask.congr hfc.toRetagged.symm.sameBelow ((hsame ▸ hfa).antisymm hcf)

/-! ## Tags and markers -/

/-- The usage declaration of a marker permits a site. -/
def MayStand (a : Arena) (vocabulary : Vocabulary) (marker : NodeId) (site : Site) : Prop :=
  ∃ mask, a.TypeMask vocabulary marker mask ∧ vocabulary.permits mask site = true

/-- A tag agrees with the marker that it stands for. A node that carries the marker is tagged, and a node
that is tagged carries it where the usage declaration of the marker permits that; or else the marker
was moved, and stands on the script of the node or on the package. -/
structure TagAgrees (a : Arena) (vocabulary : Vocabulary) (n marker : NodeId) (site : Site)
    (tagged : Bool) : Prop where
  carried : a.attrsOfType n marker ≠ [] → tagged = true
  stays : tagged = true → a.MayStand vocabulary marker site → a.attrsOfType n marker ≠ []
  moved : tagged = true → a.attrsOfType n marker = [] →
    ∃ d, (a.scriptOf n = some d ∨ a.home n = some d) ∧ a.attrsOfType d marker ≠ []

/-- The tags of the tables and enums of a package agree with the markers. -/
structure TagsAgree (a : Arena) (vocabulary : Vocabulary) (package : NodeId) : Prop where
  struct : ∀ n decl, a.home n = some package → a.kind n = .table decl →
    a.TagAgrees vocabulary n vocabulary.structMarker .struct decl.isStruct
  error : ∀ n decl, a.home n = some package → a.kind n = .enum decl →
    a.TagAgrees vocabulary n vocabulary.errorMarker .enum decl.isError

/-- A visit leaves the tag in agreement, where the mask of the marker is the same all along. -/
theorem Visited.tagAgrees {marker : NodeId} {tagged : Bool} (h : Visited vocabulary p a c n)
    (hac : Thins a c) (hn : a.home n = some p) (hlevel : (a.kind n).level < 7)
    (htag : tagged = !(a.attrsOfType n marker).isEmpty)
    (hsite : ∀ site', a.StandsAt vocabulary n site' → a.attrsOfType n marker ≠ [] → site' = site)
    (hmask : ∀ f mask, Thins a f → Thins f c → c.TypeMask vocabulary marker mask →
      f.TypeMask vocabulary marker mask) : c.TagAgrees vocabulary n marker site tagged := by
  obtain ⟨site', start, hstands, hstart, hall⟩ := h
  have hmarked : tagged = true ↔ a.attrsOfType n marker ≠ [] := by
    rw [htag, Bool.not_eq_true', ← Bool.not_eq_true, ne_eq, List.isEmpty_iff]
  have hsettled : tagged = true → ∃ x f mask, x ∈ a.attrsOfType n marker ∧ Thins a f ∧ Thins f c ∧
      f.TypeMask vocabulary marker mask ∧ Settles vocabulary p a c n site x mask := fun ht => by
    have hmarks := hmarked.1 ht
    obtain ⟨x, hx⟩ := List.exists_mem_of_ne_nil _ hmarks
    obtain ⟨hattr, htype⟩ := mem_attrsOfType.1 hx
    obtain ⟨f, mask, hf, hfc, hm, hsettles⟩ := hall x hattr
    have haf : Thins a f := trans_of Thins hstart hf.thins
    obtain ⟨type, htype', htm⟩ := hasMask_of_usageMask hm
    rw [haf.toRetagged.sameBelow.attrType, htype] at htype'
    cases htype'
    exact ⟨x, f, mask, hx, haf, hfc, htm, hsite site' hstands hmarks ▸ hsettles⟩
  have hmem : ∀ {x d : Nat}, x ∈ a.attrsOfType n marker → x ∈ (c.node d).attrs →
      x ∈ c.attrsOfType d marker := fun hx hd =>
    mem_attrsOfType.2 ⟨hd, hac.toRetagged.sameBelow.attrType.trans (mem_attrsOfType.1 hx).2⟩
  refine ⟨fun hc => ?_, fun ht ⟨mask, hm, hp⟩ => ?_, fun ht hnone => ?_⟩
  · obtain ⟨x, hx⟩ := List.exists_mem_of_ne_nil _ hc
    exact hmarked.2 (List.ne_nil_of_mem ((hac.attrsOfType_sublist hlevel marker).subset hx))
  · obtain ⟨x, f, mask', hx, haf, hfc, hm', ⟨-, hxc⟩ | ⟨hp', -⟩⟩ := hsettled ht
    · exact List.ne_nil_of_mem (hmem hx hxc)
    · cases (hmask f mask haf hfc hm).unique hm'
      exact absurd (hp.symm.trans hp') nofun
  · obtain ⟨x, f, mask, hx, -, -, -, ⟨-, hxc⟩ | ⟨-, -, d, hd, -, -, hxd⟩⟩ := hsettled ht
    · have hin := hmem hx hxc
      rw [hnone] at hin
      cases hin
    · refine ⟨d, hd.imp (fun hs => (hac.scriptOf_eq n).trans hs) fun hs => ?_,
        List.ne_nil_of_mem (hmem hx hxd)⟩
      rw [hac.home_eq, hn, hs]

/-- A package with declarations is placed by the vocabulary of the built-in package. -/
theorem Laid.placed {builtin : NodeId} (hl : Laid p a)
    (hrun : Link.placeAttributes p builtin a = .ok () c) (hn : a.home n = some p) (hne : n ≠ p) :
    ∃ vocabulary, Vocabulary.ofPackage a builtin = .ok vocabulary ∧
      (a.sites p).forM (Link.placeSite vocabulary) a = .ok () c := by
  rcases Link.placeAttributes_cases p builtin a with
    ⟨-, hnone⟩ | ⟨failure, -, -, herror⟩ | ⟨vocabulary, hv, hsites⟩
  · exact absurd (hl.eq_of_no_scripts hnone hn) hne
  · rw [herror] at hrun
    cases hrun
  · exact ⟨vocabulary, hv, hsites.symm.trans hrun⟩

/-- A declaration is tagged by the attributes that it had before the pass. -/
theorem Laid.taggedBy {builtin : NodeId} (hl : Laid p a)
    (hrun : Link.placeAttributes p builtin a = .ok () c) (hn : a.home n = some p)
    (hlevel : (a.kind n).level = 6) :
    ∃ vocabulary, Vocabulary.ofPackage a builtin = .ok vocabulary ∧ TaggedBy vocabulary a c n := by
  obtain ⟨decl, hd⟩ := hl.isPackage
  have hne : n ≠ p := by
    rintro rfl
    rw [hd] at hlevel
    cases hlevel
  obtain ⟨vocabulary, hv, hsites⟩ := hl.placed hrun hn hne
  obtain ⟨site, hs⟩ := hl.exists_site hn (NodeKind.carries_of_level hlevel)
  exact ⟨vocabulary, hv, (((leads_visits hl vocabulary).ok hsites).2.2 (n, site)
    (hl.mem_sites_iff.2 ⟨hn, hs⟩) (by rw [hlevel]; exact (by decide : 6 < 7))).1⟩

/-- After the pass all tags of the package agree with the markers. -/
theorem Laid.tagsAgree {builtin : NodeId} (hl : Laid p a)
    (hv : Vocabulary.ofPackage a builtin = .ok vocabulary)
    (hrun : (a.sites p).forM (Link.placeSite vocabulary) a = .ok () c)
    (hstruct : vocabulary.usage ≠ vocabulary.structMarker)
    (herror : vocabulary.usage ≠ vocabulary.errorMarker) : c.TagsAgree vocabulary p := by
  obtain ⟨_, _, -, -, -, -, htarget, -⟩ := Vocabulary.ofPackage_eq_ok.1 hv
  obtain ⟨usage, husage, -⟩ := Option.bind_eq_some_iff.1 htarget
  have hulevel : (a.kind vocabulary.usage).level < 7 := by
    rw [table?_eq_some.1 husage]
    exact (by decide : 6 < 7)
  obtain ⟨-, hac, hall⟩ := (leads_visits hl vocabulary).ok hrun
  have hentry : ∀ {n : Nat} {site : Site}, a.home n = some p → a.SiteOf n site →
      (a.kind n).level < 7 → TaggedBy vocabulary a c n ∧ Visited vocabulary p a c n :=
    fun hn hs hlevel => hall _ (hl.mem_sites_iff.2 ⟨hn, hs⟩) hlevel
  have hmask : ∀ marker, vocabulary.usage ≠ marker → ∀ f mask, Thins a f → Thins f c →
      c.TypeMask vocabulary marker mask → f.TypeMask vocabulary marker mask :=
    fun marker hne f mask haf hfc hm => typeMask_of_visits hac hl (fun decl hk hhome =>
      (hentry hhome (.table hk) (by rw [hk]; exact (by decide : 6 < 7))).2) hulevel hne hm haf hfc
  refine ⟨fun n decl hn hk => ?_, fun n decl hn hk => ?_⟩
  · have hshape := hac.shape n
    rw [hk] at hshape
    obtain ⟨decl', hk'⟩ := NodeKind.table_of_ctorIdx hshape.symm
    have hhome : a.home n = some p := (hac.home_eq n).symm.trans hn
    have hlevel : (a.kind n).level < 7 := by
      rw [hk']
      exact (by decide : 6 < 7)
    obtain ⟨htagged, hvisited⟩ := hentry hhome (.table hk') hlevel
    refine hvisited.tagAgrees hac.thins hhome hlevel (htagged.struct decl hk) ?_ (hmask _ hstruct)
    rintro _ ⟨base, hbase, rfl⟩ hmarks
    cases hl.site_unique hhome hbase (.table hk')
    exact if_pos ⟨rfl, hmarks⟩
  · have hshape := hac.shape n
    rw [hk] at hshape
    obtain ⟨decl', hk'⟩ := NodeKind.enum_of_ctorIdx hshape.symm
    have hhome : a.home n = some p := (hac.home_eq n).symm.trans hn
    have hlevel : (a.kind n).level < 7 := by
      rw [hk']
      exact (by decide : 6 < 7)
    obtain ⟨htagged, hvisited⟩ := hentry hhome (.enum hk') hlevel
    refine hvisited.tagAgrees hac.thins hhome hlevel (htagged.error decl hk) ?_ (hmask _ herror)
    rintro _ ⟨base, hbase, rfl⟩ -
    cases hl.site_unique hhome hbase (.enum hk')
    exact if_neg fun e => by cases e.1

/-! ## After the pass -/

section

variable {held : NodeId → Prop} (h : Upholds held a b)

include h

/-- A constant expression has the value that it had. -/
theorem Upholds.evaluates {expr : NodeId} {value : Int64} (hn : held expr) :
    b.Evaluates expr value ↔ a.Evaluates expr value := by
  have hreference : ∀ {expr target : NodeId} {path : List String}, held expr →
      a.kind expr = .typeRef ⟨path, some target⟩ → held target := fun hn hk =>
    h.closed.reference hn (by
      rw [hk]
      exact List.mem_singleton_self _)
  have hsides : ∀ {expr left right : NodeId}, held expr → a.kind expr = .union left right →
      held left ∧ held right := fun hn hk => by
    constructor <;> refine h.closed.part hn ?_ <;> rw [hk]
    · exact List.mem_cons_self ..
    · exact List.mem_cons_of_mem _ (List.mem_singleton_self _)
  constructor <;> intro he
  · induction he with
    | int hk => exact .int ((h.kind_iff hn rfl).1 hk)
    | enumValue hk => exact .enumValue ((h.kind_iff hn rfl).1 hk)
    | reference hk ht =>
      have hk' := (h.kind_iff hn rfl).1 hk
      exact .reference hk' ((h.kind_iff (hreference hn hk') rfl).1 ht)
    | union hk _ _ ihl ihr =>
      have hk' := (h.kind_iff hn rfl).1 hk
      exact .union hk' (ihl (hsides hn hk').1) (ihr (hsides hn hk').2)
  · induction he with
    | int hk => exact .int ((h.kind_iff hn rfl).2 hk)
    | enumValue hk => exact .enumValue ((h.kind_iff hn rfl).2 hk)
    | reference hk ht =>
      exact .reference ((h.kind_iff hn rfl).2 hk) ((h.kind_iff (hreference hn hk) rfl).2 ht)
    | union hk _ _ ihl ihr =>
      exact .union ((h.kind_iff hn rfl).2 hk) (ihl (hsides hn hk).1) (ihr (hsides hn hk).2)

/-- A type declares the mask that it did. -/
theorem Upholds.typeMask (hfield : b.field? vocabulary.target = a.field? vocabulary.target)
    (hname : b.name vocabulary.target = a.name vocabulary.target) (hn : held type) :
    b.TypeMask vocabulary type mask ↔ a.TypeMask vocabulary type mask := by
  have husages : ∀ {usage : NodeId} {rest : List NodeId},
      a.attrsOfType type vocabulary.usage = usage :: rest → held usage := fun hu =>
    h.closed.child hn (List.mem_append_left _ (List.mem_of_mem_filter (hu ▸ List.mem_cons_self ..)))
  have hargs : ∀ {usage args : NodeId} {given : Attribute}, held usage → a.kind usage = .attr given →
      given.args = some args → held args := fun hu hg hargs => h.closed.part hu (by
    rw [hg]
    simp [NodeKind.parts, hargs])
  constructor
  · rintro ⟨decl, usage, rest, given, args, target, hk, hu, hg, hga, ht, he⟩
    have hshape := (h.kinds type hn).shape
    rw [hk] at hshape
    obtain ⟨decl', hk'⟩ := NodeKind.table_of_ctorIdx hshape.symm
    rw [h.attrsOfType hn] at hu
    have hg' := (h.kind_iff (husages hu) rfl).1 hg
    have hheld := hargs (husages hu) hg' hga
    have hta : a.fieldArg? vocabulary.target args = some target := by
      unfold Arena.fieldArg? at ht ⊢
      cases hka : b.kind args with
      | args items =>
        rw [hka] at ht
        rw [(h.kind_iff hheld rfl).1 hka, ← hfield]
        exact ht
      | namedArgs items =>
        rw [hka] at ht
        rw [(h.kind_iff hheld rfl).1 hka, ← hname]
        exact ht
      | _ =>
        rw [hka] at ht
        cases ht
    have hpart := (h.fieldArg? hheld hfield hname hta).2
    exact ⟨decl', usage, rest, given, args, target, hk', hu, hg', hga, hta,
      (h.evaluates (h.closed.part hheld hpart)).1 he⟩
  · rintro ⟨decl, usage, rest, given, args, target, hk, hu, hg, hga, ht, he⟩
    have hheld := hargs (husages hu) hg hga
    obtain ⟨hta, hpart⟩ := h.fieldArg? hheld hfield hname ht
    exact ⟨decl, usage, rest, given, args, target, h.table type decl hn hk,
      (h.attrsOfType hn _).trans hu, (h.kind_iff (husages hu) rfl).2 hg, hga, hta,
      (h.evaluates (h.closed.part hheld hpart)).2 he⟩

/-- A tag goes on to agree with its marker. -/
theorem Upholds.tagAgrees {marker : NodeId} {tagged : Bool}
    (hfield : b.field? vocabulary.target = a.field? vocabulary.target)
    (hname : b.name vocabulary.target = a.name vocabulary.target) (hmarker : held marker)
    (hn : held n) (hscript : b.scriptOf n = a.scriptOf n) (hhome : b.home n = a.home n)
    (habove : ∀ d, a.scriptOf n = some d ∨ a.home n = some d → held d)
    (ht : a.TagAgrees vocabulary n marker site tagged) :
    b.TagAgrees vocabulary n marker site tagged where
  carried hc := ht.carried (h.attrsOfType hn marker ▸ hc)
  stays htag hm := by
    obtain ⟨mask, hm, hp⟩ := hm
    rw [h.attrsOfType hn]
    exact ht.stays htag ⟨mask, (h.typeMask hfield hname hmarker).1 hm, hp⟩
  moved htag hnone := by
    rw [h.attrsOfType hn] at hnone
    obtain ⟨d, hd, hmarks⟩ := ht.moved htag hnone
    refine ⟨d, by rwa [hscript, hhome], ?_⟩
    rwa [h.attrsOfType (habove d hd)]

/-- Tags go on to agree with the markers, where no declarations come to the package. -/
theorem Upholds.tagsAgree (hfield : b.field? vocabulary.target = a.field? vocabulary.target)
    (hname : b.name vocabulary.target = a.name vocabulary.target) (hp : held p)
    (hstruct : held vocabulary.structMarker) (herror : held vocabulary.errorMarker)
    (hback : ∀ n : Nat, b.home n = some p → (b.kind n).level = 6 → held n ∧ a.home n = some p ∧
      (b.node n).script = (a.node n).script)
    (ht : a.TagsAgree vocabulary p) : b.TagsAgree vocabulary p := by
  have hnode : ∀ {n marker : Nat} {site : Site} {tagged : Bool}, held marker →
      b.home n = some p → (b.kind n).level = 6 → a.TagAgrees vocabulary n marker site tagged →
        b.TagAgrees vocabulary n marker site tagged := fun {n marker site tagged} hm hn hl ht => by
    obtain ⟨hheld, hna, hscript⟩ := hback n hn hl
    have hla : (a.kind n).level ≠ 7 := by
      rw [← NodeKind.level_congr (h.kinds n hheld).shape, hl]
      exact (by decide : 6 ≠ 7)
    have hlb : (b.kind n).level ≠ 7 := by
      rw [hl]
      exact (by decide : 6 ≠ 7)
    refine h.tagAgrees hfield hname hm hheld ?_ (hn.trans hna.symm) (fun d hd => ?_) ht
    · rw [scriptOf_of_level hla, scriptOf_of_level hlb, hscript]
    · rcases hd with hd | hd
      · rw [scriptOf_of_level hla] at hd
        exact h.closed.script hheld hd
      · cases Option.some.inj (hna.symm.trans hd)
        exact hp
  refine ⟨fun n decl hn hk => hnode hstruct hn (by rw [hk]; rfl) ?_,
    fun n decl hn hk => hnode herror hn (by rw [hk]; rfl) ?_⟩
  · obtain ⟨hheld, hna, -⟩ := hback n hn (by rw [hk]; rfl)
    have hshape := (h.kinds n hheld).shape
    rw [hk] at hshape
    obtain ⟨decl', hk'⟩ := NodeKind.table_of_ctorIdx hshape.symm
    cases hk.symm.trans (h.table n decl' hheld hk')
    exact ht.struct n decl hna hk'
  · obtain ⟨hheld, hna, -⟩ := hback n hn (by rw [hk]; rfl)
    have hshape := (h.kinds n hheld).shape
    rw [hk] at hshape
    obtain ⟨decl', hk'⟩ := NodeKind.enum_of_ctorIdx hshape.symm
    cases hk.symm.trans (h.enum n decl' hheld hk')
    exact ht.error n decl hna hk'

end

end SchemaLang.Arena

namespace SchemaLang

open Arena

variable {a b c d : Arena} {n p builtin : Nat} {cached settled : NodeId → Prop}

/-- Once a package is linked, the tags of its declarations agree with the markers of the built-in package
that it was linked against. -/
theorem Passes.tagsAgree (h : Passes p builtin cached settled a b c d)
    (hb : builtin = p ∨ cached builtin) (hs : Settled cached settled b) (hn : d.home n = some p)
    (hlevel : (d.kind n).level = 6) :
    ∃ vocabulary, Vocabulary.ofPackage d builtin = .ok vocabulary ∧ d.TagsAgree vocabulary p := by
  -- the third pass adds no declarations
  have hback : ∀ n : Nat, d.home n = some p → (d.kind n).level = 6 → n < c.size ∧
      c.home n = some p ∧ (c.kind n).level = 6 := fun n hn hl => by
    have hlt := h.copies.toRearranges.lt_size hl
    exact ⟨hlt, by rw [← h.copies.homes n hlt, hn],
      by rw [← NodeKind.level_congr (h.copies.shape n hlt), hl]⟩
  obtain ⟨hlt, hnc, hlc⟩ := hback n hn hlevel
  have hnb : b.home n = some p := by
    rw [← h.rearranges.homes n (h.rearranges.lt_size hlc), hnc]
  have hne : n ≠ p := by
    rintro rfl
    obtain ⟨decl, hd⟩ := h.placing.isPackage
    have hd : c.kind n = .package decl := hd
    rw [hd] at hlc
    cases hlc
  obtain ⟨v, hv, hrun⟩ := h.laid.placed h.placed hnb hne
  obtain ⟨hbc, hcd⟩ := h.keepsVocabulary hb hs
  obtain ⟨hvc, -, -⟩ := hbc v hv
  obtain ⟨hvd, hfield, hname⟩ := hcd v hvc
  obtain ⟨hstruct, herror⟩ := Vocabulary.distinct hvd (h.linked.listed builtin hb).keyed
  have hcovers : Scene.Covers ⟨p, cached, settled, b⟩ c builtin := by
    rcases hb with rfl | hb
    · exact h.placing.covers_package
    · exact Or.inl (hs.package builtin hb).1
  obtain ⟨package, _, hp, -, -, -, -, hstruct', herror'⟩ := Vocabulary.ofPackage_eq_ok.1 hvc
  have hmarker : ∀ {name : String} {t : NodeId}, package.types.find? name = some t →
      Scene.Covers ⟨p, cached, settled, b⟩ c t := fun ht =>
    h.placing.closed.type hcovers (package?_eq_some.1 hp) ht
  refine ⟨v, hvd, (h.copies.upholds h.placing.toHolds).tagsAgree hfield hname h.placing.covers_package
    (hmarker hstruct') (hmarker herror') (fun m hm hl => ?_)
    (h.laid.tagsAgree hv hrun hstruct herror)⟩
  obtain ⟨hltm, hmc, -⟩ := hback m hm hl
  exact ⟨Or.inr (Or.inl hmc), hmc, h.copies.script_eq m hltm⟩

end SchemaLang
