import SchemaLang.Proofs.Link.Reordering
import SchemaLang.Proofs.Link.Tagging

/-!
# When all attributes have a place

Where usage declarations may stand on tables and structs, the masks are the same all along the second
pass. So the pass succeeds exactly where every attribute has a mask and goes somewhere by it
(`Laid.placeAttributes_ok_iff`), which does not depend on the order of sites; and where it succeeds it
leaves the same kinds, tags included, and the same attributes, whatever the order of declarations
(`Reordered.placeAttributes`).
-/

namespace SchemaLang.Arena

variable {a b c c' : Arena} {builtin d m n p q type x : Nat} {site site' : Site} {mask : Int64}
  {vocabulary : Vocabulary} {moves : List (NodeId × NodeId)} {pending : List NodeId}

/-! ## Success -/

/-- Every attribute of the package has a mask, and goes somewhere by it. -/
def Placeable (a : Arena) (vocabulary : Vocabulary) (package : NodeId) : Prop :=
  ∀ n x, a.home n = some package → x ∈ (a.node n).attrs → ∃ site mask d,
    a.StandsAt vocabulary n site ∧ a.usageMask vocabulary x = .ok mask ∧
      a.Goes vocabulary package n site mask d

/-- A node stands at one site. -/
theorem Laid.standsAt_unique (hl : Laid p a) (hn : a.home n = some p)
    (hs : a.StandsAt vocabulary n site) (hs' : a.StandsAt vocabulary n site') : site = site' := by
  obtain ⟨base, hbase, rfl⟩ := hs
  obtain ⟨base', hbase', rfl⟩ := hs'
  rw [hl.site_unique hn hbase hbase']

/-- The pass finds a destination for an attribute that goes somewhere. -/
theorem destination?_of_goes (hr : Retagged a c) (hn : a.home n = some p)
    (hnot : vocabulary.permits mask site = false) (hg : a.Goes vocabulary p n site mask d) :
    c.destination? vocabulary n site mask = some d := by
  unfold destination?
  cases hg with
  | stays hp => exact absurd (hp.symm.trans hnot) nofun
  | toScript _ hne hp hs => rw [if_pos ⟨hne, hp⟩, hr.scriptOf_eq, hs]
  | toPackage _ hnot' hp =>
    rw [if_neg hnot', if_pos hp, packageOf_of_home ((hr.home_eq n).trans hn)]

namespace Sorts

section

variable (hl : Laid p a) (hu : a.UsageStays vocabulary) (hp : a.Placeable vocabulary p)

include hl hu hp

/-- An attribute that goes somewhere is checked with success. -/
theorem placeAttr_ok (h : Sorts vocabulary p a c (x :: pending) moves) (hn : a.home n = some p)
    (hx : x ∈ (a.node n).attrs) (hs : a.StandsAt vocabulary n site) :
    ∃ b, Link.placeAttr vocabulary n site x c = .ok () b := by
  obtain ⟨site', mask, d, hs', hmask, hg⟩ := hp n x hn hx
  cases hl.standsAt_unique hn hs hs'
  rw [← h.usageMask_eq hl hu] at hmask
  unfold Link.placeAttr
  cases hpermits : vocabulary.permits mask site with
  | true => simp [hmask, hpermits]
  | false =>
    have hd := destination?_of_goes h.toRetagged hn hpermits hg
    simp [hmask, hpermits, hd]

theorem placeSite_ok {done rest : List (NodeId × Site)} {entry : NodeId × Site}
    (hsites : a.sites p = done ++ entry :: rest)
    (h : Sorts vocabulary p a c
      ((entry :: rest).flatMap fun entry => (a.node entry.1).attrs.toList) moves) :
    ∃ b, Link.placeSite vocabulary entry c = .ok () b := by
  obtain ⟨n, base⟩ := entry
  have hattrs := h.attrs_eq_of_ahead hl hsites (List.mem_cons_self ..)
  obtain ⟨hn, hbase⟩ := hl.mem_sites_iff.1
    (hsites ▸ List.mem_append_right done (List.mem_cons_self ..))
  obtain ⟨site, b, kind, hrun, hc, hk, hs, -⟩ := h.toRetagged.tag
    (h.size_eq.symm ▸ lt_size_of_home hn) hbase fun _ => hattrs
  have hb : (b.node n).attrs = (a.node n).attrs := by rw [hc.node_self, ← hattrs]
  obtain ⟨e, he, -⟩ := forM_ok (I := fun pending e => (∀ x ∈ pending, x ∈ (a.node n).attrs) ∧
    ∃ moves', Sorts vocabulary p a e
      (pending ++ rest.flatMap fun entry => (a.node entry.1).attrs.toList) moves')
    (f := Link.placeAttr vocabulary n site) (fun x pending e ⟨hmem, moves', he⟩ => by
      have hx := hmem x (List.mem_cons_self ..)
      obtain ⟨e', he'⟩ := he.placeAttr_ok hl hu hp hn hx hs
      exact ⟨e', he', fun y hy => hmem y (List.mem_cons_of_mem _ hy),
        ((he.leads_placeAttr hl hu hn hx hs).ok he').2⟩)
    (a.node n).attrs.toList b ⟨fun x hx => Array.mem_toList_iff.1 hx, moves, h.retag hc hk⟩
  refine ⟨e, (bind_ok hrun).trans ?_⟩
  rw [hb]
  exact he

theorem placeSites_ok : ∃ b, (a.sites p).forM (Link.placeSite vocabulary) a = .ok () b := by
  obtain ⟨b, hb, -⟩ := forM_ok (I := fun rest c => ∃ done moves, a.sites p = done ++ rest ∧
    Sorts vocabulary p a c (rest.flatMap fun entry => (a.node entry.1).attrs.toList) moves)
    (f := Link.placeSite vocabulary) (fun entry rest c ⟨done, moves, hsites, h⟩ => by
      obtain ⟨b, hb⟩ := h.placeSite_ok hl hu hp hsites
      obtain ⟨-, moves', hend⟩ := ((h.leads_placeSite hl hu hsites).ok hb).2
      exact ⟨b, hb, done ++ [entry], moves', by rw [hsites, List.append_assoc, List.singleton_append],
        hend⟩)
    (a.sites p) a ⟨[], [], rfl, start hl vocabulary⟩
  exact ⟨b, hb⟩

end

/-- Where the pass succeeds, every attribute had a place to go. -/
theorem placeable (h : Sorts vocabulary p a b [] moves) : a.Placeable vocabulary p := by
  intro n x hn hx
  obtain ⟨mask, hmask⟩ := (h.masked n x hn hx).resolve_left List.not_mem_nil
  obtain ⟨d, ⟨site, mask', hs, hm, hg⟩, -⟩ := (h.settled n x hn hx).resolve_left List.not_mem_nil
  cases (hasMask_of_usageMask hmask).unique hm
  exact ⟨site, mask, d, hs, hmask, hg⟩

end Sorts

/-- Placing the attributes of a package succeeds exactly where each of them goes somewhere. -/
theorem Laid.placeAttributes_ok_iff (hl : Laid p a)
    (hu : ∀ vocabulary, Vocabulary.ofPackage a builtin = .ok vocabulary → a.UsageStays vocabulary) :
    (∃ c, Link.placeAttributes p builtin a = .ok () c) ↔ a.scriptsOf p = [] ∨
      ∃ vocabulary, Vocabulary.ofPackage a builtin = .ok vocabulary ∧ a.Placeable vocabulary p := by
  rcases Link.placeAttributes_cases p builtin a with
    ⟨hrun, hnone⟩ | ⟨failure, hscripts, herror, hrun⟩ | ⟨vocabulary, hv, hrun⟩
  · obtain ⟨decl, hd⟩ := hl.isPackage
    refine ⟨fun _ => Or.inl ?_, fun _ => ⟨a, hrun⟩⟩
    rw [scriptsOf_eq hd, hnone decl hd]
  · rw [hrun, herror]
    refine ⟨nofun, fun h => ?_⟩
    obtain ⟨vocabulary, hv, -⟩ := h.resolve_left hscripts
    cases hv
  · rw [hrun, hv]
    constructor
    · rintro ⟨c, hc⟩
      obtain ⟨-, -, moves, hsorts⟩ := (Sorts.leads_placeSites hl (hu vocabulary hv)).ok hc
      exact Or.inr ⟨vocabulary, rfl, hsorts.placeable⟩
    · rintro (hnone | ⟨v, hv', hp⟩)
      · -- a package without scripts has no attributes
        refine Sorts.placeSites_ok hl (hu vocabulary hv) fun n x hn hx => absurd hx ?_
        refine hl.attrs_of_no_scripts (fun decl hd => ?_) hn
        rwa [scriptsOf_eq hd] at hnone
      · cases hv'
        exact Sorts.placeSites_ok hl (hu vocabulary hv) hp

/-! ## Another order -/

namespace Reordered

section

variable (h : Reordered p a b)

include h

theorem sameBelow : SameBelow a b where
  size_eq := h.size_eq
  name_eq := h.name_eq
  position_eq := h.position_eq
  shape := h.shape
  kind_eq _ hn := h.kind_eq (Nat.lt_succ_of_lt hn)

theorem attrsOfType_eq (n type : Nat) : b.attrsOfType n type = a.attrsOfType n type :=
  h.sameBelow.attrsOfType (h.attrs_eq n) type

theorem usageMask_eq (attr : Nat) : b.usageMask vocabulary attr = a.usageMask vocabulary attr :=
  h.sameBelow.usageMask fun type _ => h.attrsOfType_eq type _

theorem typeMask (hm : a.TypeMask vocabulary type mask) : b.TypeMask vocabulary type mask :=
  hm.congr h.sameBelow (h.attrsOfType_eq type _)

theorem hasMask (hm : a.HasMask vocabulary x mask) : b.HasMask vocabulary x mask := by
  obtain ⟨type, ht, hm⟩ := hm
  exact ⟨type, h.sameBelow.attrType.trans ht, h.typeMask hm⟩

theorem usageStays (hu : a.UsageStays vocabulary) : b.UsageStays vocabulary := by
  obtain ⟨mask, hm, hp⟩ := hu
  exact ⟨mask, h.typeMask hm, hp⟩

theorem siteOf (hs : a.SiteOf n site) : b.SiteOf n site := by
  cases hs with
  | script hk =>
    obtain ⟨types, hkb, -⟩ := h.kind_script hk
    exact .script hkb
  | enum hk => exact .enum ((h.kind_iff (by exact (by decide : 6 < 7))).2 hk)
  | enumValue hk => exact .enumValue ((h.kind_iff (by exact (by decide : 5 < 7))).2 hk)
  | table hk => exact .table ((h.kind_iff (by exact (by decide : 6 < 7))).2 hk)
  | field hk => exact .field ((h.kind_iff (by exact (by decide : 5 < 7))).2 hk)
  | contract hk => exact .contract ((h.kind_iff (by exact (by decide : 6 < 7))).2 hk)
  | method hk => exact .method ((h.kind_iff (by exact (by decide : 5 < 7))).2 hk)
  | param hk hm hkm hmem =>
    exact .param ((h.kind_iff (by exact (by decide : 4 < 7))).2 hk) ((h.parent_eq n).trans hm)
      ((h.kind_iff (by exact (by decide : 5 < 7))).2 hkm) hmem
  | result hk hm hkm hmem =>
    exact .result ((h.kind_iff (by exact (by decide : 4 < 7))).2 hk) ((h.parent_eq n).trans hm)
      ((h.kind_iff (by exact (by decide : 5 < 7))).2 hkm) hmem

theorem standsAt (hs : a.StandsAt vocabulary n site) : b.StandsAt vocabulary n site := by
  obtain ⟨base, hbase, rfl⟩ := hs
  exact ⟨base, h.siteOf hbase, by rw [h.attrsOfType_eq]⟩

theorem goes (hg : a.Goes vocabulary q n site mask d) : b.Goes vocabulary q n site mask d := by
  cases hg with
  | stays hp => exact .stays hp
  | toScript hnot hne hp hs => exact .toScript hnot hne hp ((h.scriptOf_eq n).trans hs)
  | toPackage hnot hnot' hp => exact .toPackage hnot hnot' hp

theorem destined (hd : a.Destined vocabulary q n x d) : b.Destined vocabulary q n x d := by
  obtain ⟨site, mask, hs, hm, hg⟩ := hd
  exact ⟨site, mask, h.standsAt hs, h.hasMask hm, h.goes hg⟩

theorem placeable (hp : a.Placeable vocabulary p) : b.Placeable vocabulary p := by
  intro n x hn hx
  rw [h.home_eq] at hn
  rw [h.attrs_eq] at hx
  obtain ⟨site, mask, d, hs, hmask, hg⟩ := hp n x hn hx
  exact ⟨site, mask, d, h.standsAt hs, (h.usageMask_eq x).trans hmask, h.goes hg⟩

/-- The built-in package has the same vocabulary. -/
theorem ofPackage (hv : Vocabulary.ofPackage a builtin = .ok vocabulary) :
    Vocabulary.ofPackage b builtin = .ok vocabulary := by
  obtain ⟨package, sites, hp, hsites, hbits, husage, htarget, hstruct, herror⟩ :=
    Vocabulary.ofPackage_eq_ok.1 hv
  obtain ⟨types, hk, ht⟩ := h.kind_package (package?_eq_some.1 hp)
  have hfind := Registry.find?_of_perm ht
  refine Vocabulary.ofPackage_eq_ok.2 ⟨_, sites, package?_eq_some.2 hk, (hfind _).trans hsites, ?_,
    (hfind _).trans husage, ?_, (hfind _).trans hstruct, (hfind _).trans herror⟩
  · rw [← hbits]
    unfold enumValues
    simp only [h.kinds.enum?_eq, h.sameBelow.enumValue?]
  · rw [← htarget]
    unfold findField?
    simp only [h.kinds.table?_eq, h.name_eq]

end

end Reordered

/-- What the second pass has left of two orders: the same kinds but for the order of types, and the same
attributes on the nodes of the package. -/
structure Shuffled (package : NodeId) (c c' : Arena) : Prop where
  kinds : SameKinds c c'
  attrs : ∀ n, c.home n = some package → (c'.node n).attrs.toList.Perm (c.node n).attrs.toList

section

variable (he : a.PlacesExactly p builtin) (hl : Laid p a)
  (hrun : Link.placeAttributes p builtin a = .ok () c) (hn : a.home n = some p)

include he hl hrun hn

/-- The attributes of a node in the end are those that go there. -/
theorem PlacesExactly.mem_attrs_iff : x ∈ (c.node n).attrs ↔ ∃ vocabulary m,
    Vocabulary.ofPackage a builtin = .ok vocabulary ∧ a.home m = some p ∧ x ∈ (a.node m).attrs ∧
      a.Destined vocabulary p m x n := by
  have hhome : c.home n = some p := ((hl.sheds hrun).toRetagged.home_eq n).trans hn
  constructor
  · intro hx
    obtain ⟨m, hm, hxm⟩ := he.known c hrun n x hhome hx
    obtain ⟨vocabulary, d, hv, hd, hattached⟩ := he.attached c hrun m x hm hxm
    exact ⟨vocabulary, m, hv, hm, hxm, hattached.only n hhome hx ▸ hd⟩
  · rintro ⟨vocabulary, m, hv, hm, hxm, hd⟩
    obtain ⟨vocabulary', d, hv', hd', hattached⟩ := he.attached c hrun m x hm hxm
    cases hv.symm.trans hv'
    cases hl.destined_unique hm hd hd'
    exact Array.mem_toList_iff.1 (List.count_pos_iff.1 (by rw [hattached.once]; exact Nat.one_pos))

theorem PlacesExactly.nodup_attrs : (c.node n).attrs.toList.Nodup := by
  have hhome : c.home n = some p := ((hl.sheds hrun).toRetagged.home_eq n).trans hn
  refine List.nodup_iff_count_le_one.2 fun x => ?_
  by_cases hx : x ∈ (c.node n).attrs
  · obtain ⟨m, hm, hxm⟩ := he.known c hrun n x hhome hx
    obtain ⟨-, d, -, -, hattached⟩ := he.attached c hrun m x hm hxm
    rw [hattached.only n hhome hx, hattached.once]
  · rw [List.count_eq_zero_of_not_mem fun hmem => hx (Array.mem_toList_iff.1 hmem)]
    exact Nat.zero_le 1

end

/-- Where it is not tagged, a node keeps its kind. -/
theorem Laid.kind_of_untagged (hl : Laid p a) (hrun : Link.placeAttributes p builtin a = .ok () c)
    (hn : ¬ (a.home n = some p ∧ (a.kind n).level = 6)) : c.kind n = a.kind n := by
  have hs := hl.sheds hrun
  by_cases hhome : a.home n = some p
  · exact hs.toRetagged.kind_eq fun e => hn ⟨hhome, e⟩
  · exact hs.kind_eq n hhome

section

variable (h : Reordered p a b) (hla : Laid p a) (hlb : Laid p b)
  (hrun : Link.placeAttributes p builtin a = .ok () c)
  (hrun' : Link.placeAttributes p builtin b = .ok () c')

include h hla hlb hrun hrun'

/-- Both orders lead to the same tags. -/
theorem Reordered.sameKinds_of_placed : SameKinds c c' := by
  intro n
  by_cases htagged : a.home n = some p ∧ (a.kind n).level = 6
  · obtain ⟨hn, hlevel⟩ := htagged
    obtain ⟨v, hv, ht⟩ := hla.taggedBy hrun hn hlevel
    obtain ⟨v', hv', ht'⟩ := hlb.taggedBy hrun' ((h.home_eq n).trans hn)
      ((h.level_eq n).trans hlevel)
    cases (h.ofPackage hv).symm.trans hv'
    have huntag : (c.kind n).untag = (c'.kind n).untag := by
      rw [(hla.sheds hrun).untag, (hlb.sheds hrun').untag,
        h.kind_eq (by rw [hlevel]; exact (by decide : 6 < 7))]
    have hsame : c.kind n = c'.kind n := NodeKind.eq_of_tags huntag
      (fun decl decl' hd hd' => by
        rw [ht.struct decl hd, ht'.struct decl' hd', h.attrsOfType_eq])
      (fun decl decl' hd hd' => by
        rw [ht.error decl hd, ht'.error decl' hd', h.attrsOfType_eq])
    rw [hsame]
    exact .refl _
  · rw [hla.kind_of_untagged hrun htagged, hlb.kind_of_untagged hrun' (by
      rwa [h.home_eq, h.level_eq])]
    exact h.kinds n

/-- Both orders lead to the same attributes. -/
theorem Reordered.attrs_perm_of_placed
    (hu : ∀ vocabulary, Vocabulary.ofPackage a builtin = .ok vocabulary → a.UsageStays vocabulary)
    (hn : a.home n = some p) : (c'.node n).attrs.toList.Perm (c.node n).attrs.toList := by
  have hn' : b.home n = some p := (h.home_eq n).trans hn
  have he := hla.placesExactly builtin hu
  have he' := hlb.placesExactly builtin fun v hv => h.usageStays (hu v (h.symm.ofPackage hv))
  refine (List.perm_ext_iff_of_nodup (he'.nodup_attrs hlb hrun' hn') (he.nodup_attrs hla hrun hn)).2
    fun x => ?_
  rw [Array.mem_toList_iff, Array.mem_toList_iff, he'.mem_attrs_iff hlb hrun' hn',
    he.mem_attrs_iff hla hrun hn]
  constructor
  · rintro ⟨v, m, hv, hm, hx, hd⟩
    exact ⟨v, m, h.symm.ofPackage hv, (h.home_eq m).symm.trans hm, h.attrs_eq m ▸ hx, h.symm.destined hd⟩
  · rintro ⟨v, m, hv, hm, hx, hd⟩
    exact ⟨v, m, h.ofPackage hv, (h.home_eq m).trans hm, (h.attrs_eq m).symm ▸ hx, h.destined hd⟩

end

/-- The second pass succeeds in both orders or in neither, and leaves the same. -/
theorem Reordered.placeAttributes (h : Reordered p a b) (hla : Laid p a) (hlb : Laid p b)
    (hu : ∀ vocabulary, Vocabulary.ofPackage a builtin = .ok vocabulary → a.UsageStays vocabulary)
    (hrun : Link.placeAttributes p builtin a = .ok () c) :
    ∃ c', Link.placeAttributes p builtin b = .ok () c' ∧ Shuffled p c c' := by
  have hplaceable : b.scriptsOf p = [] ∨ ∃ vocabulary,
      Vocabulary.ofPackage b builtin = .ok vocabulary ∧ b.Placeable vocabulary p := by
    rcases (hla.placeAttributes_ok_iff hu).1 ⟨c, hrun⟩ with hnone | ⟨vocabulary, hv, hp⟩
    · exact Or.inl ((h.scriptsOf_eq p).trans hnone)
    · exact Or.inr ⟨vocabulary, h.ofPackage hv, h.placeable hp⟩
  obtain ⟨c', hrun'⟩ := (hlb.placeAttributes_ok_iff fun v hv =>
    h.usageStays (hu v (h.symm.ofPackage hv))).2 hplaceable
  refine ⟨c', hrun', h.sameKinds_of_placed hla hlb hrun hrun', fun n hn => ?_⟩
  rw [(hla.sheds hrun).toRetagged.home_eq] at hn
  exact h.attrs_perm_of_placed hla hlb hrun hrun' hu hn

end SchemaLang.Arena
