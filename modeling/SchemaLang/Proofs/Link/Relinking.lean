import SchemaLang.Proofs.Link.Tagging
import SchemaLang.Proofs.Session.Ordered

/-!
# Linking again

A package that is linked is linked again without a change (`LinkedAgainst.relink`): its references are
bound, its contracts are flattened, and every site that can be reached from it is at rest.

The second linking goes through other sites than the first one. The attributes that were moved are on
scripts and on the package now, and the copies of methods share slots and attributes with methods of
other contracts, which may belong to other packages. So the packages that are imported have to be linked
against the same built-in package as well, and that package has to let its own declarations stand where
they are (`Arena.Lenient`): else the tags are not found again.

* `Sorts.atRest`: after the second pass the sites of the package are at rest.
* `Quiet`: what is kept of linked packages, from one linking to the next.
-/

namespace SchemaLang

open Arena

variable {a b c d : Arena} {builtin m n p q r x : Nat} {site base : Site} {vocabulary : Vocabulary}
  {moves : List (NodeId × NodeId)} {cached settled linked held served : NodeId → Prop}

/-! ## Built-in packages that let their declarations stand -/

/-- The built-in package lets usage declarations stand on tables and structs, struct markers on structs,
and error markers on enums. -/
def Arena.Lenient (a : Arena) (builtin : NodeId) : Prop :=
  ∃ vocabulary, Vocabulary.ofPackage a builtin = .ok vocabulary ∧ a.UsageStays vocabulary ∧
    a.MayStand vocabulary vocabulary.structMarker .struct ∧
    a.MayStand vocabulary vocabulary.errorMarker .enum

/-- The built-in package stays lenient where its masks stay. -/
theorem Arena.Lenient.congr (h : a.Lenient builtin) (hv : KeepsVocabulary builtin a b)
    (hm : ∀ (name : String) (package : Package) (vocabulary : Vocabulary) (type : NodeId) (mask : Int64),
      Vocabulary.ofPackage a builtin = .ok vocabulary → a.kind builtin = .package package →
      package.types.find? name = some type → a.TypeMask vocabulary type mask →
      b.TypeMask vocabulary type mask) : b.Lenient builtin := by
  obtain ⟨v, hva, ⟨mask, hu, hpu⟩, ⟨mask', hs, hps⟩, mask'', he, hpe⟩ := h
  obtain ⟨package, _, hp, -, -, husage, -, hstruct, herror⟩ := Vocabulary.ofPackage_eq_ok.1 hva
  rw [package?_eq_some] at hp
  exact ⟨v, (hv v hva).1, ⟨mask, hm _ _ v _ mask hva hp husage hu, hpu⟩,
    ⟨mask', hm _ _ v _ mask' hva hp hstruct hs, hps⟩, mask'', hm _ _ v _ mask'' hva hp herror he, hpe⟩

theorem Arena.Upholds.lenient (h : Upholds held a b) (hv : KeepsVocabulary builtin a b)
    (hb : held builtin) (hl : a.Lenient builtin) : b.Lenient builtin :=
  hl.congr hv fun _ _ vocabulary _ _ hvocabulary hp ht hm => by
    obtain ⟨-, hfield, hname⟩ := hv vocabulary hvocabulary
    exact (h.typeMask hfield hname (h.closed.type hb hp ht)).2 hm

/-! ## After the second pass -/

namespace Arena.Sorts

variable (hl : Laid p a)

include hl

/-- Markers that may stand on a declaration are there in the end. -/
theorem marks_eq (h : Sorts vocabulary p a c [] moves) {marker : NodeId} (hlevel : (a.kind n).level = 6)
    (hm : a.MayStand vocabulary marker site)
    (hsite : ∀ site', a.StandsAt vocabulary n site' → a.attrsOfType n marker ≠ [] → site' = site) :
    c.attrsOfType n marker = a.attrsOfType n marker := by
  obtain ⟨mask, hmask, hp⟩ := hm
  refine h.attrsOfType_eq hl hlevel marker fun hn x hx htype =>
    h.fresh_of_permits hl hn hx fun site' mask' hs ⟨type, htype', hmask'⟩ => ?_
  cases htype'.symm.trans htype
  cases hmask'.unique hmask
  rw [hsite site' hs (List.ne_nil_of_mem (mem_attrsOfType.2 ⟨hx, htype⟩))]
  exact hp

theorem structs_eq (h : Sorts vocabulary p a c [] moves) {decl : Table} (hn : a.home n = some p)
    (hk : a.kind n = .table decl) (hm : a.MayStand vocabulary vocabulary.structMarker .struct) :
    c.attrsOfType n vocabulary.structMarker = a.attrsOfType n vocabulary.structMarker := by
  refine h.marks_eq hl (by rw [hk]; rfl) hm ?_
  rintro _ ⟨base, hbase, rfl⟩ hmarks
  cases hl.site_unique hn hbase (.table hk)
  exact if_pos ⟨rfl, hmarks⟩

theorem errors_eq (h : Sorts vocabulary p a c [] moves) {decl : Enumeration} (hn : a.home n = some p)
    (hk : a.kind n = .enum decl) (hm : a.MayStand vocabulary vocabulary.errorMarker .enum) :
    c.attrsOfType n vocabulary.errorMarker = a.attrsOfType n vocabulary.errorMarker := by
  refine h.marks_eq hl (by rw [hk]; rfl) hm ?_
  rintro _ ⟨base, hbase, rfl⟩ -
  cases hl.site_unique hn hbase (.enum hk)
  exact if_neg fun e => by cases e.1

/-- The site that counted for the attributes of a node counts for them in the end. -/
theorem countedSite_eq (h : Sorts vocabulary p a c [] moves) (hn : a.home n = some p)
    (hs : a.SiteOf n base) (hm : a.MayStand vocabulary vocabulary.structMarker .struct)
    (hstands : a.StandsAt vocabulary n site) : c.countedSite vocabulary n base = site := by
  obtain ⟨base', hs', rfl⟩ := hstands
  cases hl.site_unique hn hs hs'
  unfold countedSite
  cases hs with
  | table hk => rw [h.structs_eq hl hn hk hm]
  | script | enum | enumValue | field | contract | method | param | result =>
    simp only [reduceCtorEq, false_and, if_false]

/-- Once every attribute is checked, an attribute may stay where it is. -/
theorem permitted (h : Sorts vocabulary p a c [] moves) (hu : a.UsageStays vocabulary)
    (hm : a.MayStand vocabulary vocabulary.structMarker .struct) (hn : a.home n = some p)
    (hs : a.SiteOf n base) (hx : x ∈ (c.node n).attrs) :
    ∃ mask, c.usageMask vocabulary x = .ok mask ∧
      vocabulary.permits mask (c.countedSite vocabulary n base) = true := by
  obtain ⟨m, hm', hxm⟩ := h.mem_attrs hn hx
  obtain ⟨mask, hmask⟩ := (h.masked m x hm' hxm).resolve_left List.not_mem_nil
  obtain ⟨d, ⟨site, mask', hstands, hmask', hg⟩, hattached⟩ := h.attached hl hm' hxm
  cases (hasMask_of_usageMask hmask).unique hmask'
  cases hattached.only n ((h.home_eq n).trans hn) hx
  refine ⟨mask, (h.usageMask_eq hl hu x).trans hmask, ?_⟩
  cases hg with
  | stays hp =>
    rw [h.countedSite_eq hl hn hs hm hstands]
    exact hp
  | toScript hnot _ hp hscript =>
    -- what has gone to a script is at the site of a script
    rcases hl.below m hm' with rfl | ⟨s, hs', ⟨decl, hk⟩, -⟩
    · obtain ⟨decl, hd⟩ := hl.isPackage
      have hcarries := hl.dressed m x hm' hxm
      rw [hd] at hcarries
      cases hcarries
    · cases Option.some.inj (hscript.symm.trans hs')
      cases hl.site_unique hn hs (.script hk)
      exact hp
  | toPackage =>
    obtain ⟨decl, hd⟩ := hl.isPackage
    have hcarries := hs.carries
    rw [hd] at hcarries
    cases hcarries

/-- After the pass the sites of the package are at rest. -/
theorem atRest (h : Sorts vocabulary p a c [] moves) (hu : a.UsageStays vocabulary)
    (hstruct : a.MayStand vocabulary vocabulary.structMarker .struct)
    (herror : a.MayStand vocabulary vocabulary.errorMarker .enum)
    (htagged : TaggedBy vocabulary a c n) (hn : a.home n = some p) (hs : a.SiteOf n base) :
    c.AtRest vocabulary n base where
  stays x hx := h.permitted hl hu hstruct hn hs hx
  struct decl hd := by
    have hshape := h.shape n
    rw [hd] at hshape
    obtain ⟨decl', hk⟩ := NodeKind.table_of_ctorIdx hshape.symm
    rw [h.structs_eq hl hn hk hstruct]
    exact htagged.struct decl hd
  error decl hd := by
    have hshape := h.shape n
    rw [hd] at hshape
    obtain ⟨decl', hk⟩ := NodeKind.enum_of_ctorIdx hshape.symm
    rw [h.errors_eq hl hn hk herror]
    exact htagged.error decl hd

end Arena.Sorts

/-- The second pass moves attributes and sets tags, and does nothing else. -/
theorem Passes.retagged (h : Passes p builtin cached settled a b c d) : Retagged b c :=
  (h.laid.sheds h.placed).toRetagged

/-- The second pass keeps a built-in package lenient. -/
theorem Passes.lenient_placed (h : Passes p builtin cached settled a b c d) (hb : b.Lenient builtin)
    (hv : KeepsVocabulary builtin b c) : c.Lenient builtin := by
  rcases Link.placeAttributes_cases p builtin b with
    ⟨hrun, -⟩ | ⟨failure, -, -, herror⟩ | ⟨vocabulary, hvocabulary, hrun⟩
  · cases hrun.symm.trans h.placed
    exact hb
  · cases herror.symm.trans h.placed
  · refine hb.congr hv fun _ _ vocabulary' type mask hvocabulary' _ _ hm => ?_
    cases hvocabulary.symm.trans hvocabulary'
    obtain ⟨vocabulary', hvocabulary', hu, -⟩ := hb
    cases hvocabulary.symm.trans hvocabulary'
    obtain ⟨-, -, moves, hsorts⟩ := (Sorts.leads_placeSites h.laid hu).ok (hrun.symm.trans h.placed)
    have ⟨decl, _, _, _, _, _, hk, _⟩ := hm
    exact hm.congr hsorts.toRetagged.sameBelow (hsorts.attrsOfType_eq h.laid (by rw [hk]; rfl) _
      fun hn x hx htype => hsorts.usage_fresh h.laid hu hn hk hx htype)

/-- After the second pass every site of the package is at rest. -/
theorem Passes.resting_placed (h : Passes p builtin cached settled a b c d) (hb : b.Lenient builtin)
    (hv : KeepsVocabulary builtin b c) (hn : b.home n = some p) : c.Resting builtin n := by
  intro entry he
  rw [sitesAt_of_kept (h.rearranges.kinds n (lt_size_of_home hn))] at he
  have hmem : entry ∈ b.sites p := List.mem_flatMap.2 ⟨n, h.laid.mem_walk_iff.2 hn, he⟩
  by_cases hne : n = p
  · -- the package is no site
    cases hne
    obtain ⟨decl, hd⟩ := h.laid.isPackage
    simp [sitesAt, hd] at he
  · obtain ⟨vocabulary, hvocabulary, hrun⟩ := h.laid.placed h.placed hn hne
    obtain ⟨vocabulary', hvocabulary', hu, hstruct, herror⟩ := hb
    cases hvocabulary.symm.trans hvocabulary'
    obtain ⟨-, htagged, moves, hsorts⟩ := (Sorts.leads_placeSites h.laid hu).ok hrun
    obtain ⟨hhome, hsite⟩ := h.laid.mem_sites_iff.1 (show (entry.1, entry.2) ∈ b.sites p from hmem)
    exact ⟨vocabulary, (hv vocabulary hvocabulary).1,
      hsorts.atRest h.laid hu hstruct herror (htagged entry hmem) hhome hsite⟩

/-! ## After the third pass -/

/-- A copy of a method is at rest where the method is. -/
theorem Scene.CopyOf.resting (h : Scene.CopyOf a m n) (hm : a.Resting builtin m) :
    a.Resting builtin n := by
  obtain ⟨hattrs, decl, copy, hd, hcopy, hparams, hresults⟩ := h
  have hsites : a.sitesAt m = (m, .method) :: ((decl.params.toList.map fun slot => (slot, Site.param)) ++
      decl.results.toList.map fun slot => (slot, Site.result)) := by
    simp only [sitesAt, hd]
    rfl
  intro entry he
  simp only [sitesAt, hcopy, hparams, hresults, List.cons_append] at he
  rcases List.mem_cons.1 he with rfl | he
  · obtain ⟨vocabulary, hv, hat⟩ := hm (m, .method) (hsites ▸ List.mem_cons_self ..)
    refine ⟨vocabulary, hv, fun attr hattr => ?_, fun decl' hk => ?_, fun decl' hk => ?_⟩
    · obtain ⟨mask, hmask, hp⟩ := hat.stays attr (hattrs ▸ hattr)
      exact ⟨mask, hmask, hp⟩
    · rw [hcopy] at hk
      cases hk
    · rw [hcopy] at hk
      cases hk
  · exact hm entry (hsites ▸ List.mem_cons_of_mem _ he)

/-! ## Linked packages at rest -/

/-- Linked packages, with every site that can be reached from them at rest. -/
structure Quiet (builtin : NodeId) (linked held : NodeId → Prop) (a : Arena) : Prop
    extends Settled linked held a where
  resting : ∀ n : Nat, held n → a.Resting builtin n
  known : ∀ q : Nat, linked q → ∃ vocabulary, Vocabulary.ofPackage a builtin = .ok vocabulary

namespace Quiet

/-- No pass has anything to do. -/
theorem relink (h : Quiet builtin linked held a) (hp : linked p) :
    Link.package p (some builtin) a = .ok () a := by
  obtain ⟨hheld, package, hd⟩ := h.package p hp
  have hwalk : ∀ n ∈ a.walk p, held n := fun n hn => by
    have hr := reaches_of_mem_walk hn
    clear hn
    induction hr with
    | refl => exact hheld
    | tail _ hc ih => exact h.closed.child ih hc
  have hbind : Link.bindReferences p a = .ok () a := by
    have hnone : (a.walk p).filter a.isUnbound = [] := by
      refine List.filter_eq_nil_iff.2 fun n hn hu => ?_
      unfold isUnbound at hu
      split at hu
      · rename_i path hk
        obtain ⟨path', t, hk', -⟩ := h.bound n _ (hwalk n hn) hk
        cases hk.symm.trans hk'
      · cases hu
    unfold Link.bindReferences
    rw [hnone]
    rfl
  have hplace := placeAttributes_of_resting (fun n hn => h.resting n (hwalk n hn)) fun _ => h.known p hp
  have hflatten : Link.flattenContracts p a = .ok () a := by
    have hrun : Link.flattenContracts p a =
        package.types.nodes.forM (Link.flatten .wrapping (a.size + 1) []) a := by
      simp only [Link.flattenContracts, Link.flattenContractsWith, package?_eq_some.2 hd]
    have htypes : ∀ t ∈ package.types.nodes, t ∈ a.typesOf p := fun t ht => by
      rwa [typesOf_eq hd]
    rw [hrun]
    generalize package.types.nodes = types at htypes
    induction types with
    | nil => rfl
    | cons t rest ih =>
      have hstep : Link.flatten .wrapping (a.size + 1) [] t a = .ok () a := by
        cases hc : a.contract? t with
        | none => exact Link.flatten_of_none hc
        | some decl =>
          exact Link.flatten_of_flattened hc
            (h.flat p t decl hp (htypes t (List.mem_cons_self ..)) (contract?_eq_some.1 hc))
      rw [forM_cons_ok rest hstep]
      exact ih fun x hx => htypes x (List.mem_cons_of_mem _ hx)
  exact (bind_ok hbind).trans ((bind_ok hplace).trans hflatten)

theorem iUnion {ι : Type} {linked held : ι → NodeId → Prop}
    (h : ∀ i, Quiet builtin (linked i) (held i) a) :
    Quiet builtin (fun q => ∃ i, linked i q) (fun n => ∃ i, held i n) a where
  toSettled := .iUnion fun i => (h i).toSettled
  resting n := fun ⟨i, hn⟩ => (h i).resting n hn
  known q := fun ⟨i, hq⟩ => (h i).known q hq

theorem inter (h : Quiet builtin linked held a) (hs : Settled cached settled a) :
    Quiet builtin (fun q => linked q ∧ cached q) (fun n => held n ∧ settled n) a where
  toSettled := h.toSettled.inter hs
  resting n hn := h.resting n hn.1
  known q hq := h.known q hq.1

/-- Sites stay at rest where their nodes and the vocabulary stay. -/
theorem kept (h : Quiet builtin linked held a) (hs : Settled linked held b)
    (hn : ∀ n : Nat, held n → b.node n = a.node n) (hsize : a.size ≤ b.size)
    (hv : KeepsVocabulary builtin a b) : Quiet builtin linked held b where
  toSettled := hs
  resting n hheld := (Upholds.of_nodes h.closed hn).resting hsize hv hheld (h.resting n hheld)
  known q hq := by
    obtain ⟨vocabulary, hvocabulary⟩ := h.known q hq
    exact ⟨vocabulary, (hv vocabulary hvocabulary).1⟩

/-- A package that is not linked does not disturb those that are. -/
theorem within (h : Quiet builtin linked held a) (hw : Within p served a b) (hp : ¬ linked p)
    (hv : KeepsVocabulary builtin a b) : Quiet builtin linked held b :=
  h.kept (h.toSettled.within hw hp) (fun _ hn => h.node_eq hw hp hn) hw.size_le hv

/-- A package that is linked, with imports of such packages only, is one of them. -/
theorem enters (h : Quiet builtin linked held b) (hpass : Passes p builtin linked held a b c d)
    (hp : ¬ linked p) (hlenient : b.Lenient builtin) (hbc : KeepsVocabulary builtin b c)
    (hcd : KeepsVocabulary builtin c d) :
    Quiet builtin (fun q => q = p ∨ linked q) (Scene.Covers ⟨p, linked, held, b⟩ d) d where
  toSettled := hpass.linked
  resting := by
    have hall := hpass.rearranges.trans hpass.copies.toRearranges
    have hheld := h.within hall.within hp (hbc.trans hcd)
    have hown : ∀ n : Nat, b.home n = some p → d.Resting builtin n := fun n hn => by
      have hcovers : Scene.Covers ⟨p, linked, held, b⟩ c n :=
        Or.inr (Or.inl ((hpass.rearranges.homes n (lt_size_of_home hn)).trans hn))
      exact (hpass.copies.upholds hpass.placing.toHolds).resting hpass.copies.size_le hcd hcovers
        (hpass.resting_placed hlenient hbc hn)
    have hlow : ∀ n : Nat, n < b.size → Scene.Covers ⟨p, linked, held, b⟩ d n →
        d.Resting builtin n := fun n hlt hn => by
      rcases hn with hn | hn | ⟨hn, -⟩
      · exact hheld.resting n hn
      · exact hown n ((hall.homes n hlt).symm.trans hn)
      · exact absurd hlt (Nat.not_lt.2 hn)
    -- copies come after what they are copies of
    intro n hn
    induction n using Nat.strongRecOn with
    | ind n ih =>
      rcases Nat.lt_or_ge n b.size with hlt | hge
      · exact hlow n hlt hn
      · have hlt := hpass.holds.covers_lt hn
        obtain ⟨m, hm, hsource, hcopy⟩ := hpass.copies.copied n (hpass.retagged.size_eq ▸ hge) hlt
        refine hcopy.resting (ih m hm ?_)
        rcases hsource with hs | hs | hs
        · exact Or.inl hs
        · exact Or.inr (Or.inl ((hall.homes m (lt_size_of_home hs)).trans hs))
        · exact Or.inr (Or.inr ⟨hs, Nat.lt_trans hm hlt⟩)
  known q _ := by
    obtain ⟨vocabulary, hvocabulary, -⟩ := hlenient
    exact ⟨vocabulary, (hbc.trans hcd vocabulary hvocabulary).1⟩

end Quiet

/-! ## Packages linked against a built-in package -/

/-- What a package declares is there once it is read. -/
theorem Arena.Gathered.fielded (h : Gathered p served a) : a.Fielded p := by
  intro t ht decl hd f hf
  obtain ⟨s, hs, ho⟩ := h.types t ht
  have hfit := (h.forest s hs).fit t ho
  rw [table?_eq_some.1 hd] at hfit
  exact TableFit.lt_size hfit hf

/-- Binding references keeps all declarations. -/
theorem Arena.Binds.sameDeclarations (h : Binds a b) : SameDeclarations a b where
  size_le := Nat.le_of_eq h.size_eq.symm
  package n := Option.ext fun decl => by
    rw [package?_eq_some, package?_eq_some, h.package_iff]
  values n := by
    have hsame : b.enum? n = a.enum? n := Option.ext fun decl => by
      rw [enum?_eq_some, enum?_eq_some, h.kind_iff (by exact (by decide : (6 : Nat) ≠ 0))]
    rw [hsame]
  value n := Option.ext fun value => by
    rw [enumValue?_eq_some, enumValue?_eq_some, h.kind_iff (by exact (by decide : (5 : Nat) ≠ 0))]
  fields n := by
    have hsame : b.table? n = a.table? n := Option.ext fun decl => by
      rw [table?_eq_some, table?_eq_some, h.kind_iff (by exact (by decide : (6 : Nat) ≠ 0))]
    rw [hsame]
  field n := Option.ext fun decl => by
    rw [field?_eq_some, field?_eq_some, h.kind_iff (by exact (by decide : (5 : Nat) ≠ 0))]
  name_eq n _ := h.name_eq n

/-- A step within another package keeps the vocabulary of a linked one. -/
theorem Arena.Settled.keepsVocabulary (h : Settled cached settled a) (hw : Within q served a b)
    (hq : ¬ cached q) (hb : cached builtin) : KeepsVocabulary builtin a b :=
  keepsVocabulary_of_nodes h.closed (fun _ hn => h.node_eq hw hq hn) (h.package builtin hb).1

/-- Binding the references of a package keeps the vocabulary. -/
theorem Arena.Gathered.keepsVocabulary (h : Gathered p cached a) (ha : Anchored a)
    (hs : Settled cached settled a) (hp : ¬ cached p) (hb : builtin = p ∨ cached builtin)
    (hrun : Link.bindReferences p a = .ok () b) : KeepsVocabulary builtin a b := by
  obtain ⟨hbinds, hframe, -⟩ := h.binds_of_ok hrun
  rcases hb with rfl | hb
  · exact hbinds.sameDeclarations.keepsVocabulary h.fielded
  · exact hs.keepsVocabulary (h.within_binds ha hbinds hframe) hp hb

/-- A package is linked against the built-in package, as is every package that it imports. The built-in
package is the package itself or a linked one, and lets its own declarations stand once the references of
the package are bound. Other packages may have been read or linked since. -/
inductive Arena.LinkedAgainst (builtin : NodeId) : Arena → NodeId → Prop
  | link {a b c : Arena} {p : NodeId} {cached settled : NodeId → Prop} : Gathered p cached a →
    Anchored a → Settled cached settled a → ¬ cached p → (builtin = p ∨ cached builtin) →
    (∀ q, a.Needs p q → LinkedAgainst builtin a q) → Link.bindReferences p a = .ok () b →
    b.Lenient builtin → Link.package p (some builtin) a = .ok () c → LinkedAgainst builtin c p
  | later {a b : Arena} {p q : NodeId} {cached settled served : NodeId → Prop} :
    LinkedAgainst builtin a p → Settled cached settled a → cached p → cached builtin → ¬ cached q →
    Within q served a b → LinkedAgainst builtin b p

theorem Arena.LinkedAgainst.lenient (h : LinkedAgainst builtin a p) : a.Lenient builtin := by
  induction h with
  | @link a b d p cached settled hg ha hs hp hb _ hbound hlenient hrun _ =>
    obtain ⟨b₁, c, hpass⟩ := hg.passes ha hs hp hrun
    cases hpass.bound.symm.trans hbound
    obtain ⟨hbc, hcd⟩ := hpass.keepsVocabulary hb (hs.within hpass.within hp)
    refine (hpass.copies.upholds hpass.placing.toHolds).lenient hcd ?_
      (hpass.lenient_placed hlenient hbc)
    rcases hb with rfl | hb
    · exact hpass.placing.covers_package
    · exact Or.inl (hs.package builtin hb).1
  | @later a b p q cached settled served _ hs hp hb hq hw ih =>
    exact (Upholds.of_nodes hs.closed fun _ hn => hs.node_eq hw hq hn).lenient
      (hs.keepsVocabulary hw hq hb) (hs.package builtin hb).1 ih

theorem Arena.LinkedAgainst.quiet (h : LinkedAgainst builtin a p) :
    ∃ linked held, linked p ∧ Quiet builtin linked held a := by
  induction h with
  | @link a b d p cached settled hg ha hs hp hb _ hbound hlenient hrun ih =>
    choose linked held himport hquiet using fun i : { q // a.Needs p q } => ih i.1 i.2
    have hinter := (Quiet.iUnion hquiet).inter hs
    have hreserved : Gathered p (fun q => (∃ i, linked i q) ∧ cached q) a := hg.reserve ha fun q hq =>
      ⟨⟨⟨q, hq⟩, himport ⟨q, hq⟩⟩, hg.needs hq⟩
    obtain ⟨b₁, c, hpass⟩ := hreserved.passes ha hinter.toSettled (fun e => hp e.2) hrun
    cases hpass.bound.symm.trans hbound
    obtain ⟨b₂, c₂, hpass₂⟩ := hg.passes ha hs hp hrun
    cases hpass₂.bound.symm.trans hbound
    cases hpass₂.placed.symm.trans hpass.placed
    obtain ⟨hbc, hcd⟩ := hpass₂.keepsVocabulary hb (hs.within hpass₂.within hp)
    have hab := hg.keepsVocabulary ha hs hp hb hbound
    exact ⟨_, _, Or.inl rfl, (hinter.within hpass.within (fun e => hp e.2) hab).enters hpass
      (fun e => hp e.2) hlenient hbc hcd⟩
  | @later a b p q cached settled served _ hs hp hb hq hw ih =>
    obtain ⟨linked, held, hlinked, hquiet⟩ := ih
    have hv := hs.keepsVocabulary hw hq hb
    exact ⟨_, _, ⟨hlinked, hp⟩, (hquiet.inter hs).within hw (fun e => hq e.2) hv⟩

theorem Arena.LinkedAgainst.relink (h : LinkedAgainst builtin a p) :
    Link.package p (some builtin) a = .ok () a := by
  obtain ⟨linked, held, hp, hquiet⟩ := h.quiet
  exact hquiet.relink hp

end SchemaLang
