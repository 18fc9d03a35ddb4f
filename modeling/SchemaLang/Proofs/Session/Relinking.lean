import SchemaLang.Proofs.Link.Relinking
import SchemaLang.Proofs.Link.Reordering
import SchemaLang.Proofs.Session.Placement
import SchemaLang.Proofs.Session.Tagging

/-!
# Linking the packages of a session again

A package that the compiler has read and linked is linked again without a change. Where the built-in
package was linked first, every other package is linked against it, so that in no later session linking
any package again changes anything (`link_idempotent`).
-/

namespace SchemaLang

open Arena Session

variable {s x : Session} {name : String} {builtin p : NodeId} {b c : Arena}

/-- All packages of the session are linked against the built-in one. -/
def Session.Based (builtin : NodeId) (s : Session) : Prop :=
  s.2.loaded[Prelude.packageName]? = some builtin ∧
    ∀ (name : String) (p : NodeId), s.2.loaded[name]? = some p → LinkedAgainst builtin s.1 p

/-- Every package that enters is linked against the built-in one. -/
theorem carried_based (builtin : NodeId) : Session.Carried (Session.Based builtin) where
  within x q b hx hbased hq hw := by
    obtain ⟨settled, hsettled⟩ := hx.settled
    exact ⟨hbased.1, fun name p hp => .later (hbased.2 name p hp) hsettled
      (Catalogue.caches_iff.2 ⟨name, hp⟩) (Catalogue.caches_iff.2 ⟨_, hbased.1⟩) hq hw⟩
  congr x catalogue hbased hl := by
    unfold Session.Based
    dsimp only
    rw [hl]
    exact hbased
  enters name p x y hx hbased hg hname hp _ hlink := by
    obtain ⟨hrun, hcatalogue⟩ := linkPackage_eq_ok hlink
    obtain ⟨settled, hsettled⟩ := hx.settled
    have hne : name ≠ Prelude.packageName := by
      rintro rfl
      cases hname.symm.trans hbased.1
    have hbuiltin : x.2.builtin name p = some builtin := by
      unfold Catalogue.builtin
      rw [if_neg (by simpa using hne), hbased.1]
    have hcached : x.2.Caches builtin := Catalogue.caches_iff.2 ⟨_, hbased.1⟩
    rw [hbuiltin] at hrun
    obtain ⟨b, c, hpass⟩ := hg.passes hx.anchored hsettled hp hrun
    -- the built-in package stays as it is while the references are bound
    have hlenient : b.Lenient builtin :=
      (Upholds.of_nodes hsettled.closed fun _ hn => hsettled.node_eq hpass.within hp hn).lenient
        (hsettled.keepsVocabulary hpass.within hp hcached) (hsettled.package builtin hcached).1
        (hbased.2 _ _ hbased.1).lenient
    have hlinked : LinkedAgainst builtin y.1 p := by
      refine .link hg hx.anchored hsettled hp (Or.inr hcached) (fun q hq => ?_) hpass.bound hlenient hrun
      obtain ⟨other, hother⟩ := Catalogue.caches_iff.1 (hg.needs hq)
      exact hbased.2 other q hother
    obtain ⟨hl, -⟩ := (leads_linkPackage hg hx.anchored hsettled hp _).ok hrun
    refine ⟨?_, fun other q hq => ?_⟩
    · rw [Catalogue.getElem?_add, if_neg hne, hcatalogue, hbased.1]
    · rw [Catalogue.getElem?_add] at hq
      split at hq
      · cases hq
        exact hlinked
      · rw [hcatalogue] at hq
        exact .later (hbased.2 other q hq) hsettled (Catalogue.caches_iff.2 ⟨other, hq⟩) hcached hp
          hl.toWithin

/-- Linking is idempotent. A package that is linked against a built-in package which lets its own
declarations stand, like every package that it imports, is linked again without a change: in whatever
arena; right after the compiler has read and linked it; and in every session that comes after one whose
packages are all linked against the built-in one. -/
theorem link_idempotent :
    (∀ (a : Arena) (builtin p : NodeId), LinkedAgainst builtin a p →
      Link.package p (some builtin) a = .ok () a) ∧
    (∀ (s t : Session) (provider : Provider) (depth : Nat) (name : String) (sources : Sources)
      (builtin : NodeId) (b c : Arena), s.Reachable → s.package? name = none →
      Compile.readSources provider (Compile.package provider depth) s.arena.size sources
        (s.opened name) = .ok () t →
      (builtin = s.arena.size ∨ ∃ other, t.package? other = some builtin) →
      (∀ q, t.arena.Needs s.arena.size q → LinkedAgainst builtin t.arena q) →
      Link.bindReferences s.arena.size t.arena = .ok () b → b.Lenient builtin →
      Link.package s.arena.size (some builtin) t.arena = .ok () c →
      LinkedAgainst builtin c s.arena.size ∧ Link.package s.arena.size (some builtin) c = .ok () c) ∧
    ∀ (s t : Session) (builtin : NodeId), s.Reachable →
      s.package? Prelude.packageName = some builtin →
      (∀ name p, s.package? name = some p → LinkedAgainst builtin s.arena p) → s.Later t →
      ∀ name p, t.package? name = some p → Link.package p (some builtin) t.arena = .ok () t.arena := by
  refine ⟨fun a builtin p h => h.relink, ?_, ?_⟩
  · intro s t provider depth name sources builtin b c hs hname hrun hb hneeds hbound hlenient hlink
    have hhonest := honest_package provider depth
    obtain ⟨hi, hg⟩ := ((leads_readSources _ provider (hhonest.rests_opened hs.sound hname)
      sources).ok hrun).2
    have hi : s.Compiles name t := hi
    obtain ⟨settled, hsettled⟩ := hi.sound.settled
    have hlinked : LinkedAgainst builtin c s.arena.size :=
      .link hg hi.sound.anchored hsettled hi.entry.2 (hb.imp id Catalogue.caches_iff.2) hneeds hbound
        hlenient hlink
    exact ⟨hlinked, hlinked.relink⟩
  · intro s t builtin hs hb hall hlater name p hp
    exact (((carried_based builtin).later hs.sound ⟨hb, hall⟩ hlater).2 name p hp).relink

/-! ## A built-in package with a note that moves and a method that is inherited -/

namespace Session.Full

/-- The tokens of the script as they are written. The note on the parameter belongs on the script. -/
def words : List (String × TokenKind) :=
  open Words in
  marked 1 ++ usage 2 ++ table "Note" []
    ++ [("contract", .keyword .contract), word "Base", sign '\x7b', word "ping", sign '(', sign '@',
      word "Note", word "Point", sign ')', sign ';', sign '\x7d']
    ++ [("contract", .keyword .contract), word "Derived", sign '(', word "Base", sign ')', sign '\x7b',
      sign '\x7d']

@[irreducible] def bytes : ByteArray :=
  lines words

def tokens : List Token :=
  lineTokens words

theorem lexing_eq : Lexing.ofSource "a" (.ofBytes bytes) = ⟨tokens, none⟩ := by
  unfold bytes
  exact Words.lexing_lines (by decide +kernel)

def sample : Sample := ⟨bytes, tokens, lexing_eq⟩

/-- Whether an attribute of a type shows that the type may stand at a site. -/
def shows (attr type : NodeId) (site : Site) (b : Arena) (vocabulary : Vocabulary) : Bool :=
  match b.usageMask vocabulary attr with
  | .ok mask => b.attrType attr == some type && vocabulary.permits mask site
  | .error _ => false

theorem mayStand_of_shows {attr type : NodeId} {site : Site} {vocabulary : Vocabulary}
    (h : shows attr type site b vocabulary = true) : b.MayStand vocabulary type site := by
  unfold shows at h
  split at h
  · rename_i mask hmask
    simp only [Bool.and_eq_true, beq_iff_eq] at h
    obtain ⟨type', htype, hm⟩ := hasMask_of_usageMask hmask
    cases htype.symm.trans h.1
    exact ⟨mask, hm, h.2⟩
  · cases h

/-- Whether no package is linked, none is imported, and linking the package adds a copy of the method and
moves the note. -/
def links (x : Session) : Bool :=
  x.2.loaded.isEmpty && (List.range x.1.size).all (fun n => (x.1.packageRef? n).isNone) &&
    succeedsWith (fun c => decide (c.size = 52) && decide (46 ∈ (c.node 1).attrs.toList))
      (Link.package 0 (some 0) x.1)

theorem links_eq_true {x : Session} (h : links x = true) : (∀ name : String, x.2.loaded[name]? = none) ∧
    (∀ q, ¬ x.1.Needs 0 q) ∧ ∃ c, Link.package 0 (some 0) x.1 = .ok () c ∧ c.size = 52 ∧
      46 ∈ (c.node 1).attrs := by
  unfold links at h
  rw [Bool.and_eq_true, Bool.and_eq_true, List.all_eq_true] at h
  obtain ⟨⟨hloaded, hrefs⟩, hlinks⟩ := h
  refine ⟨fun name => Std.TreeMap.getElem?_of_isEmpty hloaded, fun q ⟨n, hn, hk⟩ => ?_, ?_⟩
  · have hnone := hrefs n (List.mem_range.2 (lt_size_of_home hn))
    rw [packageRef?_eq_some.2 hk] at hnone
    cases hnone
  · obtain ⟨c, hc, hcheck⟩ := succeedsWith_eq_true hlinks
    rw [Bool.and_eq_true] at hcheck
    exact ⟨c, hc, of_decide_eq_true hcheck.1, Array.mem_toList_iff.1 (of_decide_eq_true hcheck.2)⟩

/-- Whether a walk visits the parameter of the method that is inherited twice and the note that is moved
once. -/
def walks (c : Arena) : Bool :=
  decide ((c.walk 0).count 48 = 2 ∧ (c.walk 0).count 46 = 1 ∧
    ∀ script ∈ c.scriptsOf 0, c.name script = "a")

/-- The package is read and linked, and lets its own declarations stand. Its types can be listed in another
order. -/
theorem read_ok : ∃ x b, sample.read = .ok () x ∧ Link.bindReferences 0 x.1 = .ok () b ∧
    b.Lenient 0 ∧ links x = true ∧ succeedsWith walks (Link.package 0 (some 0) x.1) = true ∧
    (x.1.backwards 0).typesOf 0 ≠ x.1.typesOf 0 := by
  have h : succeedsWith (fun x => Marked.binds (fun b v => Marked.stays 15 b v &&
      shows 33 v.structMarker .struct b v && shows 35 v.errorMarker .enum b v) x && (links x &&
        (succeedsWith walks (Link.package 0 (some 0) x.1) &&
          decide ((x.1.backwards 0).typesOf 0 ≠ x.1.typesOf 0)))) sample.read = true := by
    decide +kernel
  obtain ⟨x, hx, hcheck⟩ := succeedsWith_eq_true h
  rw [Bool.and_eq_true, Bool.and_eq_true, Bool.and_eq_true] at hcheck
  obtain ⟨hbinds, hlinks, hwalks, hlisted⟩ := hcheck
  obtain ⟨b, v, hb, hv, hlenient⟩ := Marked.binds_eq_true hbinds
  rw [Bool.and_eq_true, Bool.and_eq_true] at hlenient
  exact ⟨x, b, hx, hb, ⟨v, hv, Marked.usageStays_of_stays hlenient.1.1,
    mayStand_of_shows hlenient.1.2, mayStand_of_shows hlenient.2⟩, hlinks, hwalks,
    of_decide_eq_true hlisted⟩

end Session.Full

theorem link_idempotent_full :
    (∃ c : Arena, c.size = 52 ∧ 46 ∈ (c.node 1).attrs ∧ LinkedAgainst 0 c 0 ∧
      Link.package 0 (some 0) c = .ok () c) ∧
    ∃ t : Session, t.Reachable ∧ t.package? Prelude.packageName = some 0 ∧
      ∀ later, t.Later later → ∀ name p, later.package? name = some p →
        Link.package p (some 0) later.arena = .ok () later.arena := by
  obtain ⟨harena, hcompiler, hsessions⟩ := link_idempotent
  obtain ⟨x, b, hx, hb, hlenient, hlinks, -⟩ := Full.read_ok
  obtain ⟨hloaded, hneeds, c, hc, hsize, hnote⟩ := Full.links_eq_true hlinks
  have hrun : Compile.readSources Full.sample.sources (Compile.package Full.sample.sources 0) 0
      (.files [⟨"a"⟩]) Sample.begun = .ok () x := forM_cons_ok [] (Full.sample.readPath_eq.trans hx)
  obtain ⟨hlinked, -⟩ := hcompiler empty x Full.sample.sources 0 Prelude.packageName (.files [⟨"a"⟩]) 0 b
    c .refl rfl hrun (Or.inl rfl) (fun q hq => absurd hq (hneeds q)) hb hlenient hc
  refine ⟨⟨c, hsize, hnote, hlinked, harena c 0 0 hlinked⟩, (c, x.2.leave.add Prelude.packageName 0), ?_⟩
  obtain ⟨hreachable, hpackage⟩ :=
    reachable_of_ok (Full.sample.compile_eq (Full.sample.linked_eq hx hc))
  refine ⟨hreachable, hpackage, fun later hlater => hsessions _ later 0 hreachable hpackage
    (fun name p hp => ?_) hlater⟩
  have hp : (x.2.leave.add Prelude.packageName 0).loaded[name]? = some p := hp
  rw [Catalogue.getElem?_add] at hp
  split at hp
  · cases hp
    exact hlinked
  · cases (hloaded name).symm.trans hp

end SchemaLang
