import SchemaLang.Proofs.Link.Outlining
import SchemaLang.Proofs.Session.Editing
import SchemaLang.Proofs.Session.Reordering

/-!
# The outline of a package of a session

The outline of a package has one line for each node that a walk visits, indented by two spaces for each step
that leads to it (`Session.outline_lines`), whatever the names in it are that were read from sources. The
attributes that linking has moved are no exception, and neither are the slots and attributes that several
methods share.
-/

namespace SchemaLang

open Arena Session Text

variable {s : Session} {name : String} {p : NodeId}

/-- The packages of a session are outlined, and need no others. -/
theorem carried_outlined : Session.Carried fun s => Finished s.2.Caches s.1 ∧ ∀ p, s.2.Caches p →
    ∃ linked held, (∀ q, linked q → s.2.Caches q) ∧ Outlined p linked held s.1 where
  within x q b hx hj hq hw := by
    refine ⟨carried_finished.within x q b hx hj.1 hq hw, fun p hp => ?_⟩
    obtain ⟨linked, held, hlinked, h⟩ := hj.2 p hp
    exact ⟨linked, held, hlinked, h.within hw fun hl => hq (hlinked q hl)⟩
  congr x catalogue hj hl := by
    unfold Catalogue.Caches
    rwa [hl]
  enters name p x y hx hj hg hname hp hcalled hlink := by
    refine ⟨carried_finished.enters name p x y hx hj.1 hg hname hp hcalled hlink, fun q hq => ?_⟩
    obtain ⟨hrun, hcatalogue⟩ := linkPackage_eq_ok hlink
    obtain ⟨settled, hsettled⟩ := hx.settled
    have hcaches : ∀ r, (y.2.add name p).Caches r ↔ r = p ∨ x.2.Caches r := fun r => by
      rw [hcatalogue, Catalogue.caches_add hname]
    rcases (hcaches q).1 hq with rfl | hq
    · obtain ⟨linked, held, hlinked, h⟩ := hg.outlined hx.anchored hp hj.1 hj.2 hrun
      exact ⟨linked, held, fun r hr => (hcaches r).2 (hlinked r hr), h⟩
    · obtain ⟨linked, held, hlinked, h⟩ := hj.2 q hq
      have hw := ((leads_linkPackage hg hx.anchored hsettled hp _).ok hrun).1.toWithin
      exact ⟨linked, held, fun r hr => (hcaches r).2 (Or.inr (hlinked r hr)),
        h.within hw fun hl => hp (hlinked p hl)⟩

theorem Session.Reachable.outlined (hs : s.Reachable) (hp : s.package? name = some p) :
    ∃ linked held, Outlined p linked held s.arena := by
  have hnone : ∀ q, ¬ empty.2.Caches q := fun q hq => by
    obtain ⟨other, hother⟩ := Catalogue.caches_iff.1 hq
    cases hother
  obtain ⟨linked, held, -, h⟩ := (carried_outlined.later sound_empty
    ⟨fun q _ hq => absurd hq (hnone q), fun q hq => absurd hq (hnone q)⟩ hs).2 p
      (Catalogue.caches_iff.2 ⟨name, hp⟩)
  exact ⟨linked, held, h⟩

/-- The line for a node that is visited at a distance. -/
def Arena.visitLine (a : Arena) (visit : NodeId × Nat) : String :=
  String.ofList (List.replicate (2 * visit.2) ' ') ++ a.lineText visit.1

theorem Arena.line_eq {a : Arena} {n d : Nat} (h : a.AtDepth n d) :
    a.line n = a.visitLine (n, d) ++ "\n" := by
  unfold line visitLine
  rw [h.depth_eq]

theorem unbroken_visitLine {a : Arena} {visit : NodeId × Nat} (h : IsLine (a.lineText visit.1)) :
    Unbroken (a.visitLine visit) := by
  refine unbroken_append.2 ⟨fun hmem => ?_, h.unbroken⟩
  rw [String.toList_ofList] at hmem
  cases List.eq_of_mem_replicate hmem

/-- The outline of a package consists of one line for each visit of a walk, in the order of the walk, if
the package and its scripts have names without line feeds. The line is indented by two spaces for each step
that leads down to the node, and starts with something else after that. The links to parents lead up to a
package in as many steps. -/
theorem Session.outline_lines (hs : s.Reachable) (hp : s.package? name = some p) (hname : Unbroken name)
    (hscripts : ∀ script ∈ s.arena.scriptsOf p, Unbroken (s.arena.name script)) :
    ∃ visits, s.arena.Traverses 0 [p] visits ∧ visits.map Prod.fst = s.arena.walk p ∧
      s.arena.outline p = String.join (visits.map fun visit => s.arena.visitLine visit ++ "\n") ∧
      (s.arena.outline p).splitToList (· == '\n') = visits.map s.arena.visitLine ++ [""] ∧
      ∀ visit ∈ visits, IsLine (s.arena.lineText visit.1) ∧ s.arena.AtDepth visit.1 visit.2 := by
  obtain ⟨linked, held, h⟩ := hs.outlined hp
  obtain ⟨visits, hvisits, hwalk, hvisit⟩ := h.traverses
  have hpackage : Unbroken (s.arena.name p) := by
    rw [show s.arena.name p = name from hs.sound.named name p hp]
    exact hname
  have hlines : ∀ visit ∈ visits, IsLine (s.arena.lineText visit.1) ∧
      s.arena.AtDepth visit.1 visit.2 := fun visit hmem => by
    obtain ⟨hheld, hdepth, hscript⟩ := hvisit visit hmem
    exact ⟨h.lineText hs.legible hpackage hheld fun hk => hscripts _ (hscript hk), hdepth⟩
  have houtline : s.arena.outline p =
      String.join (visits.map fun visit => s.arena.visitLine visit ++ "\n") := by
    unfold Arena.outline
    rw [← hwalk, List.map_map]
    exact congrArg String.join (List.map_congr_left fun visit hmem => line_eq (hlines visit hmem).2)
  refine ⟨visits, hvisits, hwalk, houtline, ?_, hlines⟩
  have hunbroken : ∀ text ∈ visits.map s.arena.visitLine, Unbroken text := fun text htext => by
    obtain ⟨visit, hmem, rfl⟩ := List.mem_map.1 htext
    exact unbroken_visitLine (hlines visit hmem).1
  rw [houtline, ← splitToList_join hunbroken, List.map_map]
  rfl

/-- In the sample the parameter of the method that is inherited is visited twice, and the note that is moved
once. -/
theorem Session.Full.walk_ok : ∃ x, Full.sample.linked = .ok () x ∧ (x.1.walk 0).count 48 = 2 ∧
    (x.1.walk 0).count 46 = 1 ∧ ∀ script ∈ x.1.scriptsOf 0, Unbroken (x.1.name script) := by
  obtain ⟨x, -, hx, -, -, -, hwalks, -⟩ := Full.read_ok
  obtain ⟨c, hc, hcheck⟩ := succeedsWith_eq_true hwalks
  obtain ⟨hslot, hnote, hscripts⟩ := of_decide_eq_true hcheck
  refine ⟨(c, x.2), Full.sample.linked_eq hx hc, hslot, hnote, fun script hscript => ?_⟩
  rw [hscripts script hscript]
  decide

theorem Session.outline_lines_full : ∃ (t : Session) (visits : List (NodeId × Nat)), t.Reachable ∧
    t.package? Prelude.packageName = some 0 ∧ t.arena.Traverses 0 [0] visits ∧
    (visits.map Prod.fst).count 48 = 2 ∧ (visits.map Prod.fst).count 46 = 1 ∧
    (t.arena.outline 0).splitToList (· == '\n') = visits.map t.arena.visitLine ++ [""] ∧
    ∀ visit ∈ visits, IsLine (t.arena.lineText visit.1) ∧ t.arena.AtDepth visit.1 visit.2 := by
  obtain ⟨x, hx, hslot, hnote, hscripts⟩ := Full.walk_ok
  let t : Session := (x.1, x.2.leave.add Prelude.packageName 0)
  obtain ⟨hreachable, hpackage⟩ := reachable_of_ok (Full.sample.compile_eq hx)
  obtain ⟨visits, hvisits, hwalk, -, hlines, hdepths⟩ :=
    Session.outline_lines hreachable hpackage (by decide) hscripts
  have hwalk : visits.map Prod.fst = x.1.walk 0 := hwalk
  exact ⟨t, visits, hreachable, hpackage, hvisits, hwalk ▸ hslot, hwalk ▸ hnote, hlines, hdepths⟩

end SchemaLang
