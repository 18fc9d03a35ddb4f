import SchemaLang.Proofs.Link.Shuffling
import SchemaLang.Proofs.Session.Relinking

/-!
# Linking the packages of a session in another order

A package that the compiler has read waits to be linked (`Session.awaits`): the contracts of the packages
that are linked already are flattened, since each of them was left so when it was linked
(`carried_finished`). So the order in which its types are listed does not matter (`link_reordered`).
-/

namespace SchemaLang

open Arena Session

variable {s t : Session} {name : String} {provider : Provider} {depth : Nat} {sources : Sources}

/-- The contracts of all packages that enter a session are flattened. -/
theorem carried_finished : Session.Carried fun s => Finished s.2.Caches s.1 where
  within x p b hx hf hp hw := by
    obtain ⟨settled, hsettled⟩ := hx.settled
    exact hf.within hsettled hw hp
  congr x catalogue hf hl := by
    unfold Catalogue.Caches
    rwa [hl]
  enters name p x y hx hf hg hname hp _ hlink := by
    obtain ⟨hrun, hcatalogue⟩ := linkPackage_eq_ok hlink
    obtain ⟨settled, hsettled⟩ := hx.settled
    obtain ⟨b, c, hpasses⟩ := hg.passes hx.anchored hsettled hp hrun
    intro q t hq
    rw [hcatalogue, Catalogue.caches_add hname] at hq
    exact hpasses.finished hg hx.anchored hsettled hp hf q t hq

/-- A package that the compiler has read waits to be linked. -/
theorem Session.awaits (hs : s.Reachable) (hname : s.package? name = none)
    (hrun : Compile.readSources provider (Compile.package provider depth) s.arena.size sources
      (s.opened name) = .ok () t) : ∃ settled, Awaits s.arena.size t.2.Caches settled t.arena := by
  have hcarrying := carried_finished.package provider depth
  have hhonest := honest_package provider depth
  have hfinished : Finished s.2.Caches s.1 := carried_finished.later sound_empty
    (fun q _ hq => by
      obtain ⟨other, hother⟩ := Catalogue.caches_iff.1 hq
      cases hother) hs
  have hrests := carried_finished.rests_opened hcarrying hhonest hs.sound hname hfinished
  obtain ⟨⟨hi, hf⟩, hg⟩ := ((leads_readSources _ provider hrests sources).ok hrun).2
  have hi : s.Compiles name t := hi
  obtain ⟨settled, hsettled⟩ := hi.sound.settled
  exact ⟨settled, hg, hi.sound.anchored, hsettled, hi.entry.2, hf⟩

/-- Linking the package does not depend on the order of its declarations: in whatever order it and its
scripts list their types, it is linked in all orders or in none, and to the same targets, ids, tags and
attributes. -/
def Arena.LinksInAnyOrder (a : Arena) (package : NodeId) (builtin : Option NodeId) : Prop :=
  ∀ b, Reordered package a b →
    ((∃ c, Link.package package builtin a = .ok () c) ↔ ∃ d, Link.package package builtin b = .ok () d) ∧
    ∀ c d, Link.package package builtin a = .ok () c → Link.package package builtin b = .ok () d →
      LinkedAlike package a c d

theorem Arena.Awaits.linksInAnyOrder {a : Arena} {p : Nat} {builtin : Option NodeId}
    {cached settled : NodeId → Prop} (ha : Awaits p cached settled a)
    (hu : a.UsageMayStand p (builtin.getD p)) : a.LinksInAnyOrder p builtin := by
  intro b h
  refine ⟨⟨fun ⟨c, hc⟩ => ?_, fun ⟨d, hd⟩ => ?_⟩, fun c d hc hd => ?_⟩
  · obtain ⟨d, hd, -⟩ := h.link ha hu hc
    exact ⟨d, hd⟩
  · obtain ⟨c, hc, -⟩ := h.symm.link (h.awaits ha) (h.usageMayStand ha hu) hd
    exact ⟨c, hc⟩
  · obtain ⟨d', hd', halike⟩ := h.link ha hu hc
    cases hd.symm.trans hd'
    exact halike

/-- The order of declarations does not matter to linking, where the usage declaration of the built-in
package may stand on tables and structs: for every package that is read and waits to be linked, in
whatever arena, and in particular for what the compiler has read, from every session. -/
theorem link_reordered :
    (∀ (a : Arena) (p : NodeId) (cached settled : NodeId → Prop) (builtin : Option NodeId),
      Awaits p cached settled a → a.UsageMayStand p (builtin.getD p) → a.LinksInAnyOrder p builtin) ∧
    ∀ (s t : Session) (provider : Provider) (depth : Nat) (name : String) (sources : Sources)
      (builtin : Option NodeId), s.Reachable → s.package? name = none →
      Compile.readSources provider (Compile.package provider depth) s.arena.size sources
        (s.opened name) = .ok () t →
      t.arena.UsageMayStand s.arena.size (builtin.getD s.arena.size) →
      t.arena.LinksInAnyOrder s.arena.size builtin := by
  refine ⟨fun a p cached settled builtin ha hu => ha.linksInAnyOrder hu, ?_⟩
  intro s t provider depth name sources builtin hs hname hrun hu
  obtain ⟨settled, ha⟩ := Session.awaits hs hname hrun
  exact ha.linksInAnyOrder hu

theorem link_reordered_full : ∃ (t : Session) (c d : Arena), t.arena.UsageMayStand 0 0 ∧
    (t.arena.backwards 0).typesOf 0 ≠ t.arena.typesOf 0 ∧
    Link.package 0 (some 0) t.arena = .ok () c ∧ c.size = 52 ∧ 46 ∈ (c.node 1).attrs ∧
    Link.package 0 (some 0) (t.arena.backwards 0) = .ok () d ∧ LinkedAlike 0 t.arena c d ∧
      t.arena.LinksInAnyOrder 0 none := by
  obtain ⟨harena, hcompiler⟩ := link_reordered
  obtain ⟨x, b, hx, hb, hlenient, hlinks, -, hlisted⟩ := Full.read_ok
  obtain ⟨-, -, c, hc, hsize, hnote⟩ := Full.links_eq_true hlinks
  have hrun : Compile.readSources Full.sample.sources (Compile.package Full.sample.sources 0) 0
      (.files [⟨"a"⟩]) Sample.begun = .ok () x := forM_cons_ok [] (Full.sample.readPath_eq.trans hx)
  have hu : x.1.UsageMayStand 0 0 := by
    intro b' vocabulary hb' hv
    cases hb'.symm.trans hb
    obtain ⟨v, hv', hstays, -⟩ := hlenient
    cases hv'.symm.trans hv
    exact hstays
  obtain ⟨settled, ha⟩ := Session.awaits (s := empty) .refl rfl hrun
  obtain ⟨hiff, halike⟩ := harena x.1 0 x.2.Caches settled (some 0) ha hu _
    (reordered_backwards x.1 0)
  obtain ⟨d, hd⟩ := hiff.1 ⟨c, hc⟩
  exact ⟨x, c, d, hu, hlisted, hc, hsize, hnote, hd, halike c d hc hd,
    hcompiler empty x Full.sample.sources 0 Prelude.packageName (.files [⟨"a"⟩]) none .refl rfl hrun hu⟩

end SchemaLang
