import SchemaLang.Proofs.Arena.Legible
import SchemaLang.Proofs.Link.Upright
import SchemaLang.Proofs.Session.Ordered

/-!
# What the outline of a linked package shows

The nodes that can be reached from a linked package lie in the package and in those that it needs, and the
latter are named by the imports among them (`Arena.Outlined`). So the names that an outline shows are those
of the package and its scripts, and those that were read from sources, which stand on one line
(`Outlined.lineText`). A walk visits each node at the distance that its depth is (`Outlined.traverses`).

* `Gathered.outlined`: a package that is linked is outlined once those that it needs are.
* `Outlined.within`: it stays so while other packages are compiled.
-/

namespace SchemaLang.Arena

open Text

variable {a b d : Arena} {n p q t : Nat} {linked held cached settled served : NodeId → Prop}

/-- The nodes that can be reached from the package, which lie in linked packages, and how they do. -/
structure Outlined (p : NodeId) (linked held : NodeId → Prop) (a : Arena) : Prop where
  settled : Settled linked held a
  aligned : Aligned held a
  self : linked p
  imported : ∀ q : Nat, linked q → q = p ∨ ∃ n, held n ∧ a.kind n = .packageRef q

/-! ## Linking -/

theorem Outlined.within (h : Outlined p linked held a) (hw : Within q served a b) (hq : ¬ linked q) :
    Outlined p linked held b where
  settled := h.settled.within hw hq
  aligned := h.aligned.kept h.settled.closed fun _ hn => h.settled.node_eq hw hq hn
  self := h.self
  imported r hr := (h.imported r hr).imp_right fun ⟨n, hn, hk⟩ =>
    ⟨n, hn, (congrArg Node.kind (h.settled.node_eq hw hq hn)).trans hk⟩

/-- The package that is linked next, if those that it needs are linked already. No others matter. -/
theorem Gathered.outlined {given : Option NodeId} (h : Gathered p cached a) (ha : Anchored a)
    (hp : ¬ cached p) (hf : Finished cached a)
    (hold : ∀ q, cached q → ∃ linked held, (∀ r, linked r → cached r) ∧ Outlined q linked held a)
    (hrun : Link.package p given a = .ok () d) :
    ∃ linked held, (∀ r, linked r → r = p ∨ cached r) ∧ Outlined p linked held d := by
  choose linked held hcached houtlined using fun i : {q // a.Needs p q} => hold i.1 (h.needs i.2)
  have hs := Settled.iUnion fun i => (houtlined i).settled
  have hneeded : Gathered p (fun q => ∃ i, linked i q) a :=
    h.reserve ha fun q hq => ⟨⟨q, hq⟩, (houtlined ⟨q, hq⟩).self⟩
  have hfresh : ¬ ∃ i, linked i p := fun ⟨i, hi⟩ => hp (hcached i p hi)
  have hlinks := ((leads_linkPackage hneeded ha hs hfresh given).ok hrun).1
  obtain ⟨b, c, hpasses⟩ := hneeded.passes ha hs hfresh hrun
  have hfinished : Finished (fun q => ∃ i, linked i q) a := fun q t ⟨i, hi⟩ =>
    hf q t (hcached i q hi)
  refine ⟨fun q => q = p ∨ ∃ i, linked i q, _, fun r hr => hr.imp_right fun ⟨i, hi⟩ => hcached i r hi,
    hpasses.linked, hpasses.aligned hneeded ha hs hfresh hfinished
      (Aligned.iUnion fun i => (houtlined i).aligned), Or.inl rfl, ?_⟩
  rintro q (rfl | ⟨i, hi⟩)
  · exact Or.inl rfl
  · refine Or.inr ?_
    rcases (houtlined i).imported q hi with rfl | ⟨n, hn, hk⟩
    · obtain ⟨n, hn, hk⟩ := i.2
      exact ⟨n, Or.inr (Or.inl ((hlinks.homes n (lt_size_of_home hn)).trans hn)),
        (hlinks.imports n _).2 hk⟩
    · exact ⟨n, Or.inl ⟨i, hn⟩, (hlinks.imports n q).2 hk⟩

/-! ## The targets of references -/

theorem Settled.linked_of_held {decl : Package} (h : Settled linked held a) (hq : held q)
    (hk : a.kind q = .package decl) : linked q := by
  obtain ⟨r, hr, hl⟩ := h.home q hq
  cases hr.symm.trans (home_of_package hk)
  exact hl

/-- The types of a package that can be reached are declarations. -/
theorem Settled.level_of_find? {decl : Package} {name : String} (h : Settled linked held a)
    (hq : held q) (hk : a.kind q = .package decl) (ht : decl.types.find? name = some t) :
    (a.kind t).level = 6 := by
  refine (h.listed q (h.linked_of_held hq hk)).declared t ?_
  unfold typesOf
  rw [package?_eq_some.2 hk]
  exact Registry.mem_nodes_of_find? ht

theorem Settled.value_of_find? {decl : Enumeration} {name : String} (h : Settled linked held a)
    (hn : held n) (hk : a.kind n = .enum decl) (ht : decl.values.find? name = some t) :
    ∃ value, a.kind t = .enumValue value := by
  have hformed := h.formed n hn
  rw [hk] at hformed
  obtain ⟨-, value, hvalue, -⟩ := hformed.1.values (name, t) (Registry.find?_eq_some.1 ht)
  exact ⟨value, hvalue⟩

/-- A reference is bound to a declaration or to a value. -/
theorem Settled.target {reference : Reference} (h : Settled linked held a) (hn : held n)
    (hk : a.kind n = .typeRef reference) (ht : reference.target = some t) :
    (a.kind t).level = 6 ∨ ∃ value, a.kind t = .enumValue value := by
  obtain ⟨path, t', hk', s, script, package, decl, hscript, hks, hkp, -, hdenotes⟩ :=
    h.bound n reference hn hk
  obtain rfl : t' = t := by
    cases hk.symm.trans hk'
    exact Option.some.inj ht
  have hs : held s := h.closed.script hn hscript
  have hpackage : held script.package := h.closed.reference hs (by
    rw [hks]
    exact List.mem_singleton.2 rfl)
  have himported : ∀ {name : String} {other : Package}, a.Imports script name other →
      ∃ q, held q ∧ a.kind q = .package other := fun hi => by
    obtain ⟨-, q, -, hq, -, -, hkq⟩ := h.closed.imports hs hks hi
    exact ⟨q, hq, hkq⟩
  generalize decl.path = path at hdenotes
  cases hdenotes with
  | type _ ht => exact Or.inl (h.level_of_find? hpackage hkp ht)
  | imported hi ht =>
    obtain ⟨q, hq, hkq⟩ := himported hi
    exact Or.inl (h.level_of_find? hq hkq ht)
  | value _ he hke ht => exact Or.inr (h.value_of_find? (h.closed.type hpackage hkp he) hke ht)
  | importedValue hi he hke ht =>
    obtain ⟨q, hq, hkq⟩ := himported hi
    exact Or.inr (h.value_of_find? (h.closed.type hq hkq he) hke ht)

/-! ## Lines -/

section

variable (h : Outlined p linked held a) (hl : Legible a) (hp : Unbroken (a.name p))

include h hl hp

/-- The packages are called what the user has asked for, and what is imported. -/
theorem Outlined.unbroken_package (hq : linked q) : Unbroken (a.name q) := by
  rcases h.imported q hq with rfl | ⟨n, -, hk⟩
  · exact hp
  · have hn := hl n
    rw [hk] at hn
    exact hn.2.2

/-- A node that can be reached is shown as one line. -/
theorem Outlined.lineText (hn : held n) (hs : (a.script? n).isSome → Unbroken (a.name n)) :
    IsLine (a.lineText n) := by
  refine hl.lineText (fun hk => hk.elim (fun hk => ?_) hs) fun reference t hk ht => ?_
  · obtain ⟨decl, hk⟩ := Option.isSome_iff_exists.1 hk
    exact h.unbroken_package hl hp (h.settled.linked_of_held hn (package?_eq_some.1 hk))
  · have hheld : held t := h.settled.closed.reference hn (by
      rw [hk]
      exact Option.mem_toList.2 ht)
    obtain ⟨q, hq, hlinked⟩ := h.settled.home t hheld
    unfold packageName?
    rw [packageOf_of_home hq]
    refine ⟨h.unbroken_package hl hp hlinked, ?_⟩
    have hname := hl t
    rcases h.settled.target hn hk ht with hlevel | ⟨value, hvalue⟩
    · cases hkt : a.kind t <;> rw [hkt] at hlevel hname <;>
        first | (cases hlevel; done) | exact hname
    · rw [hvalue] at hname
      exact hname.unbroken

end

/-! ## Visits -/

/-- A walk visits the nodes at the distances that their depths are, and no scripts but those of the
package. -/
theorem Outlined.traverses (h : Outlined p linked held a) : ∃ visits, a.Traverses 0 [p] visits ∧
    visits.map Prod.fst = a.walk p ∧ ∀ visit ∈ visits, held visit.1 ∧ a.AtDepth visit.1 visit.2 ∧
      ((a.script? visit.1).isSome → visit.1 ∈ a.scriptsOf p) := by
  obtain ⟨hp, decl, hk⟩ := h.settled.package p h.self
  have hroot : a.AtDepth p 0 := .top hk (h.aligned.root p decl hp hk)
  obtain ⟨visits, hvisits, hwalk⟩ := (h.aligned.descends h.settled.closed).traverses ⟨hp, 0, hroot⟩
  refine ⟨visits, hvisits, hwalk, ?_⟩
  have hplaced : ∀ visit ∈ visits, held visit.1 ∧ a.AtDepth visit.1 visit.2 ∧
      (visit.2 = 0 → visit.1 = p) ∧ (visit.2 = 1 → a.Child p visit.1) := by
    refine hvisits.forall (P := fun n d => held n ∧ a.AtDepth n d ∧ (d = 0 → n = p) ∧
      (d = 1 → a.Child p n)) (fun n hn => ?_) fun n d hn x hx => ?_
    · rw [List.mem_singleton.1 hn]
      exact ⟨hp, hroot, fun _ => rfl, fun he => absurd he Nat.zero_ne_one⟩
    · obtain ⟨hheld, hdepth, hzero, -⟩ := hn
      refine ⟨h.settled.closed.child hheld hx, h.aligned.child_atDepth hheld hdepth hx,
        fun he => absurd he (Nat.succ_ne_zero d), fun he => ?_⟩
      rw [← hzero (Nat.succ.inj he)]
      exact hx
  intro visit hvisit
  obtain ⟨hheld, hdepth, hzero, hone⟩ := hplaced visit hvisit
  refine ⟨hheld, hdepth, fun hscript => ?_⟩
  -- scripts are at the depth 1, so the package has this one for a child, and is its parent
  obtain ⟨script, hs⟩ := Option.isSome_iff_exists.1 hscript
  rw [script?_eq_some] at hs
  obtain ⟨hparent, hmem⟩ := h.aligned.script visit.1 script hheld hs
  obtain ⟨q, hq, hlinked⟩ := h.settled.home visit.1 hheld
  cases hq.symm.trans (home_of_script hs)
  obtain ⟨hpackage, decl', hk'⟩ := h.settled.package _ hlinked
  have hdepth' : a.AtDepth visit.1 1 :=
    .up hparent (.top hk' (h.aligned.root _ decl' hpackage hk'))
  have htied := h.aligned.tied p visit.1 hp (by unfold method?; rw [hk]) (hone (hdepth.unique hdepth'))
  cases hparent.symm.trans htied
  exact hmem

end SchemaLang.Arena
