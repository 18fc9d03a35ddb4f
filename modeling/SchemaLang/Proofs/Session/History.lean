import SchemaLang.Proofs.Session.Importing

/-!
# How packages entered a session

A package enters a session when it is linked. Other packages may be compiled around it at that time, and
their nodes change later, but nothing that can be reached from the package does (`Session.Entered`). So
what holds of a package when it is linked holds of it in every session after that.

* `Session.Carried`: what a property of sessions must be kept by, so that all later sessions have it
  (`Carried.later`).
* `Session.Reachable.entered`: how each package of a session entered it.
-/

namespace SchemaLang

open Arena Session

variable {importer : Importer Catalogue} {provider : Provider} {s x y : Session} {name : String}
  {p q n : Nat} {J : Session → Prop}

/-! ## What carries through all sessions -/

/-- The property of sessions is kept by steps within a package that is not linked, and by a package that
enters. It does not depend on the packages that are being compiled. -/
structure Session.Carried (J : Session → Prop) : Prop where
  within : ∀ (x : Session) (p : Nat) (b : Arena), Sound x → J x → ¬ x.2.Caches p →
    Within p x.2.Caches x.1 b → J (b, x.2)
  congr : ∀ (x : Session) (catalogue : Catalogue), J x → catalogue.loaded = x.2.loaded →
    J (x.1, catalogue)
  enters : ∀ (name : String) (p : Nat) (x y : Session), Sound x → J x →
    Gathered p x.2.Caches x.1 → x.2.loaded[name]? = none → ¬ x.2.Caches p → x.1.name p = name →
    Compile.linkPackage name p x = .ok () y → J (y.1, y.2.add name p)

/-- The importer keeps the property. -/
def Carrying (J : Session → Prop) (importer : Importer Catalogue) : Prop :=
  ∀ (name : String) (position : Position) (x : Session), Sound x → J x →
    Leads (fun _ y => J y) (importer name position) x fun _ _ => True

/-- Linking a package stays within the package, and leaves the catalogue alone. -/
theorem within_linkPackage {settled : NodeId → Prop} (h : Gathered p x.2.Caches x.1)
    (ha : Anchored x.1) (hs : Settled x.2.Caches settled x.1) (hp : ¬ x.2.Caches p) (name : String) :
    Leads (fun x y : Session => y.2 = x.2 ∧ Within p x.2.Caches x.1 y.1)
      (Compile.linkPackage name p) x fun _ _ => True := by
  have hlink := leads_linkPackage h ha hs hp (if name == Prelude.packageName then some p
    else x.2.loaded[Prelude.packageName]?)
  unfold Leads Compile.linkPackage at *
  dsimp only
  split at hlink
  · rename_i hrun
    rw [hrun]
    exact ⟨⟨rfl, hlink.1.toWithin⟩, trivial⟩
  · rename_i hrun
    rw [hrun]
    exact ⟨rfl, hlink.toWithin⟩

namespace Session.Carried

variable (hJ : Carried J)

/-- The host of a reading, with the property. -/
def hosting (hc : Carrying J importer) (h : Honest importer) (hs : Sound s) (name : String) :
    Hosting importer s.1.size :=
  (h.hosting hs name).alongside (fun a catalogue => J (a, catalogue))
    (fun hi hj hw => hJ.within _ _ _ hi.sound hj hi.entry.2 hw)
    (fun hi hj hq => ((hc _ _ _ hi.sound hj).ok hq).1)
    fun hi hj he => (hc _ _ _ hi.sound hj).error he

include hJ

/-- A package that is opened is ready to be read. -/
theorem rests_opened (hc : Carrying J importer) (h : Honest importer) (hs : Sound s)
    (hname : s.2.loaded[name]? = none) (hj : J s) :
    (hJ.hosting hc h hs name).Rests (s.opened name) := by
  have hrests := h.rests_opened hs hname
  have hopened := hJ.within s s.1.size _ hs hj hs.not_caches_size
    (gathered_newPackage hs.anchored name).1
  exact ⟨⟨hrests.1, hJ.congr (_, s.2) (s.opened name).2 hopened rfl⟩, hrests.2⟩

theorem load (hc : Carrying J importer) (h : Honest importer) (hs : Sound s)
    (hname : s.2.loaded[name]? = none) (hj : J s) (provider : Provider) (sources : Sources) :
    Leads (fun _ y => J y) (Compile.load provider importer name sources) s fun _ _ => True := by
  have hrests := hJ.rests_opened hc h hs hname hj
  have hread := leads_readSources (hJ.hosting hc h hs name) provider hrests sources
  have hrun := load_eq provider importer name sources s
  -- linking keeps the property whether it succeeds or not
  have hlink : ∀ x₁, (hJ.hosting hc h hs name).Rests x₁ → s.Compiles name x₁ ∧
      Gathered s.1.size x₁.2.Caches x₁.1 ∧ J x₁ ∧ Leads (fun x y : Session => y.2 = x.2 ∧
        Within s.1.size x.2.Caches x.1 y.1) (Compile.linkPackage name s.1.size) x₁ fun _ _ => True := by
    rintro x₁ ⟨⟨hi, hj₁⟩, hg⟩
    have hi : s.Compiles name x₁ := hi
    obtain ⟨settled, hsettled⟩ := hi.sound.settled
    exact ⟨hi, hg, hj₁, within_linkPackage hg hi.sound.anchored hsettled hi.entry.2 name⟩
  split at hrun
  · rename_i x hx
    obtain ⟨_, x₁, hsources, hlinked⟩ := of_bind_ok hx
    obtain ⟨hi, hg, hj₁, -⟩ := hlink x₁ (hread.ok hsources).2
    exact .of_ok hrun (hJ.congr (x.1, x.2.add name s.1.size) _ (hJ.enters name _ x₁ x hi.sound hj₁ hg
      hi.entry.1 hi.entry.2 hi.called hlinked) rfl) trivial
  · rename_i failure x hx
    have hcompiles : s.Compiles name x :=
      ((h.leads_steps hs provider hname sources).error hx).inv hrests.1.1
    have hjx : J x := by
      rcases of_bind_error hx with hsources | ⟨_, x₁, hsources, hlinked⟩
      · exact ((hread.error hsources).inv hrests.1).2
      · obtain ⟨hi, -, hj₁, hlead⟩ := hlink x₁ (hread.ok hsources).2
        obtain ⟨hcatalogue, hw⟩ := hlead.error hlinked
        have hjb := hJ.within x₁ _ _ hi.sound hj₁ hi.entry.2 hw
        rwa [← hcatalogue] at hjb
    split at hrun
    · rename_i hsize
      rw [hcompiles.leave.1 hsize] at hrun
      exact .of_error hrun hj
    · exact .of_error hrun (hJ.congr x _ hjx rfl)

theorem package (provider : Provider) (depth : Nat) :
    Carrying J (Compile.package provider depth) := by
  have hsame : ∀ {step : Compile NodeId} {result : EStateM.Result Diagnostic Session NodeId}
      {x : Session}, step x = result → J x →
      ((∃ q, result = .ok q x) ∨ ∃ failure, result = .error failure x) →
      Leads (fun _ y => J y) step x fun _ _ => True := by
    rintro step result x hrun hx (⟨q, rfl⟩ | ⟨failure, rfl⟩)
    · exact .of_ok hrun hx trivial
    · exact .of_error hrun hx
  induction depth with
  | zero =>
    intro name position x hs hx
    rcases package_cases provider 0 name position x with
      ⟨q, -, hrun⟩ | ⟨-, ⟨failure, hrun⟩ | ⟨_, _, hdepth, -⟩⟩
    · exact hsame hrun hx (Or.inl ⟨q, rfl⟩)
    · exact hsame hrun hx (Or.inr ⟨failure, rfl⟩)
    · cases hdepth
  | succ depth ih =>
    intro name position x hs hx
    rcases package_cases provider (depth + 1) name position x with
      ⟨q, -, hrun⟩ | ⟨hname, ⟨failure, hrun⟩ | ⟨_, sources, hdepth, -, -, hrun⟩⟩
    · exact hsame hrun hx (Or.inl ⟨q, rfl⟩)
    · exact hsame hrun hx (Or.inr ⟨failure, rfl⟩)
    · cases hdepth
      have hload := hJ.load ih (honest_package provider depth) hs hname hx provider sources
      unfold Leads at hload ⊢
      rwa [hrun]

/-- What carries through all calls. -/
theorem later {t : Session} (hs : Sound s) (hj : J s) (ht : s.Later t) : J t := by
  induction ht with
  | refl => exact hj
  | tail ht hcall ih =>
    obtain ⟨provider, name, hcall⟩ := hcall
    have hlead := hJ.package provider provider.depth name .unknown _ (Later.follows ht hs).sound ih
    rcases hcall with ⟨q, hq⟩ | ⟨failure, hf⟩
    · exact (hlead.ok hq).1
    · exact hlead.error hf

end Session.Carried

/-! ## Packages that have entered -/

/-- The built-in package that a package is linked against. -/
def Catalogue.builtin (catalogue : Catalogue) (name : String) (package : NodeId) : Option NodeId :=
  if name == Prelude.packageName then some package else catalogue.loaded[Prelude.packageName]?

/-- The package was linked in the session `x`, which led to the arena `b`. What `held` holds of is what can
be reached from it and from the packages that were linked before it, and has stayed since. -/
structure Session.Entered (s : Session) (name : String) (package : NodeId) (x : Session) (b : Arena)
    (held : NodeId → Prop) : Prop where
  sound : Sound x
  gathered : Gathered package x.2.Caches x.1
  fresh : ¬ x.2.Caches package
  linked : Link.package package (x.2.builtin name package) x.1 = .ok () b
  settled : Settled (fun q => q = package ∨ x.2.Caches q) held b
  stays : Settled (fun q => q = package ∨ x.2.Caches q) held s.1
  kept : ∀ n : Nat, held n → s.1.node n = b.node n
  loaded : ∀ (other : String) (q : NodeId), x.2.loaded[other]? = some q → s.2.loaded[other]? = some q
  entered : s.2.loaded[name]? = some package

theorem Session.Entered.caches {held : NodeId → Prop} {b : Arena} (h : s.Entered name p x b held)
    (hq : q = p ∨ x.2.Caches q) : s.2.Caches q := by
  rcases hq with rfl | hq
  · exact Catalogue.caches_iff.2 ⟨name, h.entered⟩
  · obtain ⟨other, hother⟩ := Catalogue.caches_iff.1 hq
    exact Catalogue.caches_iff.2 ⟨other, h.loaded other q hother⟩

/-- Declarations of the package have stayed. -/
theorem Session.Entered.held_of_level {held : NodeId → Prop} {b : Arena}
    (h : s.Entered name p x b held) (hn : s.1.home n = some p) (hl : (s.1.kind n).level = 6) :
    held n := by
  refine (h.stays.whole n p hn (Or.inl rfl)).resolve_right fun hm => ?_
  obtain ⟨decl, hd⟩ := Option.isSome_iff_exists.1 hm
  rw [method?_eq_some.1 hd] at hl
  cases hl

theorem Session.Entered.home_eq {held : NodeId → Prop} {b : Arena} (h : s.Entered name p x b held)
    (hn : held n) : s.1.home n = b.home n :=
  home_of_nodes (h.kept n hn) fun t ht => h.kept t (h.settled.closed.script hn ht)

/-- Steps within a package that is not linked do not reach it. -/
theorem Session.Entered.within {held : NodeId → Prop} {b c : Arena} {served : NodeId → Prop}
    (h : s.Entered name p x b held) (hq : ¬ s.2.Caches q) (hw : Within q served s.1 c) :
    Session.Entered (c, s.2) name p x b held where
  sound := h.sound
  gathered := h.gathered
  fresh := h.fresh
  linked := h.linked
  settled := h.settled
  stays := h.stays.within hw fun hc => hq (h.caches hc)
  kept n hn := (h.stays.node_eq hw (fun hc => hq (h.caches hc)) hn).trans (h.kept n hn)
  loaded := h.loaded
  entered := h.entered

/-- Other entries of the catalogue do not matter. -/
theorem Session.Entered.recatalogue {held : NodeId → Prop} {b : Arena} {catalogue : Catalogue}
    (h : s.Entered name p x b held) (hl : ∀ (other : String) (q : NodeId),
      s.2.loaded[other]? = some q → catalogue.loaded[other]? = some q) :
    Session.Entered (s.1, catalogue) name p x b held :=
  { h with
    loaded := fun other q hq => hl other q (h.loaded other q hq)
    entered := hl name p h.entered }

theorem linkPackage_eq_ok (h : Compile.linkPackage name p x = .ok () y) :
    Link.package p (x.2.builtin name p) x.1 = .ok () y.1 ∧ y.2 = x.2 := by
  unfold Compile.linkPackage at h
  dsimp only at h
  split at h
  · rename_i hrun
    cases h
    exact ⟨hrun, rfl⟩
  · cases h

theorem carried_entered : Session.Carried fun s => ∀ (name : String) (p : NodeId),
    s.2.loaded[name]? = some p → ∃ x b held, s.Entered name p x b held where
  within x q b _ hx hq hw name p hp := by
    obtain ⟨x', b', held, h⟩ := hx name p hp
    exact ⟨x', b', held, h.within hq hw⟩
  congr x catalogue hx hl name p hp := by
    obtain ⟨x', b', held, h⟩ := hx name p (hl ▸ hp)
    exact ⟨x', b', held, h.recatalogue fun other q hq => hl ▸ hq⟩
  enters name p x y hs hx hg hname hp hcalled hlink other q hq := by
    obtain ⟨hrun, hcatalogue⟩ := linkPackage_eq_ok hlink
    obtain ⟨settled, hsettled⟩ := hs.settled
    obtain ⟨hl, held, hheld⟩ := (leads_linkPackage hg hs.anchored hsettled hp _).ok hrun
    have hadd : ∀ (r : String) (t : NodeId), x.2.loaded[r]? = some t →
        (y.2.add name p).loaded[r]? = some t := fun r t ht => by
      rw [Catalogue.getElem?_add, if_neg, hcatalogue, ht]
      rintro rfl
      rw [hname] at ht
      cases ht
    have hq' := hq
    rw [Catalogue.getElem?_add] at hq'
    split at hq'
    · rename_i hsame
      cases hq'
      subst hsame
      exact ⟨x, y.1, held, hs, hg, hp, hrun, hheld, hheld, fun _ _ => rfl, hadd, hq⟩
    · rw [hcatalogue] at hq'
      obtain ⟨x', b', held', h⟩ := hx other q hq'
      exact ⟨x', b', held', (h.within hp hl.toWithin).recatalogue hadd⟩

/-- How each package of a session entered it. -/
theorem Session.Reachable.entered (hs : s.Reachable) (hp : s.package? name = some p) :
    ∃ x b held, s.Entered name p x b held :=
  carried_entered.later sound_empty (fun name p hp => by cases hp) hs name p hp

end SchemaLang
