import SchemaLang.Proofs.Grammar.Imports
import SchemaLang.Proofs.Outcome
import SchemaLang.Proofs.Session.Reachable

/-!
# Imports through the files of a provider

What a package imports can be read off its files, without a session. A package enters a session only
after its imports were answered, so along the imports of its files the linked packages are founded:
no chain of imports from one of them goes on for ever (`grounded_package`). A package with a cycle
of imports before it is therefore never linked (`compile_error_of_cycle`).
-/

namespace SchemaLang

open Arena Session

/-- The source of a script of the package `name`. -/
inductive Provider.Scripts (provider : Provider) (name : String) : Text.Source → Prop where
  | embedded (located : provider.locate name = .ok .embedded) :
    Scripts provider name ⟨Prelude.text.toList, true⟩
  | file {paths : List Path} {path : Path} {bytes : ByteArray}
    (located : provider.locate name = .ok (.files paths)) (mem : path ∈ paths)
    (read : provider.read path = .ok bytes) : Scripts provider name (.ofBytes bytes)

/-- A script of the package `name` imports the package `other`. -/
def Provider.Imports (provider : Provider) (name other : String) : Prop :=
  ∃ source, provider.Scripts name source ∧ Phrase.Imports name source.kinds other

/-- The package is linked under this name. -/
def Catalogue.Knows (name : String) (catalogue : Catalogue) : Prop :=
  catalogue.loaded[name]?.isSome

/-- No chain of imports from a linked package goes on for ever. -/
def Catalogue.Grounded (provider : Provider) (catalogue : Catalogue) : Prop :=
  ∀ name, catalogue.Knows name → Acc (fun other name => provider.Imports name other) name

variable {importer : Importer Catalogue} {provider : Provider} {s x y : Session} {name : String}
  {p : Nat}

theorem Session.Advances.knows (h : Advances x y) (hx : x.2.Knows name) : y.2.Knows name := by
  obtain ⟨q, hq⟩ := Option.isSome_iff_exists.1 hx
  exact Option.isSome_iff_exists.2 ⟨q, h.loaded name q hq⟩

theorem Catalogue.Grounded.congr {catalogue catalogue' : Catalogue} (h : catalogue.Grounded provider)
    (hl : catalogue'.loaded = catalogue.loaded) : catalogue'.Grounded provider := by
  intro name hname
  refine h name ?_
  unfold Catalogue.Knows at *
  rwa [← hl]

/-! ## Reading the sources -/

theorem Session.Compiles.called (h : s.Compiles name x) : x.1.name s.1.size = name :=
  (h.sound.loading (name, s.1.size) (by
    rw [h.loading]
    exact List.mem_append_right _ (List.mem_singleton.2 rfl))).2.2.2

theorem Honest.recalls (h : Honest importer) (hs : Sound s) (name : String) :
    (h.hosting hs name).Recalls Catalogue.Knows where
  answered hi hq := by
    obtain ⟨hy, hq⟩ := (h _ _ _ hi.sound).leads.ok hq
    exact ⟨Option.isSome_iff_exists.2 ⟨_, hq⟩, fun other => hy.advances.knows⟩
  refused hi he other := ((h _ _ _ hi.sound).leads.error he).advances.knows

/-- Once the sources of a package are read, what its scripts import is known. -/
theorem known_readSources {hosting : Hosting importer p} {Known : String → Catalogue → Prop}
    (hk : hosting.Recalls Known)
    (hname : ∀ x : Session, hosting.Inv x.1 x.2 → x.1.name p = name) (hx : hosting.Rests x)
    {sources : Sources} (hl : provider.locate name = .ok sources)
    (hrun : Compile.readSources provider importer p sources x = .ok () y) {path : String}
    (hp : provider.Imports name path) : Known path y.2 := by
  obtain ⟨source, hsource, hp⟩ := hp
  cases hsource with
  | embedded located =>
    cases hl.symm.trans located
    exact known_readFile hk hx hrun (by rw [hname x hx.1]; exact hp)
  | @file paths path' bytes located mem read =>
    cases hl.symm.trans located
    change paths.forM (Compile.readPath provider importer p) x = .ok () y at hrun
    clear located hl
    induction paths generalizing x with
    | nil => cases mem
    | cons file rest ih =>
      obtain ⟨_, x₁, hfile, hrest⟩ := of_bind_ok hrun
      have hx₁ := ((leads_readPath hosting provider hx file).ok hfile).2
      rcases List.mem_cons.1 mem with rfl | mem
      · have hknown : Known path x₁.2 := by
          unfold Compile.readPath at hfile
          rw [read] at hfile
          exact known_readFile hk hx hfile (by rw [hname x hx.1]; exact hp)
        -- the other files do not make the host forget it
        have hx₂ : (hk.since x₁.2).Rests x₁ := ⟨⟨hx₁.1, fun _ => id⟩, hx₁.2⟩
        exact ((leads_readSources (hk.since x₁.2) provider hx₂ (.files rest)).ok hrest).2.1.2 path
          hknown
      · exact ih hx₁ mem hrest

/-! ## Compiling -/

/-- The importer keeps sessions grounded. -/
def Grounding (provider : Provider) (importer : Importer Catalogue) : Prop :=
  ∀ (name : String) (position : Position) (x : Session), Sound x → x.2.Grounded provider →
    Leads (fun _ y => y.2.Grounded provider) (importer name position) x fun _ _ => True

/-- Linking a package leaves the catalogue alone. -/
theorem linkPackage_catalogue (name : String) (p : NodeId) (x : Session) :
    Leads (fun x y : Session => y.2 = x.2) (Compile.linkPackage name p) x fun _ _ => True := by
  unfold Leads Compile.linkPackage
  dsimp only
  split
  · rename_i heq
    split at heq
    · cases heq
      exact ⟨rfl, trivial⟩
    · cases heq
  · rename_i heq
    split at heq
    · cases heq
    · cases heq
      rfl

section

variable (h : Honest importer) (hg : Grounding provider importer) (hs : Sound s)

/-- The host of a reading, with a grounded session. -/
def Grounding.hosting (name : String) : Hosting importer s.1.size :=
  (h.hosting hs name).also (Catalogue.Grounded provider)
    (fun hi hj hq => ((hg _ _ _ hi.sound hj).ok hq).1)
    fun hi hj he => (hg _ _ _ hi.sound hj).error he

include h hg hs

/-- A package enters a grounded session after all that its files import. -/
theorem Grounding.load (hname : s.2.loaded[name]? = none) (hj : s.2.Grounded provider)
    {sources : Sources} (hl : provider.locate name = .ok sources) :
    Leads (fun _ y => y.2.Grounded provider) (Compile.load provider importer name sources) s
      fun _ _ => True := by
  have hrests := h.rests_opened hs hname
  have hread := leads_readSources (hg.hosting h hs name) provider ⟨⟨hrests.1, hj.congr rfl⟩, hrests.2⟩
    sources
  have hrun := load_eq provider importer name sources s
  split at hrun
  · rename_i x hx
    obtain ⟨_, x₁, hsources, hlink⟩ := of_bind_ok hx
    have hx₁ := (hread.ok hsources).2.1.2
    have hcatalogue : x.2 = x₁.2 := ((linkPackage_catalogue ..).ok hlink).1
    refine .of_ok hrun (fun other hother => ?_) trivial
    unfold Catalogue.Knows at hother
    rw [Catalogue.getElem?_add] at hother
    split at hother
    · rename_i hsame
      subst hsame
      refine .intro _ fun path hp => hx₁ path ?_
      exact known_readSources (h.recalls hs name) (fun _ hi => hi.called) hrests hl hsources hp
    · rw [Catalogue.loaded_leave, hcatalogue] at hother
      exact hx₁ other hother
  · rename_i failure x hx
    refine .of_error hrun ?_
    have hx₂ : x.2.Grounded provider := by
      rcases of_bind_error hx with hsources | ⟨_, x₁, hsources, hlink⟩
      · exact ((hread.error hsources).inv ⟨hrests.1, hj.congr rfl⟩).2
      · have hcatalogue : x.2 = x₁.2 := (linkPackage_catalogue ..).error hlink
        rw [hcatalogue]
        exact (hread.ok hsources).2.1.2
    exact hx₂.congr rfl

end

theorem grounded_package (provider : Provider) (depth : Nat) :
    Grounding provider (Compile.package provider depth) := by
  have hsame : ∀ {step : Compile NodeId} {result : EStateM.Result Diagnostic Session NodeId}
      {x : Session}, step x = result → x.2.Grounded provider →
      ((∃ q, result = .ok q x) ∨ ∃ failure, result = .error failure x) →
      Leads (fun _ y => y.2.Grounded provider) step x fun _ _ => True := by
    rintro step result x hrun hx (⟨q, rfl⟩ | ⟨failure, rfl⟩)
    · exact .of_ok hrun hx trivial
    · exact .of_error hrun hx
  induction depth with
  | zero =>
    intro name position x hs hx
    rcases package_cases provider 0 name position x with
      ⟨q, -, hrun⟩ | ⟨-, ⟨failure, hrun⟩ | ⟨_, _, hdepth, -⟩⟩
    · exact hsame hrun hx (Or.inl ⟨q, rfl⟩)
    · exact hsame hrun hx (Or.inr ⟨failure, rfl⟩)
    · cases hdepth
  | succ depth ih =>
    intro name position x hs hx
    rcases package_cases provider (depth + 1) name position x with
      ⟨q, -, hrun⟩ | ⟨hname, ⟨failure, hrun⟩ | ⟨_, sources, hdepth, hl, -, hrun⟩⟩
    · exact hsame hrun hx (Or.inl ⟨q, rfl⟩)
    · exact hsame hrun hx (Or.inr ⟨failure, rfl⟩)
    · cases hdepth
      have hload := Grounding.load (honest_package provider depth) ih hs hname hx hl
      unfold Leads at hload ⊢
      rwa [hrun]

/-! ## Cycles -/

namespace Session

/-- The sessions that calls of the compiler over one provider lead to from the empty one. -/
def ReachableOver (provider : Provider) : Session → Prop :=
  Relation.ReflTransGen (fun s t => ∃ name, Call provider name s t) empty

theorem ReachableOver.reachable (h : s.ReachableOver provider) : s.Reachable := by
  induction h with
  | refl => exact .refl
  | tail _ hcall ih => exact ih.tail ⟨provider, hcall⟩

theorem ReachableOver.grounded (h : s.ReachableOver provider) : s.2.Grounded provider := by
  induction h with
  | refl => exact fun name hname => by cases hname
  | tail hs hcall ih =>
    obtain ⟨name, hcall⟩ := hcall
    have hlead := grounded_package provider provider.depth name .unknown _
      (ReachableOver.reachable hs).sound ih
    rcases hcall with ⟨q, hq⟩ | ⟨failure, hf⟩
    · exact (hlead.ok hq).1
    · exact hlead.error hf

/-- A package with a cycle of imports before it is never linked. -/
theorem compile_error_of_cycle (h : s.ReachableOver provider) {other : String}
    (hreach : Relation.ReflTransGen provider.Imports name other)
    (hcycle : Relation.TransGen provider.Imports other other) :
    ∃ failure t, compile provider name s = .error failure t := by
  cases hrun : compile provider name s with
  | error failure t => exact ⟨failure, t, rfl⟩
  | ok q t =>
    have ht : t.ReachableOver provider := Relation.ReflTransGen.tail h ⟨name, Or.inl ⟨q, hrun⟩⟩
    have hlinked := (atomic_compile h.reachable.sound provider name).leads.ok hrun
    have hacc := ht.grounded name (Option.isSome_iff_exists.2 ⟨q, hlinked.2⟩)
    exact absurd hcycle (not_transGen_of_acc hacc other hreach)

end Session

end SchemaLang
