import SchemaLang.Proofs.Session.Reachable

/-!
# Scripts are trees

Whoever answers the imports of a script, and in particular where the compiler does: a script that is
read to its end is a tree of the nodes that were made for it (`readScript_isTree`).
-/

namespace SchemaLang

open Arena

variable {σ : Type} {importer : Importer σ} {p : Nat}

/-- Reading a source into a script that was just entered into its package makes a tree of new
nodes. -/
theorem Arena.Opened.isTree (hosting : Hosting importer p) {a b c : Arena} {host host' : σ}
    {decl : Package} {script : Nat} {source : Text.Source} (h : Opened p script a b)
    (ha : Anchored a) (hp : a.kind p = .package decl) (hlisted : ∀ t ∈ decl.types.nodes, t < a.size)
    (hi : hosting.Inv b host)
    (hrun : readScript importer script source (b, host) = .ok () (c, host')) :
    c.IsTree script ∧ ∀ n, c.Own script n → b.size ≤ n := by
  have hforest : Forest p script (hosting.served host) b [] :=
    h.forest hp ha (by rwa [Arena.typesOf_eq hp])
  obtain ⟨hreads, hf, -⟩ := (leads_readScript hosting source hi hforest).ok hrun
  refine ⟨hf.isTree, fun n hn => Nat.le_of_not_lt fun hlt => ?_⟩
  exact h.not_own hp ha n ((hreads.grows.own_iff hlt).1 hn)

/-- Reading a new script, with any importer that leaves the package alone, makes it a tree of nodes
that were not there before. After the scripts of a package are read with the compiler itself, each
of them is a tree. -/
theorem readScript_isTree :
    (∀ (σ : Type) (importer : Importer σ) (p : Nat) (hosting : Hosting importer p) (a b c : Arena)
      (host host' : σ) (decl : Package) (name : String) (path : Option Path) (script : NodeId)
      (source : Text.Source), Anchored a → a.kind p = .package decl →
      (∀ t ∈ decl.types.nodes, t < a.size) → a.newScript p name path = (.ok script, b) →
      hosting.Inv b host →
      readScript importer script source (b, host) = .ok () (c, host') →
      c.IsTree script ∧ ∀ n, c.Own script n → b.size ≤ n) ∧
    ∀ (s t : Session) (provider : Provider) (depth : Nat) (name : String) (sources : Sources),
      s.Reachable → s.package? name = none →
      Compile.readSources provider (Compile.package provider depth) s.arena.size sources
        (s.opened name) = .ok () t →
      ∀ script ∈ t.arena.scriptsOf s.arena.size, t.arena.IsTree script := by
  refine ⟨?_, ?_⟩
  · intro σ importer p hosting a b c host host' decl name path script source ha hp hl hnew hi hrun
    have hopened := opened_newScript hp name path
    rw [hnew] at hopened
    exact Opened.isTree hosting hopened ha hp hl hi hrun
  · intro s t provider depth name sources hs hname hrun script hscript
    have hrests := (honest_package provider depth).rests_opened hs.sound hname
    exact (((leads_readSources _ provider hrests sources).ok hrun).2.2.forest script hscript).isTree

theorem readScript_isTree_small :
    (∃ x, readScript (Compile.package Session.Small.sources 0) 1 (.ofBytes Session.Small.bytes)
        (Session.Small.blank, Session.Small.begun.2) = .ok () x ∧ x.1.Own 1 15 ∧ x.1.IsTree 1) ∧
    ∃ x, Compile.readSources Session.Small.sources (Compile.package Session.Small.sources 0) 0
      (.files [⟨"a"⟩]) Session.Small.begun = .ok () x ∧ 1 ∈ x.1.scriptsOf 0 ∧ x.1.IsTree 1 := by
  obtain ⟨hany, hcompiler⟩ := readScript_isTree
  obtain ⟨x, -, hx, hscript, hown, -⟩ := Session.Small.read_ok
  have hhonest := honest_package Session.Small.sources 0
  have hnew : Session.empty.package? Prelude.packageName = none := rfl
  have hrests := hhonest.rests_opened Session.sound_empty hnew
  have hp : Session.Small.begun.1.kind 0 = .package ⟨∅, .empty⟩ := rfl
  have ha : Anchored Session.Small.begun.1 := hrests.1.sound.anchored
  refine ⟨⟨x, ?_, hown, ?_⟩, ⟨x, ?_, hscript, ?_⟩⟩
  · exact Session.Small.readScript_eq.trans hx
  · have hopened := opened_newScript hp "a" (some ⟨"a"⟩)
    rw [Session.Small.newScript_eq] at hopened
    exact (hany Catalogue (Compile.package Session.Small.sources 0) 0
      (hhonest.hosting Session.sound_empty Prelude.packageName) Session.Small.begun.1
      Session.Small.blank x.1 Session.Small.begun.2 x.2 _ "a" (some ⟨"a"⟩) 1
      (.ofBytes Session.Small.bytes) ha hp (fun t ht => by cases ht) Session.Small.newScript_eq
      ((hhonest.hosting Session.sound_empty Prelude.packageName).built hrests.1
        (Opened.within hopened hp ha))
      (Session.Small.readScript_eq.trans hx)).1
  · exact forM_cons_ok [] (Session.Small.readPath_eq.trans hx)
  · exact hcompiler Session.empty x Session.Small.sources 0 Prelude.packageName (.files [⟨"a"⟩])
      .refl rfl (forM_cons_ok [] (Session.Small.readPath_eq.trans hx)) 1 hscript

end SchemaLang
