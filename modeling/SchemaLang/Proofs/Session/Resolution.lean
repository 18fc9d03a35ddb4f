import SchemaLang.Proofs.Session.Reachable

/-!
# References of packages that are read, and of packages that are linked

The first pass of linking is right about every package whose scripts were read, whoever answered its
imports (`Arena.BindsExactly`), and the passes that follow it leave what it bound in place: in every
session the references of linked packages are bound to what they mean
(`bindReferences_correct`).
-/

namespace SchemaLang

open Arena

/-- Binding the references of the package succeeds exactly where every reference read from one of
its scripts means something, and then binds each of them to that, with its path as it was. -/
def Arena.BindsExactly (a : Arena) (package : NodeId) : Prop :=
  ((∃ b, Link.bindReferences package a = .ok () b) ↔
    ∀ n, a.RefersIn package n → ∃ t, a.Means n t) ∧
  ∀ b, Link.bindReferences package a = .ok () b → ∀ n, a.RefersIn package n →
    ∃ path t, a.kind n = .typeRef ⟨path, none⟩ ∧ a.Means n t ∧ b.kind n = .typeRef ⟨path, some t⟩

variable {σ : Type} {importer : Importer σ} {p : Nat} {s : Session}

theorem Arena.Gathered.bindsExactly {served : NodeId → Prop} {a : Arena} (h : Gathered p served a) :
    a.BindsExactly p := by
  obtain ⟨b, hb, -, ⟨hok, hbound⟩ | ⟨⟨failure, herror⟩, n, hn, hmeans⟩⟩ := h.bindReferences
  · have hall : ∀ n, a.RefersIn p n → ∃ path t, a.kind n = .typeRef ⟨path, none⟩ ∧ a.Means n t ∧
        b.kind n = .typeRef ⟨path, some t⟩ := by
      intro n hn
      obtain ⟨path, t, hk, hm⟩ := hbound n hn
      obtain ⟨⟨s, hs, ho⟩, decl, hd⟩ := hn
      obtain ⟨path', hk'⟩ := (h.forest s hs).unbound ho hd
      -- binding changes the target and leaves the path
      have hpath : path' = path := by
        rcases hb.node_eq n with he | ⟨path'', t', hk'', he⟩
        · unfold kind at hk hk'
          rw [he, hk'] at hk
          cases hk
        · rw [hk'] at hk''
          cases hk''
          unfold kind at hk
          rw [he] at hk
          cases hk
          rfl
      exact ⟨path, t, hpath ▸ hk', hb.means_iff.1 hm, hk⟩
    refine ⟨⟨fun _ n hn => ?_, fun _ => ⟨b, hok⟩⟩, fun c hc => ?_⟩
    · obtain ⟨-, t, -, hm, -⟩ := hall n hn
      exact ⟨t, hm⟩
    · rw [hok] at hc
      cases hc
      exact hall
  · refine ⟨⟨?_, fun hall => ?_⟩, ?_⟩
    · rintro ⟨c, hc⟩
      rw [herror] at hc
      cases hc
    · obtain ⟨t, ht⟩ := hall n hn
      exact absurd ht (hmeans t)
    · intro c hc
      rw [herror] at hc
      cases hc

/-- Reading any scripts of a package. -/
theorem leads_readFiles (hosting : Hosting importer p) {x : Arena × σ} (h : hosting.Rests x)
    (files : List (String × Option Path × Text.Source)) :
    Leads hosting.Keeps (files.forM fun file =>
      Compile.readFile importer p file.1 file.2.1 file.2.2) x fun _ y => hosting.Rests y :=
  Leads.forM (I := fun _ y => hosting.Rests y)
    (fun _ _ _ hy => leads_readFile hosting hy ..) files x h

/-- A reference that a walk of a linked package visits, or that belongs to one, is bound to what it
means. -/
theorem Session.Sound.bound (h : s.Sound) {name : String} {n : Nat} {decl : Reference}
    (hp : s.package? name = some p) (hn : n ∈ s.arena.walk p ∨ s.arena.home n = some p)
    (hk : s.arena.kind n = .typeRef decl) : s.arena.Bound n := by
  obtain ⟨settled, hsettled⟩ := h.settled
  have hcached : s.2.Caches p := Catalogue.caches_iff.2 ⟨name, hp⟩
  refine hsettled.bound n decl ((settled_or_method hsettled hcached hn).resolve_right fun hm => ?_) hk
  obtain ⟨method, hm⟩ := Option.isSome_iff_exists.1 hm
  have hk' : s.arena.kind n = .method method := method?_eq_some.1 hm
  rw [hk] at hk'
  cases hk'

/-- Binding references is right about every package whose scripts were read: with any importer that
leaves the package alone, and in particular with the compiler itself, from every session. And in
every session the references of linked packages are bound to what they mean. -/
theorem bindReferences_correct :
    (∀ (σ : Type) (importer : Importer σ) (a : Arena) (hosting : Hosting importer a.size)
      (name : String) (host : σ) (files : List (String × Option Path × Text.Source)) (b : Arena)
      (host' : σ), Anchored a → hosting.Inv (a.newPackage name).2 host →
      files.forM (fun file => Compile.readFile importer a.size file.1 file.2.1 file.2.2)
        ((a.newPackage name).2, host) = .ok () (b, host') → b.BindsExactly a.size) ∧
    (∀ (s t : Session) (provider : Provider) (depth : Nat) (name : String) (sources : Sources),
      s.Reachable → s.package? name = none →
      Compile.readSources provider (Compile.package provider depth) s.arena.size sources
        (s.opened name) = .ok () t → t.arena.BindsExactly s.arena.size) ∧
    ∀ (s : Session) (name : String) (p n : NodeId) (decl : Reference), s.Reachable →
      s.package? name = some p → n ∈ s.arena.walk p ∨ s.arena.home n = some p →
      s.arena.kind n = .typeRef decl → s.arena.Bound n := by
  refine ⟨?_, ?_, ?_⟩
  · intro σ importer a hosting name host files b host' ha hi hrun
    have hrests : hosting.Rests ((a.newPackage name).2, host) :=
      ⟨hi, (gathered_newPackage ha name).2⟩
    exact ((leads_readFiles hosting hrests files).ok hrun).2.2.bindsExactly
  · intro s t provider depth name sources hs hname hrun
    have hhonest := honest_package provider depth
    have hrests := hhonest.rests_opened hs.sound hname
    exact ((leads_readSources _ provider hrests sources).ok hrun).2.2.bindsExactly
  · intro s name p n decl hs hp hn hk
    exact hs.sound.bound hp hn hk

theorem bindReferences_correct_small :
    (∃ x, [("a", some ⟨"a"⟩, Text.Source.ofBytes Session.Small.bytes)].forM
        (fun file => Compile.readFile (Compile.package Session.Small.sources 0) 0 file.1 file.2.1
          file.2.2) Session.Small.begun = .ok () x ∧ x.1.RefersIn 0 15 ∧ x.1.BindsExactly 0) ∧
    (∃ x, Compile.readSources Session.Small.sources (Compile.package Session.Small.sources 0) 0
      (.files [⟨"a"⟩]) Session.Small.begun = .ok () x ∧ x.1.RefersIn 0 15 ∧ x.1.BindsExactly 0) ∧
    ∃ t : Session, t.Reachable ∧ t.package? Prelude.packageName = some 0 ∧ t.arena.Bound 15 := by
  obtain ⟨hany, hcompiler, hlinked⟩ := bindReferences_correct
  obtain ⟨x, -, hx, hscript, hown, hreference, -⟩ := Session.Small.read_ok
  have hrefers : x.1.RefersIn 0 15 := ⟨⟨1, hscript, hown⟩, _, reference?_eq_some.1 hreference⟩
  have hfile := Session.Small.readFile_eq.trans hx
  have hfiles : [("a", some ⟨"a"⟩, Text.Source.ofBytes Session.Small.bytes)].forM
      (fun file => Compile.readFile (Compile.package Session.Small.sources 0) 0 file.1 file.2.1
        file.2.2) Session.Small.begun = .ok () x := forM_cons_ok [] hfile
  refine ⟨⟨x, ?_, hrefers, ?_⟩, ⟨x, ?_, hrefers, ?_⟩, ?_⟩
  · exact hfiles
  · have hhonest := honest_package Session.Small.sources 0
    exact hany Catalogue (Compile.package Session.Small.sources 0) Session.empty.1
      (hhonest.hosting Session.sound_empty Prelude.packageName) Prelude.packageName
      Session.Small.begun.2 [("a", some ⟨"a"⟩, Text.Source.ofBytes Session.Small.bytes)] x.1 x.2
      Session.sound_empty.anchored (hhonest.rests_opened Session.sound_empty rfl).1
      hfiles
  · exact forM_cons_ok [] (Session.Small.readPath_eq.trans hx)
  · exact hcompiler Session.empty x Session.Small.sources 0 Prelude.packageName
      (.files [⟨"a"⟩]) .refl rfl (forM_cons_ok [] (Session.Small.readPath_eq.trans hx))
  · obtain ⟨t, ht, hreference, hwalk⟩ := Session.Small.compile_ok
    obtain ⟨hreachable, hpackage⟩ := Session.reachable_of_ok ht
    exact ⟨t, hreachable, hpackage, hlinked t _ 0 15 _ hreachable hpackage (Or.inl hwalk)
      (reference?_eq_some.1 hreference)⟩

end SchemaLang
