import SchemaLang.Proofs.Session.Sound

/-!
# Compiling a package

An importer is `Honest` when it keeps sessions sound, only adds to them, and leaves no trace of a
failure but the packages that were linked before it. Reading a package with an honest importer meets
what a reading asks of its host (`Honest.hosting`), so a package that is compiled with an honest
importer is compiled honestly (`Honest.load`). By induction on the depth of imports the compiler is
honest (`honest_package`).
-/

namespace SchemaLang

open Arena Session

variable {importer : Importer Catalogue} {s x y : Session} {name : String} {p : Nat}

/-- A session that has gone on, with the same packages being compiled as before. -/
structure Session.Follows (x y : Session) : Prop where
  advances : Advances x y
  sound : Sound y
  loading : y.2.loading = x.2.loading

/-- The step links the package `name` or leaves no trace but the packages that were linked before
it failed. -/
structure Atomic (name : String) (step : Compile NodeId) (x : Session) : Prop where
  leads : Leads Follows step x fun q y => y.2.loaded[name]? = some q
  failed : ∀ failure y, step x = .error failure y →
    y.2.loaded[name]? = none ∧ (y.2.loaded = x.2.loaded → y = x)

/-- An importer whose answers are atomic. -/
def Honest (importer : Importer Catalogue) : Prop :=
  ∀ (name : String) (position : Position) (x : Session), Sound x →
    Atomic name (importer name position) x

theorem Atomic.of_error {step : Compile NodeId} {failure : Diagnostic} (hs : Sound s)
    (hname : s.2.loaded[name]? = none) (h : step s = .error failure s) : Atomic name step s := by
  refine ⟨.of_error h ⟨.refl s, hs, rfl⟩, fun failure' y hy => ?_⟩
  rw [h] at hy
  cases hy
  exact ⟨hname, fun _ => rfl⟩

theorem Atomic.of_ok {step : Compile NodeId} {q : NodeId} (hr : s.Follows y)
    (hname : y.2.loaded[name]? = some q) (h : step s = .ok q y) : Atomic name step s := by
  refine ⟨.of_ok h hr hname, fun failure' y hy => ?_⟩
  rw [h] at hy
  cases hy

theorem Atomic.congr {step step' : Compile NodeId} (h : Atomic name step' s)
    (hrun : step s = step' s) : Atomic name step s := by
  refine ⟨?_, ?_⟩
  · unfold Leads
    rw [hrun]
    exact h.leads
  · rw [hrun]
    exact h.failed

/-! ## The host of a reading -/

/-- What holds while the package `name` is compiled, with nodes from the end of the session `s` on. -/
structure Session.Compiles (s : Session) (name : String) (x : Session) : Prop where
  sound : Sound x
  advances : Advances s x
  loading : x.2.loading = s.2.loading ++ [(name, s.1.size)]

namespace Session.Compiles

variable (h : s.Compiles name x)

include h

theorem entry : x.2.loaded[name]? = none ∧ ¬ x.2.Caches s.1.size := by
  have he := h.sound.loading (name, s.1.size) (by
    rw [h.loading]
    exact List.mem_append_right _ (List.mem_singleton.2 rfl))
  exact ⟨he.1, he.2.1⟩

/-- Steps within the package do not disturb the session. -/
theorem within {b : Arena} (hs : Anchored s.1) (hw : Within s.1.size x.2.Caches x.1 b) :
    s.Compiles name (b, x.2) where
  sound := by
    obtain ⟨settled, hsettled⟩ := h.sound.settled
    refine ⟨hw.anchored h.sound.anchored, ⟨settled, hsettled.within hw h.entry.2⟩,
      h.sound.ordered.within hw h.entry.2, fun other q hq => ?_, fun entry he => ?_⟩
    · rw [hw.name_eq q (h.sound.linked (Catalogue.caches_iff.2 ⟨other, hq⟩)).1]
      exact h.sound.named other q hq
    · obtain ⟨hname, hcached, hlt, hcalled⟩ := h.sound.loading entry he
      exact ⟨hname, hcached, Nat.lt_of_lt_of_le hlt hw.size_le, by rw [hw.name_eq _ hlt, hcalled]⟩
  advances := h.advances.within hs hw
  loading := h.loading

/-- An answer of an honest importer, or its failure. -/
theorem answers (hy : x.Follows y) :
    Answers s.1.size x.1 y.1 ∧ s.Compiles name y ∧ ∀ q, x.2.Caches q → y.2.Caches q := by
  have hcompiles : s.Compiles name y :=
    ⟨hy.sound, h.advances.trans hy.advances h.sound.anchored, hy.loading.trans h.loading⟩
  refine ⟨⟨hy.advances.keeps, hy.sound.anchored, fun n hn _ hhome => ?_⟩, hcompiles,
    fun q => hy.advances.caches⟩
  rcases hy.advances.homes n s.1.size hn hhome with hle | hcached
  · -- the package that is compiled is older than the answer
    have hentry := h.sound.loading (name, s.1.size) (by
      rw [h.loading]
      exact List.mem_append_right _ (List.mem_singleton.2 rfl))
    exact absurd hentry.2.2.1 (Nat.not_lt.2 hle)
  · exact hcompiles.entry.2 hcached

end Session.Compiles

/-- An honest importer is a host for the scripts of a new package. -/
def Honest.hosting (h : Honest importer) (hs : Sound s) (name : String) :
    Hosting importer s.1.size where
  Inv a catalogue := s.Compiles name (a, catalogue)
  served catalogue := catalogue.Caches
  anchored hi := hi.sound.anchored
  built hi hw := hi.within hs.anchored hw
  answered hi hq := by
    obtain ⟨hy, hq⟩ := (h _ _ _ hi.sound).leads.ok hq
    obtain ⟨hanswers, hcompiles, hcaches⟩ := hi.answers hy
    have hcached := Catalogue.caches_iff.2 ⟨_, hq⟩
    obtain ⟨-, decl, hd⟩ := hy.sound.linked hcached
    exact ⟨hanswers, hcompiles, hcaches, by rw [hd]; rfl, hcached⟩
  refused hi he := hi.answers ((h _ _ _ hi.sound).leads.error he)

/-- A package is opened: a new node, entered among the packages that are being compiled. -/
def Session.opened (s : Session) (name : String) : Session :=
  ((s.1.newPackage name).2, s.2.enter name s.1.size)

theorem Honest.rests_opened (h : Honest importer) (hs : Sound s)
    (hname : s.2.loaded[name]? = none) : (h.hosting hs name).Rests (s.opened name) := by
  obtain ⟨hw, hg⟩ : Within s.1.size s.2.Caches s.1 (s.1.newPackage name).2 ∧
      Gathered s.1.size s.2.Caches (s.1.newPackage name).2 := gathered_newPackage hs.anchored name
  obtain ⟨settled, hsettled⟩ := hs.settled
  have hadvances := (Advances.refl s).within hs.anchored hw
  refine ⟨⟨⟨hw.anchored hs.anchored, ⟨settled, hsettled.within hw hs.not_caches_size⟩,
    hs.ordered.within hw hs.not_caches_size, fun other q hq => ?_, fun entry he => ?_⟩,
    ⟨hadvances.keeps, hadvances.loaded, hadvances.grows, hadvances.homes⟩, rfl⟩, hg⟩
  · have hq' : s.2.loaded[other]? = some q := hq
    exact (hw.name_eq q (hs.linked (Catalogue.caches_iff.2 ⟨other, hq'⟩)).1).trans
      (hs.named other q hq')
  · rcases List.mem_append.1 he with he | he
    · obtain ⟨hentry, hcached, hlt, hcalled⟩ := hs.loading entry he
      exact ⟨hentry, hcached, Nat.lt_of_lt_of_le hlt hw.size_le, (hw.name_eq _ hlt).trans hcalled⟩
    · rw [List.mem_singleton.1 he]
      have hsize : (s.1.newPackage name).2.size = s.1.size + 1 := size_alloc ..
      exact ⟨hname, hs.not_caches_size, hsize ▸ Nat.lt_succ_self _, name_alloc_self ..⟩

/-! ## Reading the scripts -/

section

variable (hosting : Hosting importer p)

theorem leads_readPath (provider : Provider) (h : hosting.Rests x) (path : Path) :
    Leads hosting.Keeps (Compile.readPath provider importer p path) x fun _ y =>
      hosting.Rests y := by
  unfold Compile.readPath
  cases provider.read path with
  | error fault => exact Leads.throw
  | ok bytes => exact leads_readFile hosting h ..

/-- Reading a file adds the name of the file to the names of the scripts. -/
theorem scriptNames_readPath (h : hosting.Rests x) {path : Path}
    (hrun : Compile.readPath provider importer p path x = .ok () y) :
    ∀ other ∈ y.1.scriptNames p,
      other = path.scriptName ∨ other ∈ x.1.scriptNames p := by
  unfold Compile.readPath at hrun
  cases hread : provider.read path with
  | error fault =>
    rw [hread] at hrun
    cases hrun
  | ok bytes =>
    rw [hread] at hrun
    exact scriptNames_readFile h hrun

theorem leads_readSources (provider : Provider) (h : hosting.Rests x) (sources : Sources) :
    Leads hosting.Keeps (Compile.readSources provider importer p sources) x fun _ y =>
      hosting.Rests y := by
  cases sources with
  | embedded => exact leads_readFile hosting h ..
  | files paths =>
    exact Leads.forM (I := fun _ y => hosting.Rests y)
      (fun path _ y hy => leads_readPath hosting provider hy path) paths x h

end

/-! ## Linking the package and entering it -/

/-- The package `name` is read and linked, and may enter the session. -/
structure Session.Completes (s : Session) (name : String) (x : Session) : Prop
    extends s.Compiles name x where
  needs : ∀ q, x.1.Needs s.1.size q → x.2.Caches q
  settled : ∃ settled, Settled (fun q => q = s.1.size ∨ x.2.Caches q) settled x.1

section

variable (h : Honest importer) (hs : Sound s)

include h hs

/-- Linking a package whose scripts are read settles it. -/
theorem Honest.leads_link (hx : (h.hosting hs name).Rests x) :
    Leads (h.hosting hs name).Keeps (Compile.linkPackage name s.1.size) x fun _ y =>
      s.Completes name y := by
  obtain ⟨a, catalogue⟩ := x
  have hc : s.Compiles name (a, catalogue) := hx.1
  obtain ⟨settled, hsettled⟩ := hc.sound.settled
  have hlink := leads_linkPackage hx.2 hc.sound.anchored hsettled hc.entry.2
    (if name == Prelude.packageName then some s.1.size
      else catalogue.loaded[Prelude.packageName]?)
  have hkeeps : ∀ b, Links s.1.size catalogue.Caches a b →
      (h.hosting hs name).Keeps (a, catalogue) (b, catalogue) := fun b hl =>
    ⟨fun hi => hi.within hs.anchored hl.toWithin, fun _ => id⟩
  unfold Leads Compile.linkPackage at *
  dsimp only
  split at hlink
  · rename_i hrun
    rw [hrun]
    exact ⟨hkeeps _ hlink.1, hc.within hs.anchored hlink.1.toWithin,
      fun q hq => hx.2.needs (hlink.1.needs hq), hlink.2⟩
  · rename_i hrun
    rw [hrun]
    exact hkeeps _ hlink

/-- The scripts of a new package are read, and the package is linked. -/
theorem Honest.leads_steps (provider : Provider) (hname : s.2.loaded[name]? = none)
    (sources : Sources) :
    Leads (h.hosting hs name).Keeps (do
        Compile.readSources provider importer s.1.size sources
        Compile.linkPackage name s.1.size) (s.opened name) fun _ y => s.Completes name y :=
  (leads_readSources _ provider (h.rests_opened hs hname) sources).bind fun _ _ _ hx =>
    h.leads_link hs hx

end

/-- A package that is linked enters the session. -/
theorem Session.Completes.add (h : s.Completes name x) (hs : Sound s)
    (hname : ∀ entry ∈ s.2.loading, entry.1 ≠ name) :
    Advances s (x.1, x.2.leave.add name s.1.size) ∧ Sound (x.1, x.2.leave.add name s.1.size) := by
  obtain ⟨hnone, hcached⟩ := h.entry
  have hcalled : x.1.name s.1.size = name := (h.sound.loading (name, s.1.size) (by
    rw [h.loading]
    exact List.mem_append_right _ (List.mem_singleton.2 rfl))).2.2.2
  obtain ⟨settled, hsettled⟩ := h.settled
  have hcaches : ∀ q, (x.2.leave.add name s.1.size).Caches q ↔ q = s.1.size ∨ x.2.Caches q :=
    fun q => Catalogue.caches_add hnone
  have he : (x.2.leave.add name s.1.size).Caches = fun q => q = s.1.size ∨ x.2.Caches q :=
    funext fun q => propext (hcaches q)
  refine ⟨⟨h.advances.keeps, ?_, ?_, ?_⟩, ⟨h.sound.anchored, ⟨settled, by rw [he]; exact hsettled⟩,
    by rw [he]; exact h.sound.ordered.add h.needs, ?_, ?_⟩⟩
  · intro other q hq
    have hx := h.advances.loaded other q hq
    rw [Catalogue.getElem?_add, if_neg, Catalogue.loaded_leave, hx]
    rintro rfl
    rw [hnone] at hx
    cases hx
  · have hsize : (x.2.leave.add name s.1.size).loaded.size = x.2.loaded.size + 1 :=
      Catalogue.size_add hnone
    refine Or.inr (Nat.lt_of_le_of_lt ?_ (Nat.lt_of_lt_of_eq (Nat.lt_succ_self _) hsize.symm))
    rcases h.advances.grows with he | hlt
    · exact Nat.le_of_eq (congrArg _ he.symm)
    · exact Nat.le_of_lt hlt
  · intro n q hn hq
    exact (h.advances.homes n q hn hq).imp id fun hc => (hcaches q).2 (Or.inr hc)
  · intro other q hq
    rw [Catalogue.getElem?_add] at hq
    split at hq
    · cases hq
      exact hcalled.trans ‹name = other›
    · exact h.sound.named other q hq
  · intro entry he
    rw [Catalogue.loading_add, Catalogue.loading_leave h.loading] at he
    obtain ⟨hentry, hnot, hlt, hentryName⟩ := h.sound.loading entry (by
      rw [h.loading]
      exact List.mem_append_left _ he)
    refine ⟨?_, fun hc => ?_, hlt, hentryName⟩
    · rw [Catalogue.getElem?_add, if_neg (hname entry he).symm]
      exact hentry
    · rcases (hcaches _).1 hc with hp | hc
      · -- the package is newer than the ones around it
        have hold := (hs.loading entry he).2.2.1
        exact absurd hp (Nat.ne_of_lt hold)
      · exact hnot hc

/-- A package that fails leaves the session. Where nothing was linked meanwhile, dropping the nodes
that were added gives the session back. -/
theorem Session.Compiles.leave (h : s.Compiles name x) :
    (x.2.loaded.size = s.2.loaded.size → (x.1.truncate s.1.size, x.2.leave) = s) ∧
      Advances s (x.1, x.2.leave) ∧ Sound (x.1, x.2.leave) := by
  have hl := Catalogue.loading_leave h.loading
  refine ⟨fun hsize => ?_, ⟨h.advances.keeps, h.advances.loaded, h.advances.grows,
    h.advances.homes⟩, ⟨h.sound.anchored, h.sound.settled, h.sound.ordered, h.sound.named,
    fun entry he => ?_⟩⟩
  · have hloaded : x.2.loaded = s.2.loaded := by
      rcases h.advances.grows with he | hlt
      · exact he
      · omega
    have hcatalogue : x.2.leave = s.2 := by
      rw [← Catalogue.loaded_leave] at hloaded
      generalize x.2.leave = c at hl hloaded
      generalize s.2 = d at hl hloaded
      obtain ⟨loaded, loading⟩ := c
      cases hl
      cases hloaded
      rfl
    rw [h.advances.keeps.truncate_eq, hcatalogue]
  · rw [hl] at he
    exact h.sound.loading entry (by
      rw [h.loading]
      exact List.mem_append_left _ he)

/-- One run of `Compile.load`, by the outcome of its steps. -/
theorem load_eq (provider : Provider) (importer : Importer Catalogue) (name : String)
    (sources : Sources) (s : Session) :
    Compile.load provider importer name sources s =
      match (do
        Compile.readSources provider importer s.1.size sources
        Compile.linkPackage name s.1.size : Compile Unit) (s.opened name) with
      | .ok () x => .ok s.1.size (x.1, x.2.leave.add name s.1.size)
      | .error failure x =>
        .error failure (if x.2.loaded.size = s.2.loaded.size then x.1.truncate s.1.size else x.1,
          x.2.leave) := by
  have hmark : (s.1.newPackage name).1 = s.1.size := rfl
  unfold Compile.load opened
  dsimp only
  rw [hmark]
  split
  · rename_i hrun
    rw [hrun]
  · rename_i hrun
    rw [hrun]

/-- Compiling a package that is neither linked nor being compiled. -/
theorem Honest.load (h : Honest importer) (hs : Sound s) (hname : s.2.loaded[name]? = none)
    (hnew : ∀ entry ∈ s.2.loading, entry.1 ≠ name) (provider : Provider) (sources : Sources) :
    Atomic name (Compile.load provider importer name sources) s := by
  have hsteps := h.leads_steps hs provider hname sources
  have hrun := load_eq provider importer name sources s
  split at hrun
  · rename_i x hx
    obtain ⟨-, hc⟩ := hsteps.ok hx
    obtain ⟨hadvances, hsound⟩ := hc.add hs hnew
    refine .of_ok ⟨hadvances, hsound, Catalogue.loading_leave hc.loading⟩ ?_ hrun
    rw [Catalogue.getElem?_add, if_pos rfl]
  · rename_i failure x hx
    have hc : s.Compiles name x := (hsteps.error hx).inv (h.rests_opened hs hname).1
    obtain ⟨hback, hadvances, hsound⟩ := hc.leave
    split at hrun
    · rename_i hsize
      rw [hback hsize] at hrun
      exact .of_error hs hname hrun
    · rename_i hsize
      refine ⟨.of_error hrun ⟨hadvances, hsound, Catalogue.loading_leave hc.loading⟩, ?_⟩
      intro failure' y hy
      rw [hrun] at hy
      cases hy
      exact ⟨hc.entry.1, fun he => absurd (congrArg _ he) hsize⟩

/-- What the compiler does: it answers from the session, or fails before it changes anything, or
compiles the package with imports that nest less deep. -/
theorem package_cases (provider : Provider) (depth : Nat) (name : String) (position : Position)
    (s : Session) :
    (∃ q, s.2.loaded[name]? = some q ∧ Compile.package provider depth name position s = .ok q s) ∨
    s.2.loaded[name]? = none ∧
      ((∃ failure, Compile.package provider depth name position s = .error failure s) ∨
        ∃ depth' sources, depth = depth' + 1 ∧ provider.locate name = .ok sources ∧
          (∀ entry ∈ s.2.loading, entry.1 ≠ name) ∧
          Compile.package provider depth name position s =
            Compile.load provider (Compile.package provider depth') name sources s) := by
  unfold Compile.package
  cases hname : s.2.loaded[name]? with
  | some q => exact Or.inl ⟨q, rfl, by simp only [hname]⟩
  | none =>
    refine Or.inr ⟨rfl, ?_⟩
    cases hcycle : s.2.cycle? name with
    | some chain => exact Or.inl ⟨_, by simp only [hname, hcycle]; rfl⟩
    | none =>
      cases hlocate : provider.locate name with
      | error failure => exact Or.inl ⟨_, by simp only [hname, hcycle]; rfl⟩
      | ok sources =>
        cases depth with
        | zero => exact Or.inl ⟨_, by simp only [hname, hcycle]; rfl⟩
        | succ depth =>
          exact Or.inr ⟨depth, sources, rfl, rfl, Catalogue.cycle?_eq_none hcycle,
            by simp only [hname, hcycle]⟩

/-- The compiler is honest where it is honest for imports that nest less deep. -/
theorem honest_of_deeper (provider : Provider) (depth : Nat)
    (h : ∀ depth', depth = depth' + 1 → Honest (Compile.package provider depth')) :
    Honest (Compile.package provider depth) := by
  intro name position s hs
  rcases package_cases provider depth name position s with
    ⟨q, hq, hrun⟩ | ⟨hname, ⟨failure, hrun⟩ | ⟨depth', sources, hdepth, -, hnew, hrun⟩⟩
  · exact .of_ok ⟨.refl s, hs, rfl⟩ hq hrun
  · exact .of_error hs hname hrun
  · exact ((h depth' hdepth).load hs hname hnew provider sources).congr hrun

/-- The compiler is honest, however deep its imports nest. -/
theorem honest_package (provider : Provider) (depth : Nat) :
    Honest (Compile.package provider depth) := by
  induction depth with
  | zero => exact honest_of_deeper provider 0 nofun
  | succ depth ih =>
    refine honest_of_deeper provider (depth + 1) ?_
    rintro _ ⟨⟩
    exact ih

end SchemaLang
