import SchemaLang.Proofs.Grammar.Answering
import SchemaLang.Proofs.Provider
import SchemaLang.Proofs.Session.Importing

/-!
# Imports come to an end

The compiler calls itself for every import. A call of its own (`Compile.call`) has no bound on how
deep the calls nest: that comes from the sources. A name that is being compiled is not compiled
again, and over files in memory the names that can come up are finitely many, the strings of the
files and the name of the built-in package. So whatever deeper calls would do (`Compile.nested`),
none is made: the bound of the provider is never met (`nested_eq_package`).

* `Waiting`: the names of the packages that are being compiled, in a list that bounds them.
* `imports_founded`: compiling comes to an end, the imports of linked packages have no cycle and
  lead to linked packages, and a cycle in the files is never compiled.
-/

namespace SchemaLang

open Arena Session

/-! ## Calls without a bound -/

namespace Compile

/-- One call of the compiler, with the imports that it comes upon answered by `importer`. -/
def call (provider : Provider) (importer : Importer Catalogue) : Importer Catalogue
  | name, position => fun (arena, catalogue) =>
    match catalogue.loaded[name]? with
    | some package => .ok package (arena, catalogue)
    | none =>
      match catalogue.cycle? name with
      | some chain => .error ⟨.circularImport chain, position⟩ (arena, catalogue)
      | none =>
        match provider.locate name with
        | .error failure => .error (pointAt failure position) (arena, catalogue)
        | .ok sources => load provider importer name sources (arena, catalogue)

/-- Calls that are nested at most `depth` deep. A call that is deeper is answered by `rest`. -/
def nested (provider : Provider) (rest : Importer Catalogue) : Nat → Importer Catalogue
  | 0 => rest
  | depth + 1 => call provider (nested provider rest depth)

/-- The compiler with a bound makes the same calls, up to its bound. -/
theorem package_succ (provider : Provider) (depth : Nat) :
    package provider (depth + 1) = call provider (package provider depth) := by
  funext name position s
  obtain ⟨arena, catalogue⟩ := s
  unfold package call
  rfl

end Compile

variable {importer other : Importer Catalogue} {provider : Provider} {P : String → Prop}
  {s x : Session} {name : String} {p : Nat}

/-- A call answers from the session, or fails before it changes anything, or compiles the package,
which is not being compiled yet. The importer matters in the last case only. -/
theorem call_cases (provider : Provider) (name : String) (position : Position) (s : Session) :
    (∃ result, ∀ importer, Compile.call provider importer name position s = result) ∨
      s.2.loaded[name]? = none ∧ (∀ entry ∈ s.2.loading, entry.1 ≠ name) ∧ ∃ sources,
        provider.locate name = .ok sources ∧ ∀ importer,
          Compile.call provider importer name position s =
            Compile.load provider importer name sources s := by
  unfold Compile.call
  cases hname : s.2.loaded[name]? with
  | some q => exact Or.inl ⟨_, fun _ => by simp only [hname]; rfl⟩
  | none =>
    cases hcycle : s.2.cycle? name with
    | some chain => exact Or.inl ⟨_, fun _ => by simp only [hname, hcycle]; rfl⟩
    | none =>
      cases hlocate : provider.locate name with
      | error failure => exact Or.inl ⟨_, fun _ => by simp only [hname, hcycle, hlocate]; rfl⟩
      | ok sources =>
        exact Or.inr ⟨rfl, Catalogue.cycle?_eq_none hcycle, sources, rfl,
          fun _ => by simp only [hname, hcycle, hlocate]⟩

/-! ## Packages with different hosts -/

section

variable {hosting : Hosting importer p}

theorem agrees_readPath (he : Parse.Echoes hosting P other) (hp : P Prelude.packageName)
    (hx : hosting.Rests x) {path : Path} (hs : ∀ bytes value, provider.read path = .ok bytes →
      .string value ∈ (Text.Source.ofBytes bytes).kinds → P value) :
    Agrees (Compile.readPath provider other p path) (Compile.readPath provider importer p path) x
      fun _ y => hosting.Rests y := by
  refine ⟨?_, fun _ y hrun => ((leads_readPath hosting provider hx path).ok hrun).2⟩
  unfold Compile.readPath
  cases hread : provider.read path with
  | error fault => rfl
  | ok bytes => exact readFile_eq_of_echoes he hp hx _ _ fun value => hs bytes value hread

/-- The hosts give the same answers to what the scripts of the package write. -/
theorem readSources_eq_of_echoes (he : Parse.Echoes hosting P other) (hp : P Prelude.packageName)
    (hx : hosting.Rests x) {sources : Sources} (hl : provider.locate name = .ok sources)
    (hs : ∀ source value, provider.Scripts name source → .string value ∈ source.kinds → P value) :
    Compile.readSources provider other p sources x =
      Compile.readSources provider importer p sources x := by
  cases sources with
  | embedded => exact readFile_eq_of_echoes he hp hx _ _ fun value => hs _ value (.embedded hl)
  | files paths =>
    exact (Agrees.forM
      (I := fun rest y => (∀ path ∈ rest, path ∈ paths) ∧ hosting.Rests y)
      (fun path rest y hy => (agrees_readPath he hp hy.2 fun bytes value hread =>
        hs _ value (.file hl (hy.1 path List.mem_cons_self) hread)).mono
          fun _ _ hrests => ⟨fun file hfile => hy.1 file (List.mem_cons_of_mem _ hfile), hrests⟩)
      paths x ⟨fun _ => id, hx⟩).1

end

/-- Compiling a package does the same with importers that give the same answers. -/
theorem Honest.load_eq_of_echoes (h : Honest importer) (hs : Sound s)
    (hname : s.2.loaded[name]? = none) (he : Parse.Echoes (h.hosting hs name) P other)
    (hp : P Prelude.packageName) {sources : Sources} (hl : provider.locate name = .ok sources)
    (hstrings : ∀ source value, provider.Scripts name source → .string value ∈ source.kinds →
      P value) :
    Compile.load provider other name sources s = Compile.load provider importer name sources s := by
  have hread := readSources_eq_of_echoes he hp (h.rests_opened hs hname) hl hstrings
  have hsteps : (do
      Compile.readSources provider other s.1.size sources
      Compile.linkPackage name s.1.size : Compile Unit) (s.opened name) = (do
      Compile.readSources provider importer s.1.size sources
      Compile.linkPackage name s.1.size : Compile Unit) (s.opened name) :=
    (Agrees.bind (P := fun _ _ => True) (Q := fun _ _ => True) ⟨hread, fun _ _ _ => trivial⟩
      fun _ _ _ => ⟨rfl, fun _ _ _ => trivial⟩).1
  rw [load_eq, load_eq, hsteps]

/-! ## The packages that are being compiled -/

/-- The packages that are being compiled have different names, all of them in the list. -/
structure Waiting (names : List String) (catalogue : Catalogue) : Prop where
  nodup : (catalogue.loading.map Prod.fst).Nodup
  mem : ∀ entry ∈ catalogue.loading, entry.1 ∈ names

namespace Waiting

variable {names : List String} {catalogue : Catalogue}

theorem length_le (h : Waiting names catalogue) : catalogue.loading.length ≤ names.length := by
  have hle := (h.nodup.subperm fun name hname => by
    obtain ⟨entry, hentry, rfl⟩ := List.mem_map.1 hname
    exact h.mem entry hentry : (catalogue.loading.map Prod.fst).Subperm names).length_le
  rwa [List.length_map] at hle

theorem of_nil (h : catalogue.loading = []) : Waiting names catalogue := by
  refine ⟨by rw [h]; exact List.nodup_nil, fun entry hentry => ?_⟩
  rw [h] at hentry
  cases hentry

theorem enter (h : Waiting names catalogue) (hname : name ∈ names)
    (hnew : ∀ entry ∈ catalogue.loading, entry.1 ≠ name) : Waiting names (catalogue.enter name p) where
  nodup := by
    rw [Catalogue.loading_enter, List.map_append, List.nodup_append]
    refine ⟨h.nodup, List.nodup_singleton _, fun other hother _ hmem => ?_⟩
    obtain ⟨entry, hentry, rfl⟩ := List.mem_map.1 hother
    rw [List.mem_singleton.1 hmem]
    exact hnew entry hentry
  mem entry hentry := by
    rcases List.mem_append.1 hentry with hentry | hentry
    · exact h.mem entry hentry
    · rw [List.mem_singleton.1 hentry]
      exact hname

end Waiting

/-- Where the names that can come up are bounded, calls nest no deeper than there are names: what
would be done beyond that depth makes no difference. -/
theorem nested_eq_package (rest : Importer Catalogue) {names : List String}
    (hbuiltin : Prelude.packageName ∈ names)
    (hstrings : ∀ name source value, provider.Scripts name source → .string value ∈ source.kinds →
      value ∈ names) :
    ∀ (depth depth' : Nat) (name : String) (position : Position) (s : Session), Sound s →
      name ∈ names → Waiting names s.2 → names.length < depth + s.2.loading.length →
      names.length < depth' + s.2.loading.length →
      Compile.nested provider rest depth name position s =
        Compile.package provider depth' name position s := by
  have hpositive : ∀ {s : Session} {depth : Nat}, Waiting names s.2 →
      names.length < depth + s.2.loading.length → ∃ deeper, depth = deeper + 1 := fun hw hlt =>
    Nat.exists_eq_succ_of_ne_zero fun hzero => by
      have hle := hw.length_le
      omega
  intro depth
  induction depth with
  | zero =>
    intro depth' name position s _ _ hw hlt _
    obtain ⟨_, hdepth⟩ := hpositive hw hlt
    cases hdepth
  | succ depth ih =>
    intro depth' name position s hs hname hw hlt hlt'
    obtain ⟨deeper, rfl⟩ := hpositive hw hlt'
    rw [Compile.package_succ, Compile.nested]
    rcases call_cases provider name position s with
      ⟨result, hresult⟩ | ⟨hnone, hnew, sources, hlocate, hload⟩
    · rw [hresult, hresult]
    · rw [hload, hload]
      have hhonest := honest_package provider deeper
      refine hhonest.load_eq_of_echoes hs hnone (P := (· ∈ names)) ?_ hbuiltin hlocate (hstrings name)
      -- the importers agree while the package is being compiled
      intro path hpath position' a catalogue hcompiles
      have hloading : catalogue.loading = s.2.loading ++ [(name, s.1.size)] := hcompiles.loading
      have hlength : catalogue.loading.length = s.2.loading.length + 1 := by
        rw [hloading, List.length_append, List.length_singleton]
      have hwaiting : Waiting names catalogue := by
        have hentered := hw.enter (p := s.1.size) hname hnew
        exact ⟨by rw [hloading]; exact hentered.nodup, by rw [hloading]; exact hentered.mem⟩
      exact ih deeper path position' (a, catalogue) hcompiles.sound hpath hwaiting
        (by dsimp only; omega) (by dsimp only; omega)

/-! ## Files in memory -/

/-- A script of a package in memory writes strings of the files. -/
theorem Memory.mem_strings_of_scripts {memory : Memory} {source : Text.Source} {value : String}
    (h : memory.provider.Scripts name source) (hv : .string value ∈ source.kinds) :
    value ∈ memory.strings := by
  cases h with
  | embedded =>
    have hmem := Text.Source.mem_strings.2 hv
    rw [Prelude.strings_text] at hmem
    cases hmem
  | file _ _ hread => exact mem_strings_of_read hread hv

namespace Session

/-- Over files in memory the calls of the compiler come to an end: calls that are nested more deeply
than the provider allows for are never made. -/
theorem nested_eq_compile (memory : Memory) (hs : s.Reachable) (name : String)
    (rest : Importer Catalogue) {depth : Nat} (hdepth : memory.provider.depth ≤ depth) :
    Compile.nested memory.provider rest depth name .unknown s =
      compile memory.provider name s := by
  have hloading : s.2.loading = [] := hs.loading
  have hle := memory.length_strings_le
  have hbound : (name :: Prelude.packageName :: memory.strings).length < memory.provider.depth :=
    Nat.succ_lt_succ (Nat.succ_lt_succ (Nat.lt_succ_of_le hle))
  refine nested_eq_package rest (List.mem_cons_of_mem _ List.mem_cons_self)
    (fun other source value hsource hv => List.mem_cons_of_mem _ (List.mem_cons_of_mem _
      (Memory.mem_strings_of_scripts hsource hv))) depth memory.provider.depth name .unknown s
    hs.sound List.mem_cons_self (.of_nil hloading) ?_ ?_
  · rw [hloading]
    exact Nat.lt_of_lt_of_le hbound hdepth
  · rw [hloading]
    exact hbound

/-! ## The imports of a session -/

/-- A script of the linked package `p` has a reference to the package `q`. -/
def Imports (s : Session) (p q : NodeId) : Prop :=
  (∃ name, s.package? name = some p) ∧ ∃ (reference script : NodeId) (decl : Script),
    (s.arena.node reference).script = some script ∧ s.arena.script? script = some decl ∧
      decl.package = p ∧ s.arena.packageRef? reference = some q

theorem Imports.caches {p q : NodeId} (h : s.Imports p q) : s.2.Caches p := by
  obtain ⟨name, hname⟩ := h.1
  exact Catalogue.caches_iff.2 ⟨name, hname⟩

theorem Imports.needs {p q : NodeId} (h : s.Imports p q) : s.1.Needs p q := by
  obtain ⟨-, reference, script, decl, hscript, hd, rfl, hreference⟩ := h
  rw [packageRef?_eq_some] at hreference
  have hlevel : (s.1.kind reference).level < 7 := by
    rw [show s.1.kind reference = _ from hreference]
    exact (by decide : 5 < 7)
  exact ⟨reference, home_of_own hlevel hscript (script?_eq_some.1 hd), hreference⟩

/-- What a linked package imports is linked under its own name. -/
theorem package?_of_imports (hs : s.Reachable) {p q : NodeId} (h : s.Imports p q) :
    s.package? (s.arena.name q) = some q := by
  obtain ⟨name, hname⟩ := Catalogue.caches_iff.1 (hs.sound.ordered.closed p q h.caches h.needs)
  rw [show s.arena.name q = name from hs.sound.named name q hname]
  exact hname

/-- The imports between linked packages have no cycle. -/
theorem not_transGen_imports (hs : s.Reachable) (p : NodeId) :
    ¬ Relation.TransGen s.Imports p p := by
  intro hcycle
  obtain ⟨q, hpq, -⟩ := Relation.TransGen.head'_iff.1 hcycle
  exact not_transGen_of_acc (hs.sound.ordered.founded p hpq.caches) p .refl
    (Relation.TransGen.mono (fun _ _ => Imports.needs) _ _ hcycle)

/-- Over files in memory, compiling comes to an end whatever calls beyond the bound would do. The
imports between linked packages have no cycle, and lead to packages that are linked under the names
of their nodes. Where a cycle of imports is reached through the files, compiling fails. -/
theorem imports_founded (memory : Memory) (s : Session) (hs : s.Reachable) :
    (∀ name rest depth, memory.provider.depth ≤ depth →
      Compile.nested memory.provider rest depth name .unknown s =
        compile memory.provider name s) ∧
    (∀ p, ¬ Relation.TransGen s.Imports p p) ∧
    (∀ p q, s.Imports p q → s.package? (s.arena.name q) = some q) ∧
    (s.ReachableOver memory.provider → ∀ name other,
      Relation.ReflTransGen memory.provider.Imports name other →
      Relation.TransGen memory.provider.Imports other other →
      ∃ failure t, compile memory.provider name s = .error failure t) :=
  ⟨fun name rest _ => nested_eq_compile memory hs name rest, not_transGen_imports hs,
    fun _ _ => package?_of_imports hs, fun hover _ _ => compile_error_of_cycle hover⟩

/-! ### Two packages that import each other -/

namespace Ring

/-- The package `a` imports the package `b`, which imports `a`. -/
def memory : Memory :=
  (Memory.empty.insert ⟨"a/x.tidl"⟩ "import \"b\"".toUTF8).insert ⟨"b/x.tidl"⟩
    "import \"a\"".toUTF8

/-- A package in memory imports what its file starts with. -/
theorem imports_of_start {name path : String} {directory file : Path} {bytes : ByteArray}
    {rest : List TokenKind} (hfind : memory.find name = [directory])
    (hlist : memory.list directory = [file]) (hread : memory.read file = .ok bytes)
    (hkinds : (Text.Source.ofBytes bytes).kinds = .keyword .imports :: .string path :: rest) :
    memory.provider.Imports name path := by
  have hlocate : memory.provider.locate name = .ok (.files [file]) := by
    have hfound : memory.provider.find name = [directory] := hfind
    have hlisted : memory.provider.list directory = .ok [file] := congrArg _ hlist
    unfold Provider.locate
    rw [hfound]
    simp only [hlisted]
  refine ⟨_, .file hlocate List.mem_cons_self hread, ?_⟩
  have hstart : (Text.Source.ofBytes bytes).kinds =
      [Phrase.ImportStatement.single ⟨none, path⟩].flatMap Phrase.ImportStatement.tokens ++ rest := hkinds
  exact .written hstart List.mem_cons_self

theorem cycle : Relation.TransGen memory.provider.Imports "a" "a" :=
  .tail (.single (imports_of_start (by decide +kernel : memory.find "a" = [⟨"a"⟩])
      (by decide +kernel : memory.list ⟨"a"⟩ = [⟨"a/x.tidl"⟩]) rfl
      (by decide +kernel : (Text.Source.ofBytes "import \"b\"".toUTF8).kinds =
        [.keyword .imports, .string "b", .eof])))
    (imports_of_start (by decide +kernel : memory.find "b" = [⟨"b"⟩])
      (by decide +kernel : memory.list ⟨"b"⟩ = [⟨"b/x.tidl"⟩]) rfl
      (by decide +kernel : (Text.Source.ofBytes "import \"a\"".toUTF8).kinds =
        [.keyword .imports, .string "a", .eof]))

end Ring

theorem imports_founded_ring : empty.Reachable ∧ empty.ReachableOver Ring.memory.provider ∧
    Relation.TransGen Ring.memory.provider.Imports "a" "a" ∧
    ∃ failure t, compile Ring.memory.provider "a" empty = .error failure t := by
  have hempty : empty.Reachable := .refl
  obtain ⟨-, -, -, hcycle⟩ := imports_founded Ring.memory empty hempty
  exact ⟨hempty, .refl, Ring.cycle, hcycle .refl "a" "a" .refl Ring.cycle⟩

end Session

end SchemaLang
