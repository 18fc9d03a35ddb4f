import SchemaLang.Proofs.Grammar.ImportSites
import SchemaLang.Proofs.Link.Cycles
import SchemaLang.Proofs.Session.Reordering
import SchemaLang.Proofs.Session.Termination

/-!
# Cycles that a session reports

The packages that are being compiled wait for one another: each of them was entered at an import of the
one before it. So where an import comes upon a package that waits, the chain that the failure names is a
chain of imports in the files, and the failure stands at the last of them. A cycle of inheritance comes
from the linking of a package that was read, and its contracts are contracts of that package.

* `Provider.ImportsAt`: the imports of a package with their places, read off its files.
* `Session.Awaited`: the packages that wait, as a chain of imports.
* `Session.Reports`: what a failure can report of cycles.
* `Session.circular_of_error`: every cycle that is reported is one.
-/

namespace SchemaLang

open Arena Session

/-! ## Imports in the files -/

/-- A script of the package `name`: the file that its places name, and its source. -/
inductive Provider.HasScript (provider : Provider) (name : String) : String → Text.Source → Prop where
  | embedded (located : provider.locate name = .ok .embedded) :
    HasScript provider name Prelude.fileName ⟨Prelude.text.toList, true⟩
  | file {paths : List Path} {path : Path} {bytes : ByteArray}
    (located : provider.locate name = .ok (.files paths)) (mem : path ∈ paths)
    (read : provider.read path = .ok bytes) : HasScript provider name path.display (.ofBytes bytes)

/-- A script of the package `name` imports the package `other` at the position. -/
def Provider.ImportsAt (provider : Provider) (name other : String) (position : Position) : Prop :=
  ∃ file source, provider.HasScript name file source ∧
    Phrase.ImportsAt name file (source.tokens file) other position

/-- The names are a cycle of imports, the last of which is at the position. -/
structure Provider.CircularImports (provider : Provider) (chain : List String) (position : Position) :
    Prop where
  closes : Closes (fun name other => ∃ place, provider.ImportsAt name other place) chain
  last : ∃ init name other, chain = init ++ [name, other] ∧ provider.ImportsAt name other position

/-- The contracts are a cycle of inheritance that linking a package comes upon, after the scripts of the
package were read from the provider. -/
structure Session.CircularContracts (provider : Provider) (failure : Diagnostic) (package : NodeId)
    (read : Session) (linked : Arena) (contracts : List NodeId) : Prop where
  isRead : ∃ (s : Session) (depth : Nat) (name : String) (sources : Sources),
    package = s.arena.size ∧ provider.locate name = .ok sources ∧
      Compile.readSources provider (Compile.package provider depth) package sources (s.opened name) =
        .ok () read ∧
      Link.package package (read.catalogue.builtin name package) read.arena = .error failure linked
  cause : failure.cause = .circularInheritance (contracts.map linked.name)
  closes : Closes linked.Inherits contracts
  distinct : Closes (fun _ _ => True) (contracts.map linked.name)
  mem : ∀ contract ∈ contracts, contract ∈ read.arena.typesOf package

/-- What a failure reports: no cycle, a cycle of imports or a cycle of inheritance. -/
inductive Session.Reports (provider : Provider) (failure : Diagnostic) : Prop where
  | plain (plain : failure.Plain)
  | imports {chain : List String} (cause : failure.cause = .circularImport chain)
    (circular : provider.CircularImports chain failure.position)
  | contracts {package : NodeId} {read : Session} {linked : Arena} {contracts : List NodeId}
    (circular : CircularContracts provider failure package read linked contracts)

variable {provider : Provider} {importer : Importer Catalogue} {s x y : Session} {name : String}
  {p : Nat} {failure : Diagnostic} {position : Position}

/-! ## Reading the scripts of a package -/

theorem Diagnostic.plain_of_phase (h : failure.cause.phase = .lexer ∨ failure.cause.phase = .parse) :
    failure.Plain := by
  obtain ⟨cause, position⟩ := failure
  cases cause <;> first | rfl | (rcases h with h | h <;> cases h)

/-- What reading the scripts of a package fails with: what is wrong in one of them, a file that cannot be
read, a name that two files have, or what the host answers to an import of the package. -/
inductive Hosting.Refers (hosting : Hosting importer p) (provider : Provider) (name : String)
    (failure : Diagnostic) : Prop where
  | written (phase : failure.cause.phase = .lexer ∨ failure.cause.phase = .parse)
  | unread {paths : List Path} {path : Path} {fault : AccessFault}
    (located : provider.locate name = .ok (.files paths)) (mem : path ∈ paths)
    (read : provider.read path = .error fault) (eq : failure = fault.diagnostic path)
  | twice {paths : List Path} {shown : String}
    (located : provider.locate name = .ok (.files paths))
    (repeated : ¬ (paths.map Path.scriptName).Nodup) (eq : failure = ⟨.duplicateScript shown, .unknown⟩)
  | imported {other : String} {place : Position} {z z' : Session}
    (imports : provider.ImportsAt name other place) (inv : hosting.Inv z.1 z.2)
    (answer : importer other place z = .error failure z')

section

variable {hosting : Hosting importer p}
  (hname : ∀ x : Session, hosting.Inv x.1 x.2 → x.1.name p = name)

include hname

theorem refers_readFile (hx : hosting.Rests x) {shown : String} {file : Option Path}
    {source : Text.Source} (hs : provider.HasScript name (Path.shown file shown) source)
    (hrun : Compile.readFile importer p shown file source x = .error failure y) :
    shown ∈ x.1.scriptNames p ∧ failure = ⟨.duplicateScript shown, .unknown⟩ ∨
      hosting.Refers provider name failure := by
  refine (fault_readFile hx hrun).imp id fun hfault => ?_
  rw [hname x hx.1] at hfault
  cases hfault with
  | lexed h => exact .written (Or.inl (Lexing.phase_of_failure h))
  | parsed h => exact .written (Or.inr h)
  | @imported _ _ a host _ himports hinv hanswer =>
    exact .imported (z := (a, host)) ⟨_, _, hs, himports⟩ hinv hanswer

theorem refers_readPath (hx : hosting.Rests x) {paths : List Path}
    (hl : provider.locate name = .ok (.files paths)) {path : Path} (hmem : path ∈ paths)
    (hrun : Compile.readPath provider importer p path x = .error failure y) :
    path.scriptName ∈ x.1.scriptNames p ∧ failure = ⟨.duplicateScript path.scriptName, .unknown⟩ ∨
      hosting.Refers provider name failure := by
  unfold Compile.readPath at hrun
  cases hread : provider.read path with
  | error fault =>
    rw [hread] at hrun
    cases hrun
    exact Or.inr (.unread hl hmem hread rfl)
  | ok bytes =>
    rw [hread] at hrun
    have hs : provider.HasScript name (Path.shown (some path) path.scriptName)
      (.ofBytes bytes) := .file hl hmem hread
    exact refers_readFile hname hx hs hrun

/-- Reading the scripts of a package that has none yet. The names that scripts have are those of the files
that are read. -/
theorem refers_readSources (hx : hosting.Rests x) (hempty : x.1.scriptNames p = []) {sources : Sources}
    (hl : provider.locate name = .ok sources)
    (hrun : Compile.readSources provider importer p sources x = .error failure y) :
    hosting.Refers provider name failure := by
  cases sources with
  | embedded =>
    have hs : provider.HasScript name (Path.shown none Prelude.fileName)
      ⟨Prelude.text.toList, true⟩ := .embedded hl
    refine (refers_readFile hname hx hs hrun).resolve_left fun ⟨htaken, _⟩ => ?_
    rw [hempty] at htaken
    cases htaken
  | files paths =>
    have hloop : Ends (paths.forM (Compile.readPath provider importer p)) x (fun _ _ => True)
        fun failure _ => hosting.Refers provider name failure := by
      refine (Ends.forM (I := fun rest y => ∃ done, paths = done ++ rest ∧
        (∀ taken ∈ y.1.scriptNames p, taken ∈ done.map Path.scriptName) ∧ hosting.Rests y)
        (fun path rest y ⟨done, hpaths, htaken, hy⟩ => ?_) paths x
        ⟨[], rfl, by rw [hempty]; exact List.forall_mem_nil _, hx⟩).mono
        (fun _ _ _ => trivial) fun _ _ => id
      have hmem : path ∈ paths := by
        rw [hpaths]
        exact List.mem_append_right _ List.mem_cons_self
      cases hpath : Compile.readPath provider importer p path y with
      | error failure z =>
        refine .of_error hpath ((refers_readPath hname hy hl hmem hpath).elim ?_ id)
        rintro ⟨hname, rfl⟩
        refine .twice hl (fun hnodup => ?_) rfl
        rw [hpaths, List.map_append, List.map_cons, List.nodup_append] at hnodup
        exact hnodup.2.2 _ (htaken _ hname) _ List.mem_cons_self rfl
      | ok _ z =>
        refine .of_ok hpath ⟨done ++ [path], by rw [hpaths, List.append_assoc]; rfl, ?_,
          ((leads_readPath hosting provider hy path).ok hpath).2⟩
        intro taken hz
        rw [List.map_append, List.mem_append, List.map_singleton, List.mem_singleton]
        exact (scriptNames_readPath hosting hy hpath taken hz).symm.imp (htaken taken) id
    exact hloop.error hrun

end

/-! ## The packages that wait -/

/-- The packages that are being compiled: each of them imports the next one, and the last one imports the
package at the position. -/
structure Session.Awaited (provider : Provider) (catalogue : Catalogue) (name : String)
    (position : Position) : Prop where
  nodup : (catalogue.loading.map Prod.fst).Nodup
  chain : (catalogue.loading.map Prod.fst ++ [name]).IsChain fun name other =>
    ∃ place, provider.ImportsAt name other place
  last : ∀ previous ∈ (catalogue.loading.map Prod.fst).getLast?,
    provider.ImportsAt previous name position

namespace Session.Awaited

variable {catalogue : Catalogue} {other : String} {place : Position}

theorem of_nil (h : catalogue.loading = []) : Awaited provider catalogue name position where
  nodup := by rw [h]; exact List.nodup_nil
  chain := by rw [h]; exact .singleton _
  last previous hp := by rw [h] at hp; cases hp

/-- The package is entered, and imports another one. -/
theorem enter (h : Awaited provider catalogue name position)
    (hnew : ∀ entry ∈ catalogue.loading, entry.1 ≠ name)
    (hi : provider.ImportsAt name other place) {catalogue' : Catalogue}
    (hl : catalogue'.loading = catalogue.loading ++ [(name, p)]) :
    Awaited provider catalogue' other place where
  nodup := by
    rw [hl, List.map_append, List.nodup_append]
    refine ⟨h.nodup, List.nodup_singleton _, fun x hx y hy e => ?_⟩
    obtain ⟨entry, hentry, rfl⟩ := List.mem_map.1 hx
    exact hnew entry hentry (e.trans (List.mem_singleton.1 hy))
  chain := by
    rw [hl, List.map_append]
    refine List.IsChain.append h.chain (.singleton _) fun x hx y hy => ?_
    rw [List.map_singleton, List.getLast?_concat] at hx
    cases hx
    cases hy
    exact ⟨place, hi⟩
  last previous hp := by
    rw [hl, List.map_append, List.map_singleton, List.getLast?_concat] at hp
    cases hp
    exact hi

/-- An import of a package that waits closes a chain of imports. -/
theorem circular (h : Awaited provider catalogue name position) {chain : List String}
    (hc : catalogue.cycle? name = some chain) : provider.CircularImports chain position := by
  unfold Catalogue.cycle? at hc
  dsimp only at hc
  split at hc
  · rename_i hmem
    cases hc
    have hmem := List.contains_iff_mem.1 hmem
    refine ⟨closes_of_waiting hmem h.nodup h.chain, ?_⟩
    obtain ⟨rest, hrest⟩ := dropWhile_eq_cons hmem
    obtain ⟨init, previous, hinit⟩ : ∃ init previous, name :: rest = init ++ [previous] :=
      ⟨_, _, (List.dropLast_append_getLast (List.cons_ne_nil _ _)).symm⟩
    refine ⟨init, previous, name, by rw [hrest, hinit, List.append_assoc]; rfl, h.last previous ?_⟩
    have hsuffix := List.dropWhile_suffix (l := catalogue.loading.map Prod.fst) (· != name)
    obtain ⟨before, hbefore⟩ := hsuffix
    rw [← hbefore, hrest, hinit, ← List.append_assoc, List.getLast?_concat]
    exact rfl
  · cases hc

end Session.Awaited

/-! ## What compiling reports -/

theorem plain_locate (h : provider.locate name = .error failure) : failure.Plain := by
  unfold Provider.locate at h
  split at h
  · split at h <;> cases h
    rfl
  · split at h <;> cases h
    rfl
  · cases h
    rfl

theorem plain_pointAt (h : failure.Plain) : (Compile.pointAt failure position).Plain := by
  unfold Compile.pointAt
  split <;> exact h

/-- Where a call fails: it closes a chain of imports, or its sources are not located, or imports nest too
deep, or it fails in what it compiles. -/
theorem package_error_cases {depth : Nat}
    (h : Compile.package provider depth name position s = .error failure y) :
    (∃ chain, s.2.cycle? name = some chain ∧ failure = ⟨.circularImport chain, position⟩) ∨
    (∃ fault, provider.locate name = .error fault ∧ failure = Compile.pointAt fault position) ∨
    failure = ⟨.importDepth name, position⟩ ∨
    ∃ depth' sources, depth = depth' + 1 ∧ s.2.loaded[name]? = none ∧
      s.2.cycle? name = none ∧ provider.locate name = .ok sources ∧
      Compile.load provider (Compile.package provider depth') name sources s = .error failure y := by
  unfold Compile.package at h
  dsimp only at h
  cases hname : s.2.loaded[name]? with
  | some q => simp only [hname] at h; cases h
  | none =>
    cases hcycle : s.2.cycle? name with
    | some chain =>
      simp only [hname, hcycle] at h
      cases h
      exact Or.inl ⟨chain, rfl, rfl⟩
    | none =>
      cases hlocate : provider.locate name with
      | error fault =>
        simp only [hname, hcycle, hlocate] at h
        cases h
        exact Or.inr (Or.inl ⟨fault, rfl, rfl⟩)
      | ok sources =>
        cases depth with
        | zero =>
          simp only [hname, hcycle, hlocate] at h
          cases h
          exact Or.inr (Or.inr (Or.inl rfl))
        | succ depth =>
          simp only [hname, hcycle, hlocate] at h
          exact Or.inr (Or.inr (Or.inr ⟨depth, sources, rfl, rfl, rfl, rfl, h⟩))

/-- A package fails where it is read or where it is linked. -/
theorem load_error_cases {sources : Sources}
    (h : Compile.load provider importer name sources s = .error failure y) :
    (∃ x, Compile.readSources provider importer s.1.size sources (s.opened name) =
      .error failure x) ∨
    ∃ x b, Compile.readSources provider importer s.1.size sources (s.opened name) = .ok () x ∧
      Link.package s.1.size (x.2.builtin name s.1.size) x.1 = .error failure b := by
  rw [load_eq] at h
  split at h
  · cases h
  rename_i failure' x hsteps
  obtain rfl : failure' = failure := by
    cases h
    rfl
  rcases of_bind_error hsteps with hread | ⟨_, x₁, hread, hlink⟩
  · exact Or.inl ⟨x, hread⟩
  refine Or.inr ⟨x₁, x.1, hread, ?_⟩
  unfold Compile.linkPackage at hlink
  dsimp only at hlink
  split at hlink <;> cases hlink
  assumption

/-- Linking a package that the compiler has read reports no cycle, or contracts of the package. -/
theorem reports_link {depth : Nat} {sources : Sources} (hl : provider.locate name = .ok sources)
    {b : Arena} (hread : Compile.readSources provider (Compile.package provider depth) s.1.size sources
      (s.opened name) = .ok () x)
    (hx : s.Compiles name x) (hg : Gathered s.1.size x.2.Caches x.1) (hf : Finished x.2.Caches x.1)
    (hlink : Link.package s.1.size (x.2.builtin name s.1.size) x.1 = .error failure b) :
    Reports provider failure := by
  obtain ⟨settled, hsettled⟩ := hx.sound.settled
  rcases hg.circularBases hx.sound.anchored hsettled hx.entry.2 hf hlink with
    hplain | ⟨contracts, hcause, hcloses, hmem⟩
  · exact .plain hplain
  refine .contracts ⟨⟨s, depth, name, sources, rfl, hl, hread, hlink⟩, hcause, hcloses, ?_,
    fun x hx => (hmem x hx).1⟩
  -- types of one package have different names
  refine hcloses.map b.name (fun m hm n hn he => ?_) fun _ _ _ => trivial
  obtain ⟨hm, hmname⟩ := hmem m hm
  obtain ⟨hn, hnname⟩ := hmem n hn
  exact hg.name_injective hm hn (by rw [← hmname, ← hnname, he])

/-- A failure reports only cycles of the files, by induction on how deep imports may nest. -/
theorem reports_package (provider : Provider) (depth : Nat) :
    ∀ (name : String) (position : Position) (s y : Session) (failure : Diagnostic), Sound s →
      Finished s.2.Caches s.1 → Awaited provider s.2 name position →
      Compile.package provider depth name position s = .error failure y →
      Reports provider failure := by
  induction depth using Nat.strongRecOn with
  | ind depth ih =>
    intro name position s y failure hs hf hw hrun
    rcases package_error_cases hrun with ⟨chain, hcycle, rfl⟩ | ⟨fault, hfault, rfl⟩ | rfl |
      ⟨deeper, sources, rfl, hname, hnew, hl, hload⟩
    · exact .imports rfl (hw.circular hcycle)
    · exact .plain (plain_pointAt (plain_locate hfault))
    · exact .plain rfl
    have hhonest := honest_package provider deeper
    have hcarrying := carried_finished.package provider deeper
    have hrests := carried_finished.rests_opened hcarrying hhonest hs hname hf
    have hcalled : ∀ x : Session, (carried_finished.hosting hcarrying hhonest hs name).Inv x.1 x.2 →
        x.1.name s.1.size = name := fun x hx =>
      have hx : s.Compiles name x := hx.1
      hx.called
    rcases load_error_cases hload with ⟨x, hread⟩ | ⟨x, b, hread, hlink⟩
    · cases refers_readSources hcalled hrests (scriptNames_newPackage s.1 name) hl hread with
      | written hphase => exact .plain (Diagnostic.plain_of_phase hphase)
      | unread _ _ _ hfault => exact .plain (by rw [hfault]; rfl)
      | twice _ _ htwice => exact .plain (by rw [htwice]; rfl)
      | @imported other place z z' himports hz hanswer =>
        -- the import that failed was answered while this package waits
        obtain ⟨hz, hfz⟩ := hz
        have hz : s.Compiles name z := hz
        exact ih deeper (Nat.lt_succ_self _) other place z z' failure hz.sound hfz
          (hw.enter (Catalogue.cycle?_eq_none hnew) himports hz.loading) hanswer
    · obtain ⟨⟨hx, hfx⟩, hg⟩ := ((leads_readSources _ provider hrests sources).ok hread).2
      exact reports_link hl hread hx hg hfx hlink

namespace Session

/-- Reported cycles are real. Where a call fails with a chain of packages, these are a cycle of imports in
the files, and the last import of it is at the position of the failure. Where it fails with a chain of
contracts, these are a cycle of inheritance in a package that was read from the provider. And where
linking any package of any arena fails with a chain of contracts, these are a cycle of inheritance. -/
theorem circular_of_error :
    (∀ (s t : Session) (provider : Provider) (name : String) (failure : Diagnostic), s.Reachable →
      compile provider name s = .error failure t →
      (∀ chain, failure.cause = .circularImport chain →
        provider.CircularImports chain failure.position) ∧
      ∀ chain, failure.cause = .circularInheritance chain →
        ∃ package read linked contracts, chain = contracts.map linked.name ∧
          CircularContracts provider failure package read linked contracts) ∧
    ∀ (a b : Arena) (p : NodeId) (builtin : Option NodeId) (failure : Diagnostic) (chain : List String),
      Link.package p builtin a = .error failure b → failure.cause = .circularInheritance chain →
        ∃ contracts, chain = contracts.map b.name ∧ Closes b.Inherits contracts := by
  refine ⟨fun s t provider name failure hs hrun => ?_, fun a b p builtin failure chain hrun hchain => ?_⟩
  · have hfinished : Finished s.2.Caches s.1 := carried_finished.later sound_empty
      (fun q _ hq => by
        obtain ⟨other, hother⟩ := Catalogue.caches_iff.1 hq
        cases hother) hs
    have hreports := reports_package provider _ name .unknown s t failure hs.sound hfinished
      (.of_nil hs.loading) hrun
    obtain ⟨cause, position⟩ := failure
    refine ⟨fun chain hchain => ?_, fun chain hchain => ?_⟩ <;> cases hchain
    · cases hreports with
      | plain hplain => cases hplain
      | imports hcause hcircular =>
        cases hcause
        exact hcircular
      | contracts hcircular => cases hcircular.cause
    · cases hreports with
      | plain hplain => cases hplain
      | imports hcause => cases hcause
      | contracts hcircular => exact ⟨_, _, _, _, by injection hcircular.cause, hcircular⟩
  · rcases Link.package_error_cases hrun with hplain | ⟨c, -, -, -, -, hreports⟩
    · unfold Diagnostic.Plain at hplain
      rw [hchain] at hplain
      cases hplain
    rcases hreports with hplain | ⟨contracts, hcause, hcircular⟩
    · unfold Diagnostic.Plain at hplain
      rw [hchain] at hplain
      cases hplain
    · exact ⟨contracts, by injection hchain.symm.trans hcause, hcircular.closes⟩

/-! ### Contracts that inherit from each other -/

/-- Whether a step fails in a way that passes a check. -/
def failsWith {σ α : Type} (check : Diagnostic → Bool) : EStateM.Result Diagnostic σ α → Bool
  | .ok _ _ => false
  | .error failure _ => check failure

theorem failsWith_eq_true {σ α : Type} {check : Diagnostic → Bool}
    {result : EStateM.Result Diagnostic σ α} (h : failsWith check result = true) :
    ∃ failure t, result = .error failure t ∧ check failure = true := by
  cases result with
  | ok _ x => cases h
  | error failure x => exact ⟨failure, x, rfl, h⟩

namespace Looped

/-- The words of a built-in package, and three contracts: the first one leads to a cycle that it is not
on. -/
def words : List (String × TokenKind) :=
  let word (name : String) := (name, TokenKind.ident name)
  let sign (c : Char) := (String.singleton c, TokenKind.char c)
  let contract (name base : String) := [("contract", .keyword .contract), word name, sign '(',
    word base, sign ')', sign '\x7b', sign '\x7d']
  Small.words ++ contract "Leaf" "Left" ++ contract "Left" "Right" ++ contract "Right" "Left"

@[irreducible] def bytes : ByteArray :=
  lines words

def tokens : List Token :=
  lineTokens words

theorem lexing_eq : Lexing.ofSource "a" (.ofBytes bytes) = ⟨tokens, none⟩ := by
  unfold bytes
  exact Words.lexing_lines (by decide +kernel)

def sample : Sample := ⟨bytes, tokens, lexing_eq⟩

theorem compile_error : ∃ failure t,
    compile sample.sources Prelude.packageName empty = .error failure t ∧
      failure.cause = .circularInheritance ["Left", "Right", "Left"] := by
  have h : failsWith (fun failure => decide (failure.cause =
      .circularInheritance ["Left", "Right", "Left"])) sample.linked = true := by
    decide +kernel
  obtain ⟨failure, x, hx, hcause⟩ := failsWith_eq_true h
  obtain ⟨t, ht⟩ := sample.compile_eq_error hx
  exact ⟨failure, t, ht, of_decide_eq_true hcause⟩

end Looped

theorem Ring.compile_error : ∃ failure t, compile Ring.memory.provider "a" empty = .error failure t ∧
    failure.cause = .circularImport ["a", "b", "a"] := by
  have h : failsWith (fun failure => decide (failure.cause = .circularImport ["a", "b", "a"]))
      (compile Ring.memory.provider "a" empty) = true := by
    decide +kernel
  obtain ⟨failure, t, ht, hcause⟩ := failsWith_eq_true h
  exact ⟨failure, t, ht, of_decide_eq_true hcause⟩

theorem circular_of_error_looped :
    (∃ failure t, compile Ring.memory.provider "a" empty = .error failure t ∧
      Ring.memory.provider.CircularImports ["a", "b", "a"] failure.position) ∧
    ∃ failure t package read linked contracts,
      compile Looped.sample.sources Prelude.packageName empty = .error failure t ∧
        ["Left", "Right", "Left"] = contracts.map linked.name ∧
        CircularContracts Looped.sample.sources failure package read linked contracts ∧
        ∃ others, ["Left", "Right", "Left"] = others.map linked.name ∧ Closes linked.Inherits others := by
  obtain ⟨hcompiled, hlinked⟩ := circular_of_error
  obtain ⟨failure, t, hrun, hcause⟩ := Ring.compile_error
  obtain ⟨failure', t', hrun', hcause'⟩ := Looped.compile_error
  refine ⟨⟨failure, t, hrun, (hcompiled empty t _ _ failure .refl hrun).1 _ hcause⟩, ?_⟩
  obtain ⟨package, read, linked, contracts, hchain, hcircular⟩ :=
    (hcompiled empty t' _ _ failure' .refl hrun').2 _ hcause'
  obtain ⟨s, depth, name, sources, -, -, -, hlink⟩ := hcircular.isRead
  exact ⟨failure', t', package, read, linked, contracts, hrun', hchain, hcircular,
    hlinked _ _ _ _ _ _ hlink hcause'⟩

end Session

end SchemaLang
