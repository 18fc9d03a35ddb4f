import SchemaLang.Proofs.Session.Cycles

/-!
# Where compiling fails

A call fails at the package that it asks for, or at an import of it, and an import fails in the same ways.
Of a package the sources are located, then its files are read, then it is linked; and each of these has
failures of its own. So a failure can be followed through the imports to the package where it arose.

Such a failure keeps its position on the way, but for one: where the directory of an imported package cannot
be listed, the failure is moved to the import, and no longer names the directory.

* `Provider.Fails`: what compiling a package may fail with, where the call asks for it at a position.
* `Session.fails_of_error`: a call fails with nothing else.
* `Session.io_of_error`: what a failure of a file or a directory names.
-/

namespace SchemaLang

open Arena Session

/-- What compiling the package `name` may fail with, where it is asked for at the position. -/
inductive Provider.Fails (provider : Provider) : String → Position → Diagnostic → Prop where
  /-- What the packages declare, or a cycle. -/
  | declared {name : String} {position : Position} {failure : Diagnostic}
    (phase : failure.cause.phase ≠ .driver) : Fails provider name position failure
  | tooDeep {name : String} {position : Position} :
    Fails provider name position ⟨.importDepth name, position⟩
  | unlocated {name : String} {position : Position} {fault : Diagnostic}
    (located : provider.locate name = .error fault) :
    Fails provider name position (Compile.pointAt fault position)
  | unread {name : String} {position : Position} {paths : List Path} {path : Path}
    {fault : AccessFault} (located : provider.locate name = .ok (.files paths)) (mem : path ∈ paths)
    (read : provider.read path = .error fault) :
    Fails provider name position (fault.diagnostic path)
  | twice {name : String} {position : Position} {paths : List Path} {shown : String}
    (located : provider.locate name = .ok (.files paths))
    (repeated : ¬ (paths.map Path.scriptName).Nodup) :
    Fails provider name position ⟨.duplicateScript shown, .unknown⟩
  | imported {name other : String} {position place : Position} {failure : Diagnostic}
    (imports : provider.ImportsAt name other place) (fails : Fails provider other place failure) :
    Fails provider name position failure

variable {provider : Provider} {s t : Session} {name other : String} {position place : Position}
  {failure : Diagnostic}

theorem Diagnostic.phase_ne_driver (h : failure.cause.phase = .lexer ∨ failure.cause.phase = .parse) :
    failure.cause.phase ≠ .driver := by
  rcases h with h | h <;> exact h ▸ Phase.noConfusion

/-- Calls fail in the ways of a package and its imports, by induction on how deep imports may nest. -/
theorem fails_package (provider : Provider) (depth : Nat) :
    ∀ (name : String) (position : Position) (s y : Session) (failure : Diagnostic), Sound s →
      Compile.package provider depth name position s = .error failure y →
      provider.Fails name position failure := by
  induction depth using Nat.strongRecOn with
  | ind depth ih =>
    intro name position s y failure hs hrun
    rcases package_error_cases hrun with ⟨chain, -, rfl⟩ | ⟨fault, hfault, rfl⟩ | rfl |
      ⟨deeper, sources, rfl, hname, -, hl, hload⟩
    · exact .declared Phase.noConfusion
    · exact .unlocated hfault
    · exact .tooDeep
    have hhonest := honest_package provider deeper
    have hcalled : ∀ x : Session, (hhonest.hosting hs name).Inv x.1 x.2 → x.1.name s.1.size = name :=
      fun x hx =>
        have hx : s.Compiles name x := hx
        hx.called
    rcases load_error_cases hload with ⟨x, hread⟩ | ⟨x, b, -, hlink⟩
    · cases refers_readSources hcalled (hhonest.rests_opened hs hname)
        (scriptNames_newPackage s.1 name) hl hread with
      | written hphase => exact .declared (Diagnostic.phase_ne_driver hphase)
      | unread hlocated hmem hfault he => exact he ▸ .unread hlocated hmem hfault
      | twice hlocated hrepeated he => exact he ▸ .twice hlocated hrepeated
      | @imported other place z z' himports hz hanswer =>
        have hz : s.Compiles name z := hz
        exact .imported himports
          (ih deeper (Nat.lt_succ_self _) other place z z' failure hz.sound hanswer)
    · exact .declared (Link.phase_ne_of_package hlink)

/-! ## Files and directories that fail -/

/-- The package `other` is `name`, or a package that it imports, at whatever depth. -/
def Provider.Reaches (provider : Provider) : String → String → Prop :=
  Relation.ReflTransGen fun name other => ∃ place, provider.ImportsAt name other place

/-- The directory of the package cannot be listed. -/
def Provider.Unlisted (provider : Provider) (name : String) (directory : Path) (fault : AccessFault) :
    Prop :=
  provider.find name = [directory] ∧ provider.list directory = .error fault

/-- What a failure names that arose below the call: a file that cannot be read, or an import of a package
whose directory cannot be listed. -/
inductive Provider.Names (provider : Provider) (name : String) (failure : Diagnostic) : Prop where
  | file {other : String} {paths : List Path} {path : Path} {fault : AccessFault}
    (reaches : provider.Reaches name other) (located : provider.locate other = .ok (.files paths))
    (mem : path ∈ paths) (read : provider.read path = .error fault)
    (eq : failure = fault.diagnostic path)
  | site {importer other : String} {place : Position} {directory : Path} {fault : AccessFault}
    (reaches : provider.Reaches name importer) (imports : provider.ImportsAt importer other place)
    (unlisted : provider.Unlisted other directory fault)
    (eq : failure = Compile.pointAt (fault.diagnostic directory) place)

theorem Provider.Names.imported (h : provider.Names other failure)
    (himports : provider.ImportsAt name other place) : provider.Names name failure := by
  cases h with
  | file hreaches hlocated hmem hread he =>
    exact .file (.head ⟨place, himports⟩ hreaches) hlocated hmem hread he
  | site hreaches hi hunlisted he => exact .site (.head ⟨place, himports⟩ hreaches) hi hunlisted he

theorem Compile.cause_pointAt : (Compile.pointAt failure position).cause = failure.cause := by
  unfold pointAt
  split <;> rfl

/-- Only the directory is not accessible where the sources of a package are not located for that reason. -/
theorem Provider.unlisted_of_locate {message : String} (h : provider.locate name = .error failure)
    (hcause : failure.cause = .io message) :
    ∃ directory fault, provider.Unlisted name directory fault ∧ failure = fault.diagnostic directory := by
  unfold locate at h
  split at h
  · split at h <;> cases h
    cases hcause
  · rename_i directory hfind
    split at h <;> cases h
    rename_i fault hlist
    exact ⟨directory, fault, ⟨hfind, hlist⟩, rfl⟩
  · cases h
    cases hcause

theorem Provider.Fails.names (h : provider.Fails name position failure) {message : String}
    (hcause : failure.cause = .io message) :
    (∃ directory fault, provider.Unlisted name directory fault ∧
      failure = Compile.pointAt (fault.diagnostic directory) position) ∨ provider.Names name failure := by
  induction h with
  | declared hphase =>
    rw [hcause] at hphase
    exact absurd rfl hphase
  | tooDeep => cases hcause
  | unlocated hlocated =>
    rw [Compile.cause_pointAt] at hcause
    obtain ⟨directory, fault, hunlisted, rfl⟩ := unlisted_of_locate hlocated hcause
    exact Or.inl ⟨directory, fault, hunlisted, rfl⟩
  | unread hlocated hmem hread => exact Or.inr (.file .refl hlocated hmem hread rfl)
  | twice _ _ => cases hcause
  | @imported name other position place failure himports _ ih =>
    refine Or.inr ((ih hcause).elim ?_ fun hnames => hnames.imported himports)
    -- the failure of a directory has no line, so it is moved to the import
    rintro ⟨directory, fault, hunlisted, rfl⟩
    exact .site .refl himports hunlisted rfl

namespace Session

/-- A call fails in the ways of the package it asks for and of what this imports. -/
theorem fails_of_error (hs : s.Reachable) (h : compile provider name s = .error failure t) :
    provider.Fails name .unknown failure :=
  fails_package provider _ name .unknown s t failure hs.sound h

/-- A failure of a file or a directory names the directory of the package that the call asks for, or a file
of this package or of one that it imports, at whatever depth, or it is moved to the place of an import where
the directory of the imported package cannot be listed. -/
theorem io_of_error {message : String} (hs : s.Reachable)
    (h : compile provider name s = .error failure t) (hcause : failure.cause = .io message) :
    (∃ directory fault, provider.Unlisted name directory fault ∧
      failure = fault.diagnostic directory) ∨ provider.Names name failure :=
  (fails_of_error hs h).names hcause

/-- A file that imports a package whose directory cannot be listed. -/
def beforeUnlisted : Provider where
  find name := [⟨name⟩]
  list directory :=
    if directory = ⟨"b"⟩ then .error ⟨.other, "denied"⟩ else .ok [directory.join "d.tidl"]
  read _ := .ok "import \"b\"".toUTF8
  depth := 3

-- the directory is named where the package is asked for, and not where it is imported
example : failsWith (· = ⟨.io "denied", ⟨"b", 0, 0⟩⟩) (compile beforeUnlisted "b" empty) = true := by
  decide +kernel

example : failsWith (· = ⟨.io "denied", ⟨"demo/d.tidl", 1, 8⟩⟩)
    (compile beforeUnlisted "demo" empty) = true := by
  decide +kernel

end Session

end SchemaLang
