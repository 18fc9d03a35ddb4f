import SchemaLang.Proofs.Provider.Names
import SchemaLang.Proofs.Session.Access

/-!
# Compiling files in memory

In memory a package is found in one directory at most, its directory can always be listed, all that is
listed can be read, and no two of the files have one name. But scripts are named by what is shown of the
names, and names that are not Unicode may be shown alike. So of the failures that a provider may lead to,
there are two left: a package that is not found, and two scripts of one name where such names meet.

* `Memory.WellFormed.showsAlike_of_fails`: the failures over files in memory that are about files.
* `Session.files_coherent`: the files as they are added, and what compiling them can fail with.
* `Session.alike_files_refused`: different files that are refused as one script.
-/

namespace SchemaLang

open Session

variable {memory : Memory} {name : String} {position : Position} {failure : Diagnostic}

/-- The failure is about files and directories. -/
def Diagnostic.OfFiles (failure : Diagnostic) : Prop :=
  failure.cause.kind ∈ [FaultKind.io, .ambiguousPackage, .duplicateScript]

theorem Diagnostic.not_ofFiles_of_phase (h : failure.cause.phase ≠ .driver) : ¬ failure.OfFiles := by
  obtain ⟨cause, position⟩ := failure
  unfold OfFiles
  cases cause with
  | duplicate what => cases what <;> simp [Cause.kind, Duplicate.kind]
  | ambiguousPackage => exact absurd rfl h
  | duplicateScript => exact absurd rfl h
  | io => exact absurd rfl h
  | _ => simp [Cause.kind]

namespace Memory

theorem find_cases (memory : Memory) (name : String) :
    memory.find name = [] ∨ memory.find name = [(Path.mk name).normal] := by
  unfold find
  dsimp only
  split
  · exact Or.inl rfl
  · exact Or.inr rfl

/-- Two source files of the directory have different names that are shown alike. Then one of these is not
Unicode. -/
def ShowsAlike (memory : Memory) (directory : Path) : Prop :=
  ∃ path ∈ memory.list directory, ∃ other ∈ memory.list directory, ∃ pathName otherName,
    path.fileName? = some pathName ∧ other.fileName? = some otherName ∧ pathName ≠ otherName ∧
      pathName.shown = otherName.shown ∧ ¬ (pathName.IsUnicode ∧ otherName.IsUnicode)

/-- A package in memory is located, unless it is in no directory. -/
theorem eq_of_locate (h : memory.provider.locate name = .error failure) :
    failure = ⟨.packageNotFound name, .unknown⟩ := by
  unfold Provider.locate at h
  split at h
  · split at h <;> cases h
    rfl
  · cases h
  · rename_i hnil hone
    rcases memory.find_cases name with hfind | hfind
    · exact absurd hfind hnil
    · exact absurd hfind (hone _)

theorem eq_list_of_locate {paths : List Path} (h : memory.provider.locate name = .ok (.files paths)) :
    ∃ directory, memory.find name = [directory] ∧ paths = memory.list directory := by
  unfold Provider.locate at h
  split at h
  · split at h <;> cases h
  · rename_i directory hfind
    cases h
    exact ⟨directory, hfind, rfl⟩
  · cases h

/-- Under Unicode paths no names are shown alike. -/
theorem not_showsAlike_filled {inserts : List (Path × ByteArray)}
    (h : ∀ file ∈ inserts, file.1.text.IsUnicode) (directory : Path) :
    ¬ (filled inserts).ShowsAlike directory := by
  rintro ⟨path, hpath, other, hother, pathName, otherName, hname, hotherName, -, -, hunicode⟩
  exact hunicode ⟨isUnicode_of_mem_list h hpath hname, isUnicode_of_mem_list h hother hotherName⟩

namespace WellFormed

variable (h : memory.WellFormed)

include h

/-- Scripts are named by what is shown of their files' names, which are different. -/
theorem nodup_scriptName {directory : Path} (hshown : ¬ memory.ShowsAlike directory) :
    ((memory.list directory).map Path.scriptName).Nodup := by
  have hlists := h.lists directory
  refine List.pairwise_map.2 ((List.pairwise_map.1 hlists.distinct).imp_of_mem ?_)
  intro path other hpath hother hdistinct hsame
  obtain ⟨stem, -, hfile, -⟩ := hlists.ending path hpath
  obtain ⟨otherStem, -, hotherFile, -⟩ := hlists.ending other hother
  unfold Path.scriptName at hsame
  rw [hfile, hotherFile] at hdistinct hsame
  have hne := mt (congrArg some) hdistinct
  exact hshown ⟨path, hpath, other, hother, _, _, hfile, hotherFile, hne, hsame,
    fun hunicode => hne (hunicode.1.eq_of_shown hunicode.2 hsame)⟩

/-- Compiling files in memory fails for them only where two scripts have one name, by induction on where
the failure arose. -/
theorem showsAlike_of_fails (hfails : memory.provider.Fails name position failure)
    (hfiles : failure.OfFiles) : failure.cause.kind = .duplicateScript ∧
      ∃ other directory, memory.provider.Reaches name other ∧ memory.find other = [directory] ∧
        memory.ShowsAlike directory := by
  induction hfails with
  | declared hphase => exact absurd hfiles (Diagnostic.not_ofFiles_of_phase hphase)
  | tooDeep => simp [Diagnostic.OfFiles, Cause.kind] at hfiles
  | unlocated hlocated =>
    rw [Diagnostic.OfFiles, Compile.cause_pointAt, eq_of_locate hlocated] at hfiles
    simp [Cause.kind] at hfiles
  | unread hlocated hmem hread =>
    obtain ⟨directory, -, rfl⟩ := eq_list_of_locate hlocated
    obtain ⟨-, ⟨bytes, hbytes⟩, -⟩ := h.mem_list.1 hmem
    cases hread.symm.trans hbytes
  | @twice name position paths shown hlocated hrepeated =>
    obtain ⟨directory, hfind, rfl⟩ := eq_list_of_locate hlocated
    exact ⟨rfl, name, directory, .refl, hfind, not_not.1 fun hshown =>
      hrepeated (h.nodup_scriptName hshown)⟩
  | imported himports _ ih =>
    obtain ⟨hkind, other, directory, hreaches, hfind, hshown⟩ := ih hfiles
    exact ⟨hkind, other, directory, .head ⟨_, himports⟩ hreaches, hfind, hshown⟩

end WellFormed

end Memory

namespace Session

/-- Files in memory are coherent, whatever paths they are added under. Working out a path is done with after
one time. A path reads the last file that was added under a path that is worked out alike, or fails. A
package is found in the directory of its name or nowhere. The list of a directory has its source files.
And compiling any package from any session does not fail for a file or a directory that cannot be read,
nor for two directories of a package. It fails for two scripts of one name only where a directory of the
package, or of one that it imports, has files with different names that are shown alike; so never if all
files were added under Unicode paths. -/
theorem files_coherent (inserts : List (Path × ByteArray)) :
    (∀ path : Path, path.normal.normal = path.normal) ∧
    (∀ query, (Memory.filled inserts).read query =
      match inserts.reverse.find? fun file => file.1.normal = query.normal with
      | some file => .ok file.2
      | none => .error ⟨.notFound, "file not found in memory: " ++ query.normal.display⟩) ∧
    (∀ name, (Memory.filled inserts).find name =
      if ∃ file ∈ inserts, file.1.IsIn ⟨name⟩ then [(Path.mk name).normal] else []) ∧
    (∀ directory, (Memory.filled inserts).Lists directory ((Memory.filled inserts).list directory)) ∧
    ∀ (s t : Session) (name : String) (failure : Diagnostic), s.Reachable →
      compile (Memory.filled inserts).provider name s = .error failure t →
      failure.cause.kind ≠ .io ∧ failure.cause.kind ≠ .ambiguousPackage ∧
        (failure.cause.kind = .duplicateScript → ∃ other directory,
          (Memory.filled inserts).provider.Reaches name other ∧
          (Memory.filled inserts).find other = [directory] ∧
          (Memory.filled inserts).ShowsAlike directory) ∧
        ((∀ file ∈ inserts, file.1.text.IsUnicode) → failure.cause.kind ≠ .duplicateScript) := by
  refine ⟨Path.normal_normal, Memory.read_filled inserts, Memory.find_filled inserts,
    Memory.lists_filled inserts, fun s t name failure hs hrun => ?_⟩
  have hfails := fails_of_error hs hrun
  have hfiles := (Memory.wellFormed_filled inserts).showsAlike_of_fails hfails
  refine ⟨fun hkind => ?_, fun hkind => ?_, fun hkind => ?_, fun hunicode hkind => ?_⟩
  · cases hkind.symm.trans (hfiles (by simp [Diagnostic.OfFiles, hkind])).1
  · cases hkind.symm.trans (hfiles (by simp [Diagnostic.OfFiles, hkind])).1
  · exact (hfiles (by simp [Diagnostic.OfFiles, hkind])).2
  · obtain ⟨-, other, directory, -, -, hshown⟩ := hfiles (by simp [Diagnostic.OfFiles, hkind])
    exact Memory.not_showsAlike_filled hunicode directory hshown

/-! ### Files under strange paths -/

namespace Twisted

/-- Two packages that import each other. Their files are added under paths that lead astray, one of them
two times. -/
def inserts : List (Path × ByteArray) :=
  [(⟨"a/x.tidl"⟩, "table".toUTF8), (⟨"b/../a/./x.tidl"⟩, "import \"b\"".toUTF8),
    (⟨"../b//x.tidl"⟩, "import \"a\"".toUTF8)]

theorem isUnicode : ∀ file ∈ inserts, file.1.text.IsUnicode := by
  unfold inserts
  simp only [List.forall_mem_cons]
  exact ⟨⟨_, rfl⟩, ⟨_, rfl⟩, ⟨_, rfl⟩, List.forall_mem_nil _⟩

theorem compile_error : ∃ failure t,
    compile (Memory.filled inserts).provider "a" empty = .error failure t := by
  have h : failsWith (fun _ => true) (compile (Memory.filled inserts).provider "a" empty) = true := by
    decide +kernel
  obtain ⟨failure, t, ht, -⟩ := failsWith_eq_true h
  exact ⟨failure, t, ht⟩

theorem find?_eq : inserts.reverse.find? (fun file => file.1.normal = Path.normal ⟨"./a/x.tidl"⟩) =
    some (⟨"b/../a/./x.tidl"⟩, "import \"b\"".toUTF8) := by
  decide +kernel

end Twisted

namespace Alike

/-- A built-in package of two empty files, whose names start with bytes that are no characters. -/
def inserts : List (Path × ByteArray) :=
  [(⟨"tidl/" ++ ⟨[0xFE]⟩ ++ ".tidl"⟩, .empty), (⟨"tidl/" ++ ⟨[0xFF]⟩ ++ ".tidl"⟩, .empty)]

theorem compile_error : ∃ failure t,
    compile (Memory.filled inserts).provider "tidl" empty = .error failure t ∧
      failure.cause.kind = .duplicateScript := by
  have h : failsWith (fun failure => failure.cause.kind = .duplicateScript)
      (compile (Memory.filled inserts).provider "tidl" empty) = true := by
    decide +kernel
  obtain ⟨failure, t, ht, hkind⟩ := failsWith_eq_true h
  exact ⟨failure, t, ht, of_decide_eq_true hkind⟩

end Alike

/-- Compiling the one package fails, but not for files; compiling the other does, and so two names in its
directory are shown alike. -/
theorem files_coherent_twisted :
    (Memory.filled Twisted.inserts).read ⟨"./a/x.tidl"⟩ = .ok "import \"b\"".toUTF8 ∧
    (∃ failure t, empty.Reachable ∧
      compile (Memory.filled Twisted.inserts).provider "a" empty = .error failure t ∧
      failure.cause.kind ≠ .io ∧ failure.cause.kind ≠ .ambiguousPackage ∧
        (∀ file ∈ Twisted.inserts, file.1.text.IsUnicode) ∧
        failure.cause.kind ≠ .duplicateScript) ∧
    ∃ failure t, empty.Reachable ∧
      compile (Memory.filled Alike.inserts).provider "tidl" empty = .error failure t ∧
      failure.cause.kind = .duplicateScript ∧
      ∃ other directory, (Memory.filled Alike.inserts).provider.Reaches "tidl" other ∧
        (Memory.filled Alike.inserts).find other = [directory] ∧
        (Memory.filled Alike.inserts).ShowsAlike directory := by
  obtain ⟨-, hread, -, -, hfails⟩ := files_coherent Twisted.inserts
  obtain ⟨failure, t, hrun⟩ := Twisted.compile_error
  obtain ⟨hio, hambiguous, -, hunicode⟩ := hfails empty t "a" failure .refl hrun
  refine ⟨?_, ⟨failure, t, .refl, hrun, hio, hambiguous, Twisted.isUnicode,
    hunicode Twisted.isUnicode⟩, ?_⟩
  · have hfile := hread ⟨"./a/x.tidl"⟩
    rwa [Twisted.find?_eq] at hfile
  · obtain ⟨-, -, -, -, halike⟩ := files_coherent Alike.inserts
    obtain ⟨failure, t, hrun, hkind⟩ := Alike.compile_error
    exact ⟨failure, t, .refl, hrun, hkind, (halike empty t "tidl" failure .refl hrun).2.2.1 hkind⟩

/-- Files with different names are refused as one script. -/
theorem alike_files_refused : ∃ failure t, empty.Reachable ∧
    compile (Memory.filled Alike.inserts).provider "tidl" empty = .error failure t ∧
    failure.cause.kind = .duplicateScript := by
  obtain ⟨failure, t, hrun, hkind⟩ := Alike.compile_error
  exact ⟨failure, t, .refl, hrun, hkind⟩

end Session

end SchemaLang
