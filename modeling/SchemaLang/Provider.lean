import SchemaLang.Diagnostic
import SchemaLang.Path

/-!
# Providers

A provider says where packages are and gives their sources: the directories that could be a package,
the source files of a directory, and the bytes of a file. A package is in exactly one directory; the
built-in package may be in none.
-/

namespace SchemaLang

/-- What went wrong with a file or directory. -/
inductive AccessKind where
  | notFound | isADirectory | notADirectory
  /-- A name or path with more bytes than a disk takes. -/
  | nameTooLong
  /-- A path that no disk takes, whatever is on it. -/
  | malformedPath
  | other
  deriving DecidableEq, Repr

/-- A file or directory that cannot be read. -/
structure AccessFault where
  kind : AccessKind
  message : String
  deriving DecidableEq, Repr

/-- Where sources come from. -/
structure Provider where
  /-- The directories that could be the package with a name. -/
  find : String → List Path
  /-- The source files directly inside a directory, in ascending order. -/
  list : Path → Except AccessFault (List Path)
  read : Path → Except AccessFault ByteArray
  /-- A bound on the length of chains of imports through these sources. -/
  depth : Nat

/-- Where the scripts of a package come from. -/
inductive Sources where
  /-- The embedded text of the built-in package. -/
  | embedded
  | files (paths : List Path)
  deriving Repr

/-- The failure of a file or directory, which is named as the file of its position. -/
def AccessFault.diagnostic (fault : AccessFault) (path : Path) : Diagnostic :=
  ⟨.io fault.message, ⟨path.display, 0, 0⟩⟩

/-- Finds the sources of a package. -/
def Provider.locate (provider : Provider) (name : String) : Except Diagnostic Sources :=
  match provider.find name with
  | [] =>
    if name == Prelude.packageName then .ok .embedded
    else .error ⟨.packageNotFound name, .unknown⟩
  | [directory] =>
    match provider.list directory with
    | .ok paths => .ok (.files paths)
    | .error fault => .error (fault.diagnostic directory)
  | candidates => .error ⟨.ambiguousPackage name (candidates.map Path.display), .unknown⟩

end SchemaLang
