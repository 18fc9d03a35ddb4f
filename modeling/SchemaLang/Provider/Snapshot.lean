import SchemaLang.Provider.Disk
import SchemaLang.Token.Lexer

/-!
# Snapshots of a disk

A snapshot holds what was read from a file system before a check: the entries of directories and the
bytes of source files, each by its path as it was written. It answers as a disk does, and knows
nothing beyond what was read.
-/

namespace SchemaLang

/-- What was read from a file system. -/
structure Snapshot where
  /-- The names of the entries of each directory, by path. -/
  directories : Std.TreeMap RawText (Except AccessFault (List RawText))
  /-- The bytes of each file, by path. -/
  files : Std.TreeMap RawText (Except AccessFault ByteArray)

namespace Snapshot

def empty : Snapshot := ⟨∅, ∅⟩

def addDirectory (snapshot : Snapshot) (path : Path) (names : Except AccessFault (List RawText)) :
    Snapshot :=
  { snapshot with directories := snapshot.directories.insert path.text names }

def addFile (snapshot : Snapshot) (path : Path) (bytes : Except AccessFault ByteArray) :
    Snapshot :=
  { snapshot with files := snapshot.files.insert path.text bytes }

/-- The snapshot as a disk. -/
def disk (snapshot : Snapshot) : Disk where
  isDirectory path := snapshot.directories.contains path.text
  isFile path := snapshot.files.contains path.text
  entries path := (snapshot.directories[path.text]?).getD (.error FileTree.notFound)
  read path := (snapshot.files[path.text]?).getD (.error FileTree.notFound)
  byteCount :=
    snapshot.files.values.foldl (fun count file =>
      match file with
      | .ok bytes => count + bytes.size
      | .error _ => count) 0

end Snapshot

/-- The packages that a source can import: an import names its package by a string. -/
def importable (source : Text.Source) : List String :=
  (Lexing.ofSource "" source).tokens.filterMap fun token =>
    match token.kind with
    | .string value => some value
    | _ => none

end SchemaLang
