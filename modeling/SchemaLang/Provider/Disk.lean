import SchemaLang.Provider
import Std.Data.TreeMap

/-!
# Sources on a disk

A disk answers questions about paths. Packages are searched for below an ordered list of roots: the
package `a/b` is the directory `a/b` of a root. Directories that are the same by their parts count
once.

`FileTree` is a disk as a value: directories and files below a working directory, with paths
followed segment by segment. A name has at most 255 bytes and a whole path at most 4095.
-/

namespace SchemaLang

/-- What can be asked of a file system. -/
structure Disk where
  isDirectory : Path → Bool
  isFile : Path → Bool
  /-- The names of the entries of a directory. -/
  entries : Path → Except AccessFault (List RawText)
  read : Path → Except AccessFault ByteArray
  /-- The number of bytes of all files that can be read. -/
  byteCount : Nat

namespace Disk

/-- Adds a candidate that is not yet among the candidates. -/
def addCandidate (found : List Path) (candidate : Path) : List Path :=
  if found.any candidate.same then found else found ++ [candidate]

/-- The directories below the roots that could be a package, in the order of the roots. -/
def find (disk : Disk) (roots : List Path) (name : String) : List Path :=
  ((roots.map fun root => root.join name).filter disk.isDirectory).foldl addCandidate []

/-- The source files directly inside a directory. -/
def list (disk : Disk) (directory : Path) : Except AccessFault (List Path) := do
  let names ← disk.entries directory
  let ascending := names.mergeSort fun a b => (compare a b).isLE
  let paths := ascending.map directory.join
  pure (paths.filter fun path => disk.isFile path && path.isSource)

/-- The disk as a source of packages below the roots. -/
def provider (disk : Disk) (roots : List Path) : Provider where
  find := disk.find roots
  list := disk.list
  read := disk.read
  depth := disk.byteCount + 3

end Disk

/-- The roots that a list of paths separated by colons names. -/
def searchRoots (text : String) : List Path :=
  ((text.splitOn ":").filter fun part => !part.isEmpty).map Path.ofString

/-! ## File trees -/

/-- A directory or a file with its bytes. -/
inductive FileEntry where
  | directory
  | file (bytes : ByteArray)

/-- Directories and files below a working directory, by place. -/
structure FileTree where
  entries : Std.TreeMap Place FileEntry

namespace FileTree

/-- A working directory without entries. -/
def empty : FileTree := ⟨∅⟩

/-- The entry at a place. The working directory is a directory. -/
def entry? (tree : FileTree) (place : Place) : Option FileEntry :=
  if place = [] then some .directory else tree.entries[place]?

/-- Adds the directories on the way to a place and the place itself. -/
def addDirectory (tree : FileTree) (place : Place) : FileTree :=
  ((List.range (place.length + 1)).map place.take).foldl (fun tree above =>
    if (tree.entry? above).isSome then tree else ⟨tree.entries.insert above .directory⟩) tree

/-- Adds a directory. -/
def withDirectory (tree : FileTree) (path : Path) : FileTree :=
  tree.addDirectory (Place.ofPath path)

/-- Adds a file and the directories on the way to it. -/
def withFile (tree : FileTree) (path : Path) (bytes : ByteArray) : FileTree :=
  let place := Place.ofPath path
  let tree := tree.addDirectory place.dropLast
  ⟨tree.entries.insert place (.file bytes)⟩

def notFound : AccessFault := ⟨.notFound, "No such file or directory (os error 2)"⟩

def notADirectory : AccessFault := ⟨.notADirectory, "Not a directory (os error 20)"⟩

def isADirectory : AccessFault := ⟨.isADirectory, "Is a directory (os error 21)"⟩

def nameTooLong : AccessFault := ⟨.nameTooLong, "File name too long (os error 36)"⟩

def nulInPath : AccessFault :=
  ⟨.malformedPath, "file name contained an unexpected NUL byte"⟩

/-- The most bytes of one name. -/
def maxNameBytes : Nat := 255

/-- The most bytes of a whole path. -/
def maxPathBytes : Nat := 4095

/-- Where a path leads. Of the directories around the working directory, the root among them,
nothing is known but that they exist. -/
inductive Spot where
  | below (place : Place)
  | around
  deriving DecidableEq, Repr

/-- The entry at a spot. -/
def entryAt? (tree : FileTree) : Spot → Option FileEntry
  | .below place => tree.entry? place
  | .around => some .directory

/-- The spot one part further. -/
def Spot.step : Spot → Path.Part → Option Spot
  | .below [], .up => some .around
  | .below place, part => some (.below (place.step part))
  | .around, .name _ => none
  | .around, _ => some .around

/-- Follows one segment from a spot, which must be a directory. A name is looked up only if it is
not too long. -/
def follow (tree : FileTree) (spot : Spot) (segment : RawText) : Except AccessFault Spot :=
  match tree.entryAt? spot with
  | none => .error notFound
  | some (.file _) => .error notADirectory
  | some .directory =>
    if segment.bytes.length > maxNameBytes then .error nameTooLong
    else
      match spot.step (Path.Part.ofSegment segment) with
      | none => .error notFound
      | some next => if (tree.entryAt? next).isSome then .ok next else .error notFound

/-- The spot that a path leads to, with its entry. A path that ends in a slash leads to a directory.
A path with a NUL character or too many bytes leads nowhere, and neither does an empty one. -/
def resolve (tree : FileTree) (path : Path) : Except AccessFault (Spot × FileEntry) := do
  if path.text.bytes.contains 0 then throw nulInPath
  if path.text.bytes.length > maxPathBytes then throw nameTooLong
  if path.text.isEmpty then throw notFound
  let start : Spot := if path.isAbsolute then .around else .below []
  let spot ← path.segments.foldlM tree.follow start
  match tree.entryAt? spot with
  | none => throw notFound
  | some (.file bytes) =>
    if path.endsInSlash then throw notADirectory else pure (spot, .file bytes)
  | some .directory => pure (spot, .directory)

/-- The names of the entries directly inside a directory. -/
def names (tree : FileTree) : Spot → List RawText
  | .below place =>
    (tree.entries.keys.filter fun other => other.parent? == some place).filterMap List.getLast?
  | .around => []

/-- The tree as a disk. -/
def disk (tree : FileTree) : Disk where
  isDirectory path :=
    match tree.resolve path with
    | .ok (_, .directory) => true
    | _ => false
  isFile path :=
    match tree.resolve path with
    | .ok (_, .file _) => true
    | _ => false
  entries path :=
    match tree.resolve path with
    | .ok (spot, .directory) => .ok (tree.names spot)
    | .ok (_, .file _) => .error notADirectory
    | .error fault => .error fault
  read path :=
    match tree.resolve path with
    | .ok (_, .file bytes) => .ok bytes
    | .ok (_, .directory) => .error isADirectory
    | .error fault => .error fault
  byteCount :=
    tree.entries.values.foldl (fun count entry =>
      match entry with
      | .file bytes => count + bytes.size
      | .directory => count) 0

end FileTree

end SchemaLang
