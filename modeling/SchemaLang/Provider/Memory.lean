import SchemaLang.Provider
import Std.Data.TreeMap

/-!
# Sources in memory

A finite set of files by place. A directory exists when a file is directly inside it.
-/

namespace SchemaLang

/-- Files in memory. -/
structure Memory where
  files : Std.TreeMap Place ByteArray

namespace Memory

def empty : Memory := ⟨∅⟩

/-- Adds a file, or replaces the one at its place. -/
def insert (memory : Memory) (path : Path) (bytes : ByteArray) : Memory :=
  ⟨memory.files.insert (Place.ofPath path) bytes⟩

/-- The places of the files directly inside a directory, in ascending order. -/
def inside (memory : Memory) (directory : Place) : List Place :=
  memory.files.keys.filter fun place => place.parent? == some directory

/-- The directory of a package, if it exists. -/
def find (memory : Memory) (name : String) : List Path :=
  let directory := Place.ofPath ⟨name⟩
  if (memory.inside directory).isEmpty then [] else [directory.path]

/-- The source files directly inside a directory. -/
def list (memory : Memory) (directory : Path) : List Path :=
  ((memory.inside (Place.ofPath directory)).map Place.path).filter Path.isSource

/-- The bytes of a file. -/
def read (memory : Memory) (path : Path) : Except AccessFault ByteArray :=
  let place := Place.ofPath path
  match memory.files[place]? with
  | some bytes => .ok bytes
  | none => .error ⟨.notFound, "file not found in memory: " ++ place.path.display⟩

/-- The number of bytes of all files. -/
def byteCount (memory : Memory) : Nat :=
  memory.files.values.foldl (fun count bytes => count + bytes.size) 0

/-- The files as sources of packages. Every import but those of the built-in package is written
down, so a chain of distinct imports is no longer than the sources. -/
def provider (memory : Memory) : Provider where
  find := memory.find
  list directory := .ok (memory.list directory)
  read := memory.read
  depth := memory.byteCount + 3

end Memory

end SchemaLang
