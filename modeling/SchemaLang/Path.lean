import SchemaLang.Prelude
import SchemaLang.Text.Raw

/-!
# Paths

A path is what the system gives: bytes. It is shown as it was written, as far as it is Unicode. Its
parts are what counts: repeated and trailing slashes and inner `.` segments do not, a leading slash
and a leading `.` do. A place is a path with `.` and `..` worked out.
-/

namespace SchemaLang

/-- A path as it was written. -/
@[ext]
structure Path where
  text : RawText
  deriving DecidableEq, Repr

namespace Path

/-- The byte of `/`. -/
def slash : UInt8 := 0x2F

/-- The byte of `.`. -/
def dot : UInt8 := 0x2E

/-- The path that a text writes. -/
def ofString (text : String) : Path :=
  ⟨text⟩

/-- The path for people. -/
def display (path : Path) : String :=
  path.text.shown

/-- The pieces of a text between slashes, at least one. -/
def pieces : List UInt8 → List (List UInt8)
  | [] => [[]]
  | byte :: rest =>
    if byte == slash then [] :: pieces rest
    else
      match pieces rest with
      | [] => [[byte]]
      | piece :: others => (byte :: piece) :: others

/-- The pieces of the path that are not empty. -/
def segments (path : Path) : List RawText :=
  (pieces path.text.bytes).filterMap fun piece =>
    if piece.isEmpty then none else some ⟨piece⟩

/-- Whether the path starts at the root. -/
def isAbsolute (path : Path) : Bool :=
  path.text.bytes.head? == some slash

/-- Whether the path ends in a slash. -/
def endsInSlash (path : Path) : Bool :=
  path.text.bytes.getLast? == some slash

/-- A part of a path. -/
inductive Part where
  | root
  /-- The segment `.`, which counts only at the front. -/
  | here
  /-- The segment `..`. -/
  | up
  | name (text : RawText)
  deriving DecidableEq, Repr

/-- The part that a segment stands for. -/
def Part.ofSegment (segment : RawText) : Part :=
  if segment.bytes == [dot] then .here
  else if segment.bytes == [dot, dot] then .up
  else .name segment

/-- The parts of the path. Two paths are the same when their parts are. -/
def parts (path : Path) : List Part :=
  let parts := path.segments.map Part.ofSegment
  if path.isAbsolute then .root :: parts.filter (· ≠ .here)
  else
    match parts with
    | [] => []
    | first :: rest => first :: rest.filter (· ≠ .here)

/-- Whether two paths have the same parts. -/
def same (left right : Path) : Bool :=
  left.parts == right.parts

/-- The name of the file or directory that the path leads to. -/
def fileName? (path : Path) : Option RawText :=
  match path.parts.getLast? with
  | some (.name text) => some text
  | _ => none

/-- The name of the script that a file is read as. -/
def scriptName (path : Path) : String :=
  (path.fileName?.getD path.text).shown

/-- The part of a file name after its last dot, which must not be its first character. -/
def extensionOf (name : RawText) : Option RawText :=
  let reversed := name.bytes.reverse
  match reversed.dropWhile (· != dot) with
  | [] => none
  | [_] => none
  | _ => some ⟨(reversed.takeWhile (· != dot)).reverse⟩

/-- Whether the path leads to a source file. -/
def isSource (path : Path) : Bool :=
  match path.fileName? with
  | some name => extensionOf name == some (.ofString Prelude.sourceExtension)
  | none => false

/-- The path below another one. A path from the root stands for itself. -/
def join (path : Path) (name : RawText) : Path :=
  if (Path.mk name).isAbsolute then ⟨name⟩
  else if path.text.isEmpty || path.endsInSlash then ⟨path.text ++ name⟩
  else ⟨path.text ++ ⟨[slash]⟩ ++ name⟩

end Path

/-- A path with `.` and `..` worked out, as the names on the way. A path from the root starts with
an empty name. -/
abbrev Place := List RawText

namespace Place

/-- Goes on by one part. The part `..` takes back the last name, also that of the root. -/
def step (place : Place) : Path.Part → Place
  | .root => place ++ [.empty]
  | .here => place
  | .up => place.dropLast
  | .name text => place ++ [text]

/-- The place of a path. -/
def ofPath (path : Path) : Place :=
  path.parts.foldl step []

/-- The path of a place. -/
def path (place : Place) : Path :=
  if place = [.empty] then ⟨⟨[Path.slash]⟩⟩
  else ⟨⟨List.intercalate [Path.slash] (place.map RawText.bytes)⟩⟩

/-- The directory of a place; the root and the empty place have none. -/
def parent? (place : Place) : Option Place :=
  if place = [] ∨ place = [.empty] then none else some place.dropLast

end Place

end SchemaLang
