/-!
# Positions in source files

A position names a file, a line and a column, both counted from one in 32 bits. Line zero marks a
position that is not known.
-/

namespace SchemaLang

/-- A place in a source file. -/
structure Position where
  file : String
  line : UInt32
  column : UInt32
  deriving DecidableEq, Repr

namespace Position

/-- The position of what was not read from a file. -/
def unknown : Position := ⟨"<unknown>", 0, 0⟩

/-- Whether the position is known. -/
def isValid (position : Position) : Bool :=
  position.line != 0

/-- The text `file(line:column)`. -/
def render (position : Position) : String :=
  position.file ++ "(" ++ toString position.line ++ ":" ++ toString position.column ++ ")"

end Position

/-- A comment of a source file, without the characters that delimit it. -/
structure Comment where
  text : String
  position : Position
  deriving DecidableEq, Repr

end SchemaLang
