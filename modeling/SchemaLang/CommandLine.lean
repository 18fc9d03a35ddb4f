import SchemaLang.Path

/-!
# The command line

```
tidl check [--path DIR]... [-v | --verbose] [--dump] [--] PACKAGE...
tidl help [COMMAND]
```

Words are read from left to right, and the first fault ends the reading. A value that stands apart
from its `--path` is looked at only when the next flag or package is read, or at the end; an unknown
flag before that is the fault that counts. After `--` every word is a package.
-/

namespace SchemaLang

/-- Why a command line asks for no check. -/
inductive UsageFault where
  | helpAsked
  | versionAsked
  | noCommand
  | unknownCommand (word : String)
  | unknownArgument (word : String)
  | repeatedFlag (name : String)
  /-- A value for a flag that takes none. -/
  | unexpectedValue (name : String)
  /-- A `--path` with no value or an empty one. -/
  | missingPath
  | noPackage
  deriving DecidableEq, Repr

namespace UsageFault

/-- What the program ends with. To ask for help or the version is no failure. -/
def exitStatus : UsageFault → UInt32
  | helpAsked | versionAsked => 0
  | _ => 2

def message : UsageFault → String
  | helpAsked =>
    "usage: tidl check [--path DIR]... [-v | --verbose] [--dump] [--] PACKAGE...\n"
      ++ "       tidl help [COMMAND]"
  | versionAsked => "tidl 0.1.0"
  | noCommand => "a command is required"
  | unknownCommand word => "unrecognized command '" ++ word ++ "'"
  | unknownArgument word => "unexpected argument '" ++ word ++ "'"
  | repeatedFlag name => "the argument '" ++ name ++ "' cannot be used more than once"
  | unexpectedValue name => "the argument '" ++ name ++ "' takes no value"
  | missingPath => "a value is required for '--path'"
  | noPackage => "at least one package is required"

end UsageFault

/-- What a check is asked to do. -/
structure CheckOptions where
  /-- The roots to search before those of the environment. -/
  paths : List Path
  verbose : Bool
  /-- Whether the outline of every package is printed. -/
  dump : Bool
  packages : List String
  deriving DecidableEq, Repr

namespace CheckOptions

def empty : CheckOptions := ⟨[], false, false, []⟩

/-- Adds a search root, which must not be empty. -/
def addPath (options : CheckOptions) (value : String) : Except UsageFault CheckOptions :=
  if value.isEmpty then .error .missingPath
  else .ok { options with paths := options.paths ++ [⟨value⟩] }

def addPackages (options : CheckOptions) (names : List String) : CheckOptions :=
  { options with packages := options.packages ++ names }

end CheckOptions

namespace CommandLine

/-! ## Words -/

/-- What a word looks like. -/
inductive Word where
  /-- A name after two dashes, and what follows the equals sign after it. -/
  | long (name : String) (value : Option String)
  /-- Letters after one dash. -/
  | short (letters : List Char)
  /-- Two dashes alone. -/
  | stop
  | plain
  deriving DecidableEq, Repr

/-- The look of a word. A single dash is plain. -/
def Word.ofText (text : String) : Word :=
  match text.toList with
  | ['-'] => .plain
  | ['-', '-'] => .stop
  | '-' :: '-' :: rest =>
    let name := String.ofList (rest.takeWhile (· != '='))
    match rest.dropWhile (· != '=') with
    | [] => .long name none
    | _ :: value => .long name (some (String.ofList value))
  | '-' :: letters => .short letters
  | _ => .plain

/-! ## The check command -/

/-- A `--path` that stands apart from its value. -/
inductive PendingPath where
  | absent
  | awaited
  | given (value : String)
  deriving DecidableEq, Repr

/-- The state of reading the words of a check. -/
structure CheckReading where
  options : CheckOptions
  pending : PendingPath
  deriving DecidableEq, Repr

/-- A flag of the check command. -/
inductive Flag where
  | help | verbose | dump
  deriving DecidableEq, Repr

def Flag.ofName? (name : String) : Option Flag :=
  if name == "help" then some .help
  else if name == "verbose" then some .verbose
  else if name == "dump" then some .dump
  else none

def Flag.ofLetter? (letter : Char) : Option Flag :=
  if letter == 'h' then some .help else if letter == 'v' then some .verbose else none

namespace CheckReading

def start : CheckReading := ⟨.empty, .absent⟩

/-- Looks at the value of a pending `--path`. -/
def settle (reading : CheckReading) : Except UsageFault CheckReading :=
  match reading.pending with
  | .absent => .ok reading
  | .awaited => .error .missingPath
  | .given value => do
    let options ← reading.options.addPath value
    pure ⟨options, .absent⟩

/-- Takes a flag, once. -/
def flag (reading : CheckReading) (flag : Flag) : Except UsageFault CheckReading := do
  let ⟨options, pending⟩ ← reading.settle
  match flag with
  | .help => throw .helpAsked
  | .verbose =>
    if options.verbose then throw (.repeatedFlag "--verbose")
    else pure ⟨{ options with verbose := true }, pending⟩
  | .dump =>
    if options.dump then throw (.repeatedFlag "--dump")
    else pure ⟨{ options with dump := true }, pending⟩

/-- Takes a word with two dashes. -/
def long (reading : CheckReading) (word name : String) (value : Option String) :
    Except UsageFault CheckReading :=
  if name == "path" then do
    let ⟨options, pending⟩ ← reading.settle
    match value with
    | none => pure ⟨options, .awaited⟩
    | some value =>
      let options ← options.addPath value
      pure ⟨options, pending⟩
  else
    match Flag.ofName? name, value with
    | none, _ => .error (.unknownArgument word)
    | some _, some _ => .error (.unexpectedValue ("--" ++ name))
    | some flag, none => reading.flag flag

/-- Takes the letters of a word with one dash. -/
def short (reading : CheckReading) (word : String) : List Char → Except UsageFault CheckReading
  | [] => .ok reading
  | letter :: rest =>
    match Flag.ofLetter? letter with
    | none => .error (.unknownArgument word)
    | some flag => do
      let reading ← reading.flag flag
      reading.short word rest

/-- Takes a word without meaning of its own: the awaited value, or else a package. -/
def plain (reading : CheckReading) (word : String) : Except UsageFault CheckReading :=
  match reading.pending with
  | .awaited => .ok { reading with pending := .given word }
  | _ => do
    let ⟨options, pending⟩ ← reading.settle
    pure ⟨options.addPackages [word], pending⟩

/-- Takes all words, and gives the options once nothing is pending. -/
def words (reading : CheckReading) : List String → Except UsageFault CheckOptions
  | [] => do
    let reading ← reading.settle
    pure reading.options
  | word :: rest =>
    match Word.ofText word with
    | .stop => do
      let reading ← reading.settle
      pure (reading.options.addPackages rest)
    | .long name value => do
      let reading ← reading.long word name value
      reading.words rest
    | .short letters => do
      let reading ← reading.short word letters
      reading.words rest
    | .plain => do
      let reading ← reading.plain word
      reading.words rest

end CheckReading

/-- Reads the words of a check, which needs at least one package. -/
def readCheck (words : List String) : Except UsageFault CheckOptions := do
  let options ← CheckReading.start.words words
  if options.packages.isEmpty then throw .noPackage else pure options

/-! ## Commands -/

/-- Whether a word names a command. -/
def isCommand (word : String) : Bool :=
  word == "check" || word == "help"

/-- What a request for help comes to. The words name one command at most. -/
def readHelp : List String → UsageFault
  | [] => .helpAsked
  | [word] => if isCommand word then .helpAsked else .unknownCommand word
  | word :: other :: _ => .unknownCommand (if isCommand word then other else word)

/-- What a word that names no command comes to where a command should stand. -/
def noCommandAt (word : String) (rest : List String) : UsageFault :=
  match Word.ofText word with
  | .stop =>
    match rest with
    | [] => .noCommand
    | next :: _ => if isCommand next then .unknownArgument next else .unknownCommand next
  | .long name value =>
    if name == "help" || name == "version" then
      if value.isSome then .unexpectedValue ("--" ++ name)
      else if name == "help" then .helpAsked
      else .versionAsked
    else .unknownArgument word
  | .short letters =>
    match letters.head? with
    | some 'h' => .helpAsked
    | some 'V' => .versionAsked
    | _ => .unknownArgument word
  | .plain => .unknownCommand word

/-- Reads the words after the name of the program. -/
def read : List String → Except UsageFault CheckOptions
  | [] => .error .noCommand
  | word :: rest =>
    if word == "check" then readCheck rest
    else if word == "help" then .error (readHelp rest)
    else .error (noCommandAt word rest)

end CommandLine

end SchemaLang
