import SchemaLang.Check
import SchemaLang.Provider.Snapshot

/-!
# The program

Reads the command line, takes a snapshot of the packages that the check can reach, and prints what
the check shows. The variable `TIDL_PATH` holds further search roots, separated by colons.
-/

namespace SchemaLang

/-- The result of a file operation as a value. -/
def attempt {α : Type} (action : IO α) : IO (Except AccessFault α) := do
  match ← action.toBaseIO with
  | .ok value => pure (.ok value)
  | .error fault => pure (.error ⟨.other, toString fault⟩)

/-- Adds the source files of a directory to a snapshot, and gives the packages that they can
import. -/
def takeFiles (snapshot : Snapshot) (directory : Path) (names : List RawText) :
    IO (Snapshot × List String) := do
  let base ← IO.currentDir
  let mut snapshot := snapshot
  let mut found := []
  for name in names do
    let path := directory.join name
    let file := base / path.display
    if path.isSource && !(← file.isDir) then
      let bytes ← attempt (IO.FS.readBinFile file)
      snapshot := snapshot.addFile path bytes
      if let .ok bytes := bytes then
        found := found ++ importable (.ofBytes bytes)
  pure (snapshot, found)

/-- Adds a directory to a snapshot if there is one at the path, and gives the packages that its
source files can import. -/
def takeDirectory (snapshot : Snapshot) (path : Path) : IO (Snapshot × List String) := do
  let directory := (← IO.currentDir) / path.display
  if ← directory.isDir then
    let entries ← attempt directory.readDir
    let names := entries.map fun entries => entries.toList.map fun entry => RawText.ofString entry.fileName
    let snapshot := snapshot.addDirectory path names
    match names with
    | .ok names => takeFiles snapshot path names
    | .error _ => pure (snapshot, [])
  else pure (snapshot, [])

/-- Adds the directories of some packages, and of all packages that those can import. -/
def takePackages (roots : List Path) (start : Snapshot) (names : List String) : IO Snapshot := do
  let mut snapshot := start
  let mut seen : List String := []
  let mut queue := names
  repeat
    match queue with
    | [] => break
    | name :: rest =>
      queue := rest
      if !seen.contains name then
        seen := name :: seen
        for root in roots do
          let (taken, found) ← takeDirectory snapshot (root.join name)
          snapshot := taken
          queue := queue ++ found
  pure snapshot

/-- Runs a check, and gives what the program ends with. -/
def runCheck (options : CheckOptions) : IO UInt32 := do
  let environment := searchRoots ((← IO.getEnv "TIDL_PATH").getD "")
  let roots := options.paths ++ environment
  if options.verbose then
    IO.eprintln ("search path: " ++ String.intercalate ":" (roots.map Path.display))
  let mut snapshot := Snapshot.empty
  for path in options.paths do
    snapshot := (← takeDirectory snapshot path).1
  snapshot ← takePackages roots snapshot
    (Prelude.packageName :: options.packages)
  match check snapshot.disk environment options with
  | .error path =>
    IO.eprintln ("error: " ++ unusableRoot path)
    pure 2
  | .ok report =>
    IO.print report.output
    for failure in report.failures do
      IO.eprintln failure.render
      if let some hint := failure.cause.hint then
        IO.eprintln ("help: " ++ hint)
    pure report.exitStatus

end SchemaLang

/-- The entry of the program. -/
def main (args : List String) : IO UInt32 := do
  match SchemaLang.CommandLine.read args with
  | .ok options => SchemaLang.runCheck options
  | .error fault =>
    if fault.exitStatus = 0 then IO.println fault.message
    else IO.eprintln ("error: " ++ fault.message)
    pure fault.exitStatus
