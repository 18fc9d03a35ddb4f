import SchemaLang.CommandLine
import SchemaLang.Provider.Disk
import SchemaLang.Session

/-!
# Checking packages

A check compiles packages one after the other in one session. It prints a summary of every package
that compiles, with its outline where that is asked for, and goes on after one that fails. A search
root that is no directory stops it before the first package.
-/

namespace SchemaLang

/-- What a check has shown. -/
structure CheckReport where
  /-- The text for the standard output. -/
  output : String
  /-- The failures, in the order of the packages. -/
  failures : List Diagnostic
  deriving DecidableEq, Repr

namespace CheckReport

def empty : CheckReport := ⟨"", []⟩

/-- What the program ends with. -/
def exitStatus (report : CheckReport) : UInt32 :=
  if report.failures.isEmpty then 0 else 1

def print (report : CheckReport) (text : String) : CheckReport :=
  { report with output := report.output ++ text }

def fail (report : CheckReport) (failure : Diagnostic) : CheckReport :=
  { report with failures := report.failures ++ [failure] }

end CheckReport

/-- The text of a package that compiles. -/
def Arena.checked (arena : Arena) (dump : Bool) (package : NodeId) : String :=
  arena.summary package ++ "\n" ++ if dump then arena.outline package else ""

/-- Compiles one package. -/
def checkPackage (provider : Provider) (dump : Bool) :
    Session × CheckReport → String → Session × CheckReport
  | (session, report), name =>
    match Session.compile provider name session with
    | .ok package session => (session, report.print (session.arena.checked dump package))
    | .error failure session => (session, report.fail failure)

/-- The message of a search root that is no directory. -/
def unusableRoot (path : Path) : String :=
  "search path " ++ path.display ++ " is not a directory"

/-- Compiles the packages that the options name, searching their paths and then the roots of the
environment. Fails with the first path that is no directory. -/
def check (disk : Disk) (environment : List Path) (options : CheckOptions) :
    Except Path CheckReport :=
  match options.paths.find? fun path => !disk.isDirectory path with
  | some path => .error path
  | none =>
    let provider := disk.provider (options.paths ++ environment)
    .ok (options.packages.foldl (checkPackage provider options.dump) (.empty, .empty)).2

end SchemaLang
