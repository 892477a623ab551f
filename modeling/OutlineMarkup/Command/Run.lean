/-
  File:      OutlineMarkup/Command/Run.lean
  Subject:   What a command does, as a function of its arguments and the files it sees.
-/
import OutlineMarkup.Command.Folder
import OutlineMarkup.Command.Report
import OutlineMarkup.Document.Log

namespace OutlineMarkup.Command

/-- Why a command broke off. -/
inductive Crash where
  /-- The file is not UTF-8. -/
  | notUtf8
  /-- There is no folder for the output file. -/
  | noFolder
  /-- A file stands where the path of the output file needs a folder. -/
  | fileInPath
  /-- The compiler refused the document. -/
  | fault (f : Fault)
  deriving DecidableEq, Repr

/-- What a command leaves behind: its exit code, what it printed and logged, and the file it
    wrote. -/
structure Outcome where
  exitCode : Nat := 0
  stdout : Text := []
  stderr : Text := []
  crash : Option Crash := none
  written : Option (Text × Text) := none
  deriving DecidableEq, Repr

/-- A command that broke off. -/
def Outcome.broken (crash : Crash) (log : Text) : Outcome :=
  { exitCode := 1, stderr := log, crash := some crash }

/-- The line that tells the version. -/
def versionLine : Text := "nml, version 0.1.0"

/-- The lines that tell how to use the program. -/
def helpLines : List Text :=
  ["Usage: nml [OPTIONS] COMMAND [ARGS]...", [],
   "  compile DSLFILE [--format html|json|css] [-o FILE]", "  check DSLFILE [--strict]",
   "  inspect DSLFILE", [], "Options: --version, -v/--verbose, --help"]

/-- The text of a file: UTF-8, with every line end turned into a line feed. -/
def decode? (content : ByteArray) : Option Text :=
  (String.fromUTF8? content).map fun s =>
    (Text.replace ['\r', '\n'] ['\n'] s.toList).map fun c => if c = '\r' then '\n' else c

/-- Does a task on a compiled document. -/
def perform (place : Text → Place) (task : Task) (file : Text) (c : Compiled) (log : Text) :
    Outcome :=
  match task with
  | .compile format none => { stdout := printed [render c format], stderr := log }
  | .compile format (some output) =>
    match targetPlace place output with
    | .unreachable => .broken .noFolder log
    | .blocked => .broken .fileInPath log
    | _ =>
      { stdout := printed ["Wrote " ++ format.label ++ " to " ++ output]
        stderr := log
        written := some (output, render c format) }
  | .check strict =>
    { exitCode := if strict && decide (0 < c.warnings) then 1 else 0
      stdout := printed (checkLines c (fileName file))
      stderr := log }
  | .inspect => { stdout := printed (inspectLines c), stderr := log }

/-- Compiles a file's content and does a task on it. -/
def runOn (place : Text → Place) (verbose : Bool) (file : Text) (task : Task)
    (content : ByteArray) : Outcome :=
  match decode? content with
  | none => .broken .notUtf8 []
  | some source =>
    match Passes.run .default source with
    | .error f => .broken (.fault f) []
    | .ok p =>
      perform place task file p.result (if verbose then p.log.flatMap (· ++ "\n") else [])

/-- The output file of a task, if it has one. -/
def Task.output? : Task → Option Text
  | .compile _ output => output
  | _ => none

/-- Runs a command line, given what is found at each path. -/
def run (place : Text → Place) (arguments : List Text) : Except UsageError Outcome := do
  match ← Invocation.read arguments with
  | .help => return { stdout := printed helpLines }
  | .version => return { stdout := printed [versionLine] }
  | .run verbose file task =>
    match place file, task.output?.map fun path => (path, targetPlace place path) with
    | .file _, some (path, .folder) => .error (.isFolder path)
    | .file content, _ => return runOn place verbose file task content
    | .folder, _ => .error (.isFolder file)
    | _, _ => .error (.noSuchFile file)

end OutlineMarkup.Command
