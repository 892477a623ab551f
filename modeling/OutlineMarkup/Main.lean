/-
  File:      OutlineMarkup/Main.lean
  Subject:   The program: disk and terminal around the pure commands.
-/
import OutlineMarkup.Command.Run

namespace OutlineMarkup.Command

/-- The number by which a system tells that what was to be read is a folder. -/
def folderCode : UInt32 := 21

/-- What is found at a path on disk. -/
def placeOnDisk (path : String) : IO Place := do
  try
    return .file (← IO.FS.readBinFile path)
  catch
    | .inappropriateType _ code _ => return if code = folderCode then .folder else .blocked
    | .noFileOrDirectory .. => return .vacant
    | _ => return .unreachable

/-- The paths that a command line names: the file to read and the file to write. -/
def namedPaths (arguments : List Text) : List Text :=
  match Invocation.read arguments with
  | .ok (.run _ file task) => file :: task.output?.toList
  | _ => []

/-- Prints the outcome of a command and writes its file. -/
def settle (outcome : Outcome) : IO UInt32 := do
  IO.eprint (String.ofList outcome.stderr)
  if let some (path, text) := outcome.written then
    IO.FS.writeFile (String.ofList (plainPath path)) (String.ofList text)
  IO.print (String.ofList outcome.stdout)
  return outcome.exitCode.toUInt32

end OutlineMarkup.Command

open OutlineMarkup.Command in
/-- Runs the program. -/
def main (args : List String) : IO UInt32 := do
  let arguments := args.map String.toList
  let paths := namedPaths arguments
  let places ← (paths ++ paths.map plainPath).mapM fun path => do
    return (path, ← placeOnDisk (String.ofList path))
  let found := fun path => (places.lookup path).getD .unreachable
  match run found arguments with
  | .ok outcome => settle outcome
  | .error e =>
    IO.eprintln (String.ofList e.message)
    return 2
