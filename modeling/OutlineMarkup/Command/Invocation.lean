/-
  File:      OutlineMarkup/Command/Invocation.lean
  Subject:   What a command line asks for.
-/
import OutlineMarkup.Command.Options

namespace OutlineMarkup.Command

/-- What a document is compiled to. -/
inductive Format where
  | html
  | json
  | css
  deriving DecidableEq, Repr

/-- The name of a format. -/
def Format.label : Format → Text
  | .html => "html"
  | .json => "json"
  | .css => "css"

/-- The format of a name. -/
def Format.ofLabel? (name : Text) : Option Format :=
  [Format.html, .json, .css].find? fun f => f.label == name

/-- What is done with a document. -/
inductive Task where
  /-- Write it in a format, to a file if one is named. -/
  | compile (format : Format) (output : Option Text)
  /-- Print its diagnostics; a strict check fails if there are warnings. -/
  | check (strict : Bool)
  /-- Print its tree. -/
  | inspect
  deriving DecidableEq, Repr

/-- What a command line asks for. -/
inductive Invocation where
  | help
  | version
  /-- A task on a file, with or without the log. -/
  | run (verbose : Bool) (file : Text) (task : Task)
  deriving DecidableEq, Repr

/-- The option that asks for help. -/
def helpOption : OptionSpec := { name := "help" }

/-- The options before the command. -/
def commonOptions : List OptionSpec :=
  [{ name := "version" }, { letter := some 'v', name := "verbose" }, helpOption]

/-- The options of a command, if it is known. -/
def commandOptions? (name : Text) : Option (List OptionSpec) :=
  List.lookup name
    [("compile".toList,
      [{ name := "format", takesValue := true },
       { letter := some 'o', name := "output", takesValue := true }, helpOption]),
     ("check".toList, [{ name := "strict" }, helpOption]),
     ("inspect".toList, [helpOption])]

/-- The format that is asked for. -/
def formatOf (a : Arguments) : Except UsageError Format :=
  match a.value? "format" with
  | none => .ok .html
  | some name =>
    match Format.ofLabel? name with
    | some f => .ok f
    | none => .error (.unknownFormat name)

/-- The task of a command. An empty name of an output file is no name. -/
def taskOf (command : Text) (a : Arguments) : Except UsageError Task := do
  if command = "compile" then
    return .compile (← formatOf a) ((a.value? "output").filter fun f => !f.isEmpty)
  else if command = "check" then return .check (a.has "strict")
  else return .inspect

/-- The one file that a command is for. -/
def fileOf (a : Arguments) : Except UsageError Text :=
  match a.plain with
  | [] => .error .missingFile
  | [file] => .ok file
  | _ :: extra :: _ => .error (.extraArgument extra)

/-- Reads the arguments after the name of a command. -/
def readCommand (verbose : Bool) (command : Text) (arguments : List Text) :
    Except UsageError Invocation :=
  match commandOptions? command with
  | none => .error (.unknownCommand command)
  | some specs => do
    let a ← readArguments specs true none arguments
    if a.has "help" then return .help
    let file ← fileOf a
    return .run verbose file (← taskOf command a)

/-- Reads a command line. Of the requests for help and for the version the first one counts, and
    each comes before the command. -/
def Invocation.read (arguments : List Text) : Except UsageError Invocation := do
  let a ← readArguments commonOptions false none arguments
  let wants := a.given.find? fun g => g.1 == "help".toList || g.1 == "version".toList
  match wants, a.plain with
  | some g, _ => return if g.1 == "help".toList then .help else .version
  | none, [] => .error .missingCommand
  | none, command :: rest => readCommand (a.has "verbose") command rest

end OutlineMarkup.Command
