/-
  File:      OutlineMarkup/Command/Options.lean
  Subject:   Reading options from a list of arguments.

  `--name value`, `--name=value`, `-n value` and `-nvalue` give an option a value; options without a
  value can share a dash. `--` ends the options. A dash alone is an argument.
-/
import OutlineMarkup.Text.Basic

namespace OutlineMarkup.Command

/-- Why a list of arguments is refused. -/
inductive UsageError where
  | unknownOption (option : Text)
  | missingValue (option : Text)
  | needlessValue (option : Text)
  | missingCommand
  | unknownCommand (name : Text)
  | missingFile
  | extraArgument (argument : Text)
  | unknownFormat (name : Text)
  | noSuchFile (path : Text)
  | isFolder (path : Text)
  deriving DecidableEq, Repr

/-- The wording of a usage error. -/
def UsageError.message : UsageError → Text
  | .unknownOption option => "No such option: " ++ option
  | .missingValue option => "Option " ++ option ++ " requires an argument."
  | .needlessValue option => "Option " ++ option ++ " does not take a value."
  | .missingCommand => "Missing command."
  | .unknownCommand name => "No such command " ++ name ++ "."
  | .missingFile => "Missing argument DSLFILE."
  | .extraArgument argument => "Got unexpected extra argument " ++ argument ++ "."
  | .unknownFormat name => name ++ " is not one of html, json, css."
  | .noSuchFile path => "File " ++ path ++ " does not exist."
  | .isFolder path => "File " ++ path ++ " is a directory."

/-- An option: its letter, if it has one, its name, and whether it takes a value. -/
structure OptionSpec where
  letter : Option Char := none
  name : Text
  takesValue : Bool := false
  deriving DecidableEq, Repr

/-- An option that was given: its name and its value, if it takes one. -/
abbrev Given := Text × Option Text

/-- What an argument says: options, and maybe one more that waits for its value. -/
structure Reading where
  given : List Given := []
  waiting : Option Text := none
  deriving DecidableEq, Repr

/-- Reads letters after a dash: the rest after a letter that takes a value is its value. -/
def readLetters (specs : List OptionSpec) : Text → Except UsageError Reading
  | [] => .ok {}
  | c :: cs =>
    match specs.find? fun s => s.letter == some c with
    | none => .error (.unknownOption ['-', c])
    | some s =>
      if s.takesValue then
        .ok (if cs.isEmpty then { waiting := some s.name } else { given := [(s.name, some cs)] })
      else do
        let rest ← readLetters specs cs
        return { rest with given := (s.name, none) :: rest.given }

/-- Reads a name after two dashes, with the value after `=` if there is one. -/
def readName (specs : List OptionSpec) (body : Text) : Except UsageError Reading :=
  let (name, value) :=
    match Text.cut? '=' body with
    | some (name, value) => (name, some value)
    | none => (body, none)
  match specs.find? fun s => s.name == name with
  | none => .error (.unknownOption ("--" ++ name))
  | some s =>
    match s.takesValue, value with
    | true, some v => .ok { given := [(s.name, some v)] }
    | true, none => .ok { waiting := some s.name }
    | false, some _ => .error (.needlessValue ("--" ++ name))
    | false, none => .ok { given := [(s.name, none)] }

/-- The options and the plain arguments of a list, each in order. -/
structure Arguments where
  given : List Given := []
  plain : List Text := []
  deriving DecidableEq, Repr

/-- Reads a list of arguments. `mixed` says whether options can follow a plain argument; if not, the
    first plain argument ends the options. `waiting` is an option that waits for its value. -/
def readArguments (specs : List OptionSpec) (mixed : Bool) :
    Option Text → List Text → Except UsageError Arguments
  | some name, [] => .error (.missingValue name)
  | none, [] => .ok {}
  | some name, value :: rest => do
    let a ← readArguments specs mixed none rest
    return { a with given := (name, some value) :: a.given }
  | none, argument :: rest =>
    match argument with
    | '-' :: '-' :: [] => .ok { plain := rest }
    | '-' :: c :: cs => do
      let r ← if c = '-' then readName specs cs else readLetters specs (c :: cs)
      let a ← readArguments specs mixed r.waiting rest
      return { a with given := r.given ++ a.given }
    | _ =>
      if mixed then do
        let a ← readArguments specs mixed none rest
        return { a with plain := argument :: a.plain }
      else .ok { plain := argument :: rest }

/-- The value that an option was given last. -/
def Arguments.value? (a : Arguments) (name : Text) : Option Text :=
  ((a.given.filter fun g => g.1 == name).getLast?).bind Prod.snd

/-- Whether an option was given. -/
def Arguments.has (a : Arguments) (name : Text) : Bool := a.given.any fun g => g.1 == name

end OutlineMarkup.Command
