/-
  File:      OutlineMarkup/Document/Log.lean
  Subject:   The log of a compile: what each pass did, and each diagnostic when it was met.
-/
import OutlineMarkup.Document

namespace OutlineMarkup

/-- The parts of the compiler that write to the log. -/
inductive Logger where
  | variableLines
  | directives
  | blocks
  | draft
  | compiler
  deriving DecidableEq, Repr

/-- The name of a part in the log. -/
def Logger.label : Logger → Text
  | .variableLines => "nml.parser.variables"
  | .directives => "nml.parser.directives"
  | .blocks => "nml.parser.blocks"
  | .draft => "nml.context"
  | .compiler => "nml.compiler"

/-- A line of the log. -/
def logLine (logger : Logger) (message : Text) : Text :=
  "DEBUG " ++ logger.label ++ ": " ++ message

namespace Passes

/-- The diagnostics met between two states of a draft. -/
def metBetween (before after : Draft) : List Text :=
  (after.diagnostics.drop before.diagnostics.length).map fun d => logLine .draft d.text

/-- The log of a compile. -/
def log (p : Passes) : List Text :=
  metBetween (Draft.empty p.afterVariables.config) p.afterVariables ++
  [logLine .variableLines
    ("Collected " ++ Text.ofNat p.afterVariables.declared.size ++ " variable(s)")] ++
  metBetween p.afterVariables p.afterDirectives ++
  [logLine .directives
    ("Collected " ++ Text.ofNat p.afterDirectives.fragments.length ++ " directive fragment(s)")] ++
  metBetween p.afterDirectives p.afterBody ++
  [logLine .blocks
    ("Parsed " ++ Text.ofNat p.forest.trees.length ++ " root element(s) from " ++
      Text.ofNat p.bodyLines ++ " line(s)"),
   logLine .compiler
    ("Compiled " ++ Text.ofNat p.forest.prune.size ++ " element(s), " ++
      Text.ofNat p.afterBody.classes.size ++ " generated class(es), " ++
      Text.ofNat p.afterBody.diagnostics.length ++ " diagnostic(s)")]

end Passes

end OutlineMarkup
