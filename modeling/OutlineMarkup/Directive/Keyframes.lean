/-
  File:      OutlineMarkup/Directive/Keyframes.lean
  Subject:   Keyframes: the steps of an animation.

  Each line gives declarations for a step: `from`, `to` or a percentage. Lines for the same step
  work together, and a later declaration of a property takes the place of an earlier one. The first
  step of an animation is remembered, so that elements can start out in it.
-/
import OutlineMarkup.Directive.Block
import OutlineMarkup.Directive.RuleLine

namespace OutlineMarkup.Directive

/-- What follows the decimal digits at the start of a text, if there are any. -/
def afterDigits? (t : Text) : Option Text :=
  if t.head?.any Text.isDecimal then some (t.dropWhile Text.isDecimal) else none

/-- Whether a word is a percentage: digits, maybe a point and more digits, and `%`. -/
def isPercentage (word : Text) : Bool :=
  match afterDigits? word with
  | some ['%'] => true
  | some ('.' :: rest) => afterDigits? rest == some ['%']
  | _ => false

/-- Whether a word is a step of keyframes. -/
def isStep (word : Text) : Bool := isPercentage word || word == "from".toList || word == "to".toList

/-- Whether a step is the first of an animation. -/
def isInitialStep (word : Text) : Bool := word == "0%".toList || word == "from".toList

/-- The steps read so far, with their declarations. -/
abbrev Steps := Table Text Declarations

/-- Adds a line to the steps. A line that does not start with a step is reported. -/
def addStepLine (d : Draft) (steps : Steps) (line : Line) : Reported Steps :=
  match contentTokens line with
  | [] => pure steps
  | step :: words =>
    if isStep step then do
      let resolved ← resolveWords d .normal line.number words
      return steps.alter step fun old =>
        Declarations.addAll (old.getD .empty) (resolved.flatMap Prod.snd)
    else do
      Reported.report (.invalidStep step) line.number
      return steps

/-- The steps that lines make; a step without declarations does not count. -/
def readSteps (d : Draft) (lines : List Line) : Reported (List (Text × Text)) := do
  let steps ← lines.foldlM (addStepLine d) .empty
  return (steps.entries.filter fun e => !e.2.isEmpty).map fun e => (e.1, e.2.text)

/-- The text of keyframes. -/
def renderKeyframes (name : Text) (steps : List (Text × Text)) : Text :=
  "@keyframes " ++ name ++ " \x7b\n" ++
    Text.join "\n" (steps.map fun s => "  " ++ s.1 ++ " \x7b " ++ s.2 ++ " \x7d") ++ "\n\x7d"

/-- Adds keyframes to a draft: their text, and the declarations of their first step. -/
def addKeyframes (d : Draft) (name : Text) (lines : List Line) : Draft :=
  let steps := readSteps d lines
  let d := d.absorb steps
  let initial := steps.value.filter fun s => isInitialStep s.1
  let d := initial.foldl (fun d s => d.setInitialState name s.2) d
  if steps.value.isEmpty then d
  else { d with fragments := d.fragments ++ [renderKeyframes name steps.value] }

end OutlineMarkup.Directive
