/-
  File:      OutlineMarkup/Directive/Media.lean
  Subject:   Media directives: rules that hold under a media query.

  First the lines of the directive are read into pieces of rules, then the pieces get their classes.
  All declarations are important, so that they win over those of the elements.
-/
import OutlineMarkup.Directive.Block
import OutlineMarkup.Directive.RuleLine
import OutlineMarkup.Element.Tag

namespace OutlineMarkup.Directive

/-- Declarations of one category from a line, and the selector that the line starts with. -/
structure RulePiece where
  selector : Option Text
  declarations : Text
  deriving DecidableEq, Repr

/-- Splits the words of a line into its selector and the rest. A line that starts with an assignment
    has no selector. -/
def splitSelector (first : Text) (rest : List Text) : Option Text × List Text :=
  if (Token.assignment? first).isSome then (none, first :: rest)
  else (some (ruleSelector first), rest)

/-- The pieces that one line makes: one for each category. A line with words that declares nothing
    is reported. -/
def mediaLine (d : Draft) (line : Line) : Reported (List RulePiece) :=
  match contentTokens line with
  | [] => pure []
  | first :: rest => do
    let (selector, words) := splitSelector first rest
    let resolved ← resolveWords d .forced line.number words
    let groups := resolved.foldl (fun g r => g.add r.1 r.2) StyleGroups.empty
    if groups.isEmpty then Reported.report (.emptyRule line.text) line.number
    return groups.texts.map fun declarations => ⟨selector, declarations⟩

/-- The pieces that the lines of a directive make. -/
def mediaPieces (d : Draft) (lines : List Line) : Reported (List RulePiece) := do
  let pieces ← lines.mapM (mediaLine d)
  return pieces.flatten

/-- Adds a piece to a block of rules, under the class of its declarations. -/
def addPiece (state : RuleBlock × ClassRegistry) (piece : RulePiece) :
    Except Fault (RuleBlock × ClassRegistry) := do
  let (name, classes) ← state.2.classFor piece.declarations
  return (state.1.add name piece.declarations piece.selector, classes)

/-- The rules of a media directive, in a draft that knows their classes. -/
def mediaRules (d : Draft) (lines : List Line) : Except Fault (RuleBlock × Draft) := do
  let pieces := mediaPieces d lines
  let (rules, classes) ← pieces.value.foldlM addPiece (RuleBlock.empty, d.classes)
  return (rules, { d.absorb pieces with classes })

end OutlineMarkup.Directive
