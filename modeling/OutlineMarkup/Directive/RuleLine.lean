/-
  File:      OutlineMarkup/Directive/RuleLine.lean
  Subject:   Lines inside a directive: their words and what they declare.
-/
import OutlineMarkup.Line.Basic
import OutlineMarkup.Style.Group
import OutlineMarkup.Style.Resolve
import OutlineMarkup.Token.Shape

namespace OutlineMarkup.Directive

/-- The words of a line inside a directive; braces do not count, and comments have none. -/
def contentTokens (line : Line) : List Text :=
  if line.isSkippable then [] else (Token.tokenize line.text).filter fun t => !Token.isBrace t

/-- Adds a word to the pairs read so far (latest first): an assignment is a new pair, any other word
    goes on with the value of the latest pair if its key allows it. -/
def addPairWord (line : Option Int) (pairs : List (Text × Text)) (word : Text) :
    Reported (List (Text × Text)) :=
  match Token.assignment? word with
  | some pair => pure (pair :: pairs)
  | none =>
    if pairs.head?.any fun latest => StyleKey.continues latest.1 then
      pure (StyleKey.extendLatest word pairs)
    else do
      Reported.report (.skippedRuleWord word) line
      return pairs

/-- The pairs that words make, in order. -/
def readPairs (line : Option Int) (words : List Text) : Reported (List (Text × Text)) := do
  let pairs ← words.foldlM (addPairWord line) []
  return pairs.reverse

/-- What one pair declares, with the category of its key; nothing is left out. -/
def resolvePair (d : Draft) (priority : Priority) (line : Option Int) (pair : Text × Text) :
    Reported (Option (Category × List Declaration)) :=
  match StyleKey.ofToken? pair.1 with
  | none => do
    Reported.report (.unknownStyleKey pair.1) line
    return none
  | some key => do
    let ds ← d.resolve key (Token.unquote pair.2) priority line
    return if ds.isEmpty then none else some (key.category, ds)

/-- What the words of a line declare, pair by pair, with the categories of the keys. -/
def resolveWords (d : Draft) (priority : Priority) (line : Option Int) (words : List Text) :
    Reported (List (Category × List Declaration)) := do
  let pairs ← readPairs line words
  let resolved ← pairs.mapM (resolvePair d priority line)
  return resolved.filterMap id

end OutlineMarkup.Directive
