/-
  File:      OutlineMarkup/Token/Shape.lean
  Subject:   The two shapes of tokens that carry meaning: `key=value` and `#id.class`.
-/
import OutlineMarkup.Token.Basic

namespace OutlineMarkup.Token

/-! ## 1. Assignments -/

/-- Whether a character may stand in a key after its first letter. -/
def isKeyChar (c : Char) : Bool := c.isAlphanum || c = '_' || c = ':' || c = '-'

/-- Reads a token as `key=value`: the key is an ASCII letter followed by letters, digits, `_`, `:`
    and `-`, and the value is all that follows the first `=`, which must not be nothing. -/
def assignment? (token : Text) : Option (Text × Text) :=
  match token.head?, token.dropWhile isKeyChar with
  | some first, '=' :: c :: cs =>
    if first.isAlpha then some (token.takeWhile isKeyChar, c :: cs) else none
  | _, _ => none

/-! ## 2. Selectors -/

/-- The id and the classes that a selector such as `#main.card.wide` names. -/
structure Selector where
  id : Text
  classes : List Text
  deriving DecidableEq, Repr

/-- Whether a token is a selector: it starts with `.` or `#`. -/
def isSelector (token : Text) : Bool := token.head? == some '.' || token.head? == some '#'

/-- Reads a chain of signs and names: the run of characters before the first sign, and each sign
    with the name that follows it. A sign without a name is passed over. -/
def chain : Text → Text × List (Char × Text)
  | [] => ([], [])
  | c :: cs =>
    let (run, parts) := chain cs
    if c = '#' || c = '.' then ([], if run.isEmpty then parts else (c, run) :: parts)
    else (c :: run, parts)

/-- The id and classes of a selector chain. Of several ids the last one counts. -/
def selector (token : Text) : Selector :=
  let parts := (chain token).2
  { id := (((parts.filter fun p => p.1 = '#').map Prod.snd).getLast?).getD []
    classes := (parts.filter fun p => p.1 = '.').map Prod.snd }

end OutlineMarkup.Token
