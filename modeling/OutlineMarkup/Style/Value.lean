/-
  File:      OutlineMarkup/Style/Value.lean
  Subject:   The values of style keys: colours, measures, references to variables.
-/
import OutlineMarkup.Text.Decimal

namespace OutlineMarkup.Style

/-! ## 1. Colours -/

/-- Whether a character is a hexadecimal digit. -/
def isHex (c : Char) : Bool :=
  c.isDigit || (decide ('a' ≤ c) && decide (c ≤ 'f')) || (decide ('A' ≤ c) && decide (c ≤ 'F'))

/-- The text without one line feed at its end. -/
def dropFinalLineFeed (t : Text) : Text := if t.getLast? = some '\n' then t.dropLast else t

/-- A colour of three digits with each digit doubled; any other value stays as it is. A line feed at
    the end does not count and is lost. -/
def doubleHex (value : Text) : Text :=
  match dropFinalLineFeed value with
  | ['#', r, g, b] =>
    if isHex r && isHex g && isHex b then ['#', r, r, g, g, b, b] else value
  | _ => value

/-- Whether a value is a colour of six digits; a line feed at the end does not count. -/
def isLongHex (value : Text) : Bool :=
  match dropFinalLineFeed value with
  | '#' :: digits => digits.length == 6 && digits.all isHex
  | _ => false

/-- A colour in its usual form: six digits in lower case, with black and white by name. -/
def normalizeColor (value : Text) : Text :=
  let long := doubleHex value
  let lowered := if isLongHex long then long.map Char.toLower else long
  if lowered = "#ffffff" then "white"
  else if lowered = "#000000" then "black"
  else lowered

/-! ## 2. Measures -/

/-- The words of a value with `px` after each bare number. -/
def toPixels (value : Text) : Text :=
  Text.join " " ((Text.words value).map fun w => if Text.isNumeral w then w ++ "px" else w)

/-! ## 3. References to variables -/

/-- Whether a character can start the name of a variable. -/
def isNameStart (c : Char) : Bool := c.isAlpha || c = '_'

/-- Whether a character can go on in the name of a variable. -/
def isNameChar (c : Char) : Bool := c.isAlphanum || c = '_' || c = '-'

/-- A piece of a value: a plain character or a reference to a variable. -/
inductive Piece where
  | plain (c : Char)
  | reference (name : Text)
  deriving DecidableEq, Repr

/-- Reads a value into pieces; the counter says how many characters of the reference just read are
    still to be passed over. -/
def piecesFrom : Nat → Text → List Piece
  | _, [] => []
  | k + 1, _ :: cs => piecesFrom k cs
  | 0, c :: cs =>
    if c = '$' && cs.head?.any isNameStart then
      .reference (cs.takeWhile isNameChar) :: piecesFrom (cs.takeWhile isNameChar).length cs
    else .plain c :: piecesFrom 0 cs

/-- The pieces of a value: `$` followed by a name is a reference, and the name is as long as can
    be. -/
def pieces (value : Text) : List Piece := piecesFrom 0 value

/-- A piece as it stands in a stylesheet. -/
def Piece.css : Piece → Text
  | .plain c => [c]
  | .reference name => "var(--" ++ name ++ ")"

/-- The value with every reference written for a stylesheet. -/
def substitute (value : Text) : Text := (pieces value).flatMap Piece.css

/-- The names that a value refers to, in order. -/
def references (value : Text) : List Text :=
  (pieces value).filterMap fun
    | .plain _ => none
    | .reference name => some name

end OutlineMarkup.Style
