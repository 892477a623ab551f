/-
  File:      OutlineMarkup/Token/Basic.lean
  Subject:   Tokens of a line, and the quoted runs inside them.

  Double quotes pair up from the left; between the two quotes of a pair, and after a last quote
  without partner, blanks and braces are plain text. Splitting into tokens and counting braces go
  by the same rule: each walks along the text with one flag that a quote switches.
-/
import OutlineMarkup.Text.Basic

namespace OutlineMarkup.Token

/-- The character that opens and closes a quoted run. -/
def quote : Char := '"'

/-- The token that opens a block. -/
def opening : Text := ['\x7b']

/-- The token that closes a block. -/
def closing : Text := ['\x7d']

/-- Whether a token opens or closes a block. -/
def isBrace (token : Text) : Bool := token == opening || token == closing

/-! ## 1. Splitting -/

/-- The pieces of a text between its blanks outside of quoted runs; the flag says whether the text
    starts inside of a quoted run. -/
def pieces : Bool → Text → List Text
  | _, [] => [[]]
  | quoted, c :: cs =>
    if !quoted && Text.isBlank c then [] :: pieces quoted cs
    else (pieces (if c = quote then !quoted else quoted) cs).modifyHead (c :: ·)

/-- The tokens of a text: its maximal runs of characters that are not blank or stand in a quoted
    run. -/
def tokenize (t : Text) : List Text := (pieces false t).filter fun piece => !piece.isEmpty

/-! ## 2. Braces outside of quoted runs -/

/-- Opening minus closing braces outside of quoted runs; the flag is that of `pieces`. -/
def braceBalanceFrom : Bool → Text → Int
  | _, [] => 0
  | quoted, c :: cs =>
    if c = quote then braceBalanceFrom (!quoted) cs
    else if quoted then braceBalanceFrom quoted cs
    else if c = '\x7b' then braceBalanceFrom quoted cs + 1
    else if c = '\x7d' then braceBalanceFrom quoted cs - 1
    else braceBalanceFrom quoted cs

/-- Opening minus closing braces of a text, quoted runs left out. -/
def braceBalance (t : Text) : Int := braceBalanceFrom false t

/-! ## 3. Values in quotes -/

/-- The text between the quotes of a quoted value. A value that only starts with a quote loses it;
    any other value stays as it is. -/
def unquote : Text → Text
  | [] => []
  | c :: cs => if c = quote then (if cs.getLast? = some quote then cs.dropLast else cs) else c :: cs

end OutlineMarkup.Token
