/-
  File:      OutlineMarkup/Line/Inline.lean
  Subject:   Blocks written on a single line.

  `c pad=8 { p t="hi" }` means the same as its three lines `c pad=8 {`, `p t="hi"` (one unit deeper)
  and `}`. The lines written out keep the number of the line they come from.
-/
import OutlineMarkup.Line.Basic
import OutlineMarkup.Token.Basic

namespace OutlineMarkup.Line

/-- Whether a brace token stands on the line other than one `{` at its end. -/
def hasInlineBlock (tokens : List Text) : Bool :=
  let inner := if tokens.getLast? == some Token.opening then tokens.dropLast else tokens
  decide (1 < tokens.length) && inner.any Token.isBrace

/-- The line that collected tokens make, if there are any. -/
def ofTokens (number indent : Int) (tokens : List Text) : List Line :=
  if tokens.isEmpty then [] else [⟨number, indent, Text.join " " tokens⟩]

/-- Writes tokens out as lines: `{` ends its line and goes one unit deeper, `}` has a line of its
    own one unit back, but never left of the line that is written out. `indent` is the current
    indentation and `current` holds the tokens of the line begun. -/
def writeOut (line : Line) (unit : Int) : Int → List Text → List Text → List Line
  | indent, current, [] => ofTokens line.number indent current
  | indent, current, token :: tokens =>
    if token = Token.opening then
      ⟨line.number, indent, Text.join " " (current ++ [token])⟩ ::
        writeOut line unit (indent + unit) [] tokens
    else if token = Token.closing then
      let back := max line.indent (indent - unit)
      ofTokens line.number indent current ++
        ⟨line.number, back, Token.closing⟩ :: writeOut line unit back [] tokens
    else writeOut line unit indent (current ++ [token]) tokens

/-- The lines that a line stands for: itself, unless blocks are written on it. -/
def expand (unit : Int) (line : Line) : List Line :=
  let tokens := Token.tokenize line.text
  if hasInlineBlock tokens then writeOut line unit line.indent [] tokens else [line]

end OutlineMarkup.Line
