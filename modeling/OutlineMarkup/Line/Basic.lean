/-
  File:      OutlineMarkup/Line/Basic.lean
  Subject:   Lines of a document: number, indentation, text; what kind of line a text makes.

  A source is cut at line feeds (a carriage return before one belongs to it). Each row has its tabs
  expanded; its blanks on the left are the indentation and its text is free of outer blanks. The
  indentation is an integer because lines can be built with any unit, also a negative one.
-/
import OutlineMarkup.Text.Columns

namespace OutlineMarkup

/-- One line: its number in the source (from 1), the width of its indentation, and its text without
    outer blanks. -/
structure Line where
  number : Int
  indent : Int
  text : Text
  deriving DecidableEq, Repr

namespace Line

/-! ## 1. Cutting a source into lines -/

/-- Reads one row of a source with tabs of the given width. A row of blanks has no indentation. -/
def ofRow (width : Int32) (number : Nat) (row : Text) : Line :=
  let expanded := Text.expandTabs width row
  let text := Text.strip expanded
  { number := number
    indent := if text.isEmpty then 0 else (expanded.takeWhile Text.isBlank).length
    text := text }

/-- The rows of a source: the pieces between its line ends, which are `LF` and `CR LF`. -/
def rows (source : Text) : List Text :=
  List.splitOn '\n' (Text.replace ['\r', '\n'] ['\n'] source)

/-- The lines of a source with tabs of the given width, numbered from 1. -/
def ofSource (width : Int32) (source : Text) : List Line :=
  ((rows source).zipIdx 1).map fun r => ofRow width r.2 r.1

/-- Reads the lines of a source where a tab is one unit of indentation. Every source has a row, so a
    unit that no tab is as wide as is refused whatever the source is. -/
def read (unit : Int) (source : Text) : Except Fault (List Line) := do
  return ofSource (← Text.tabWidth unit) source

/-! ## 2. Kinds of lines -/

/-- Whether nothing is on the line. -/
def isBlank (l : Line) : Bool := l.text.isEmpty

/-- Whether a line is a comment: it starts with `//`, or with a `#` that a blank or the end of the
    line follows (otherwise `#` starts an id). -/
def isComment (l : Line) : Bool :=
  match l.text with
  | '/' :: '/' :: _ => true
  | ['#'] => true
  | '#' :: c :: _ => Text.isBlank c
  | _ => false

/-- Whether a line carries nothing to compile. -/
def isSkippable (l : Line) : Bool := l.isBlank || l.isComment

/-- Whether a line is a brace and nothing else. -/
def isBrace (l : Line) : Bool := l.text == ['\x7b'] || l.text == ['\x7d']

/-- Whether a line opens a directive block. -/
def isDirective (l : Line) : Bool := l.text.head? == some '@'

/-- Whether a line declares a variable. -/
def isVariable (l : Line) : Bool := l.text.head? == some '$'

/-! ## 3. Depth -/

/-- The depth of a line: how many whole units of indentation it has. -/
def depth (l : Line) (unit : Int) : Int := l.indent.fdiv unit

/-- The depth of a line, which no line has for a unit of 0. -/
def checkedDepth (l : Line) (unit : Int) : Except Fault Int :=
  if unit = 0 then .error .zeroIndentUnit else .ok (l.depth unit)

end Line

end OutlineMarkup
