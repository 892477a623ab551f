/-
  File:      OutlineMarkup/Outline/Statement.lean
  Subject:   The statements of a document's body.

  Blank lines and comments are dropped, blocks written on one line are written out, and each
  directive takes its lines with it. What is left are element lines, braces on lines of their own,
  and directives.
-/
import OutlineMarkup.Directive.Block
import OutlineMarkup.Line.Inline

namespace OutlineMarkup

/-- A statement of a document's body. -/
inductive Statement where
  /-- An element: its code, the words after it, and whether a brace at the end opens a block. -/
  | element (line : Line) (code : Text) (words : List Text) (opens : Bool)
  /-- A `{` on a line of its own. -/
  | openBrace (line : Line)
  /-- A `}` on a line of its own. -/
  | closeBrace (line : Line)
  /-- A directive with its lines. -/
  | directive (line : Line) (block : Directive.Block)
  deriving DecidableEq, Repr

namespace Statement

/-- The line on which a statement starts. -/
def line : Statement → Line
  | .element line _ _ _ => line
  | .openBrace line => line
  | .closeBrace line => line
  | .directive line _ => line

/-- The statement that a line without a directive makes; none if there is nothing on it. -/
def ofLine? (line : Line) : Option Statement :=
  if line.isSkippable then none
  else
    match Token.tokenize line.text with
    | [] => none
    | code :: words =>
      if words.isEmpty && code == Token.opening then some (.openBrace line)
      else if words.isEmpty && code == Token.closing then some (.closeBrace line)
      else if words.getLast? = some Token.opening then some (.element line code words.dropLast true)
      else some (.element line code words false)

/-- The statements of lines whose blocks are written out; the counter says how many lines still
    belong to the directive just read. -/
def ofLinesFrom (config : Config) : Nat → List Line → List Statement
  | _, [] => []
  | k + 1, _ :: ls => ofLinesFrom config k ls
  | 0, l :: ls =>
    if l.isDirective then
      .directive l (Directive.collect config.breakpoints config.indentUnit l ls) ::
        ofLinesFrom config (Directive.extent l ls) ls
    else (ofLine? l).toList ++ ofLinesFrom config 0 ls

/-- Writes out the blocks on a line. Comments and directives stay as they are. -/
def writeOut (config : Config) (line : Line) : List Line :=
  if line.isSkippable || line.isDirective then [line] else line.expand config.indentUnit

/-- The statements of a document's body. -/
def ofLines (config : Config) (lines : List Line) : List Statement :=
  ofLinesFrom config 0 (lines.flatMap (writeOut config))

/-! ## Looking ahead -/

/-- Whether the next statement is a child of a line: not if it closes a block or is a directive,
    else if a block is open or it lies deeper. -/
def startsChild (line : Line) (opened : Bool) : List Statement → Bool
  | [] => false
  | .closeBrace _ :: _ => false
  | .directive _ _ :: _ => false
  | s :: _ => opened || decide (line.indent < s.line.indent)

/-- Whether an element has children, as far as the next two statements show: a `{` that follows an
    element without one opens its block. -/
def hasChildren (line : Line) (opens : Bool) (following : List Statement) : Bool :=
  match opens, following with
  | false, .openBrace _ :: rest => startsChild line true rest
  | _, _ => startsChild line opens following

end Statement

end OutlineMarkup
