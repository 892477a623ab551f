/-
  File:      OutlineMarkup/Variable.lean
  Subject:   Lines that declare variables.
-/
import OutlineMarkup.Draft
import OutlineMarkup.Line.Basic
import OutlineMarkup.Style.Value
import OutlineMarkup.Token.Basic

namespace OutlineMarkup

/-- Reads a line as `$name = value`: the value is unquoted, and the variables it refers to are
    written out for the stylesheet. -/
def readVariable? (text : Text) : Option (Text × Text) :=
  match text with
  | [] => none
  | c :: cs =>
    if c = '$' && cs.head?.any Style.isNameStart then
      match Text.stripLeft (cs.dropWhile Style.isNameChar) with
      | '=' :: v :: vs =>
        let value := Token.unquote (Text.strip (v :: vs))
        some (cs.takeWhile Style.isNameChar, Style.substitute value)
      | _ => none
    else none

namespace Draft

/-- Declares the variable of a line, or reports the line. -/
def addVariableLine (d : Draft) (line : Line) : Draft :=
  match readVariable? line.text with
  | some (name, value) => d.declare name value
  | none => d.report (.invalidVariable line.text) line.number

/-- Takes the lines that declare variables out of a document. -/
def takeVariables (d : Draft) (lines : List Line) : Draft × List Line :=
  ((lines.filter Line.isVariable).foldl addVariableLine d, lines.filter fun l => !l.isVariable)

end Draft

end OutlineMarkup
