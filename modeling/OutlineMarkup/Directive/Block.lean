/-
  File:      OutlineMarkup/Directive/Block.lean
  Subject:   Which lines belong to a directive.

  A first line with `{` owns all that follows up to the brace that closes it. A first line without
  one owns the lines after it that are blank or lie deeper, and what stands on it after the words of
  the directive is a line of its own, one unit deeper.
-/
import OutlineMarkup.Directive.Header
import OutlineMarkup.Line.Cursor
import OutlineMarkup.Settings
import OutlineMarkup.Token.Basic

namespace OutlineMarkup.Directive

/-- A directive: its header, the number of its first line, its lines, and whether it was closed. -/
structure Block where
  header : Header
  line : Int
  lines : List Line
  terminated : Bool
  deriving DecidableEq, Repr

/-- The number of lines up to the one that brings the count of open braces down to 0. -/
def bracedExtent : Int → List Line → Nat
  | _, [] => 0
  | depth, l :: ls =>
    if depth ≤ 0 then 0 else bracedExtent (depth + Token.braceBalance l.text) ls + 1

/-- The count of open braces after some lines. -/
def depthAfter (depth : Int) (lines : List Line) : Int :=
  lines.foldl (fun depth l => depth + Token.braceBalance l.text) depth

/-- Whether a line belongs to a directive without a brace: it is blank or lies deeper. -/
def belongs (opening line : Line) : Bool := line.isBlank || decide (opening.indent < line.indent)

/-- The number of lines after the first that belong to a directive. -/
def extent (opening : Line) (following : List Line) : Nat :=
  match Text.cut? '\x7b' opening.text with
  | none => (following.takeWhile (belongs opening)).length
  | some (_, rest) => bracedExtent (1 + Token.braceBalance rest) following

/-- A rule written on the first line of a directive, as a line one unit deeper; none if it is
    blank. -/
def ruleOnHeader (unit : Int) (opening : Line) (rule : Text) : List Line :=
  let rule := Text.strip rule
  if rule.isEmpty then [] else [⟨opening.number, opening.indent + unit, rule⟩]

/-- The directive that opens at a line. -/
def collect (breakpoints : Table Text Text) (unit : Int) (opening : Line) (following : List Line) :
    Block :=
  let body := following.take (extent opening following)
  match Text.cut? '\x7b' opening.text with
  | none =>
    let header := Header.read breakpoints opening.text
    { header
      line := opening.number
      lines := ruleOnHeader unit opening (Text.afterWords header.kind.ownWords opening.text) ++ body
      terminated := true }
  | some (head, rest) =>
    let depth := 1 + Token.braceBalance rest
    let rule := if depth ≤ 0 then Text.beforeLast '\x7d' rest else rest
    { header := Header.read breakpoints head
      line := opening.number
      lines := ruleOnHeader unit opening rule ++ body
      terminated := decide (depthAfter depth body ≤ 0) }

/-- Reads the directive that opens at the next line, whatever that line is. -/
def collectAt (breakpoints : Table Text Text) (unit : Int) (cursor : Cursor) :
    Except Fault (Block × Cursor) := do
  let (opening, rest) ← cursor.next
  return (collect breakpoints unit opening rest.ahead, rest.skip (extent opening rest.ahead))

/-- Takes the directives at column 0 out of a document; the counter says how many lines still belong
    to the directive just taken. -/
def takeTopLevel (config : Config) : Nat → List Line → List Block × List Line
  | _, [] => ([], [])
  | k + 1, _ :: ls => takeTopLevel config k ls
  | 0, l :: ls =>
    if l.isDirective && l.indent == 0 then
      let (blocks, rest) := takeTopLevel config (extent l ls) ls
      (collect config.breakpoints config.indentUnit l ls :: blocks, rest)
    else
      let (blocks, rest) := takeTopLevel config 0 ls
      (blocks, l :: rest)

end OutlineMarkup.Directive
