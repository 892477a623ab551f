/-
  File:      OutlineMarkup/Command/Report.lean
  Subject:   What the commands print about a compiled document.
-/
import OutlineMarkup.Command.Invocation
import OutlineMarkup.Markup.Html
import OutlineMarkup.Markup.Json

namespace OutlineMarkup.Command

/-- A document in a format. -/
def render (c : Compiled) : Format → Text
  | .html => Markup.html c
  | .json => (Markup.compiledJson c).render
  | .css => c.stylesheet

/-! ## 1. Checking -/

/-- The line after the diagnostics that tells how many there are. -/
def summary (c : Compiled) : Text :=
  "Summary: " ++ Text.ofNat c.warnings ++ " warning(s), " ++
    Text.ofNat (c.diagnostics.length - c.warnings) ++ " info"

/-- The lines that a check prints: the diagnostics and their numbers, or that there are none. -/
def checkLines (c : Compiled) (fileName : Text) : List Text :=
  if c.diagnostics.isEmpty then ["OK: " ++ fileName ++ " compiled cleanly (0 diagnostics)"]
  else c.diagnostics.map Diagnostic.text ++ [[], summary c]

/-! ## 2. Inspecting -/

/-- A text of at most 40 characters; a longer one is cut and marked. -/
def shorten (t : Text) : Text := if 40 < t.length then t.take 40 ++ "..." else t

/-- An element on one line: tag, id, classes and text. -/
def describe (e : Element) : Text :=
  e.tag ++ (if e.id.isEmpty then [] else '#' :: e.id) ++ (e.classes.flatMap fun c => '.' :: c) ++
    (if e.hasText then " \"" ++ shorten (e.text.getD []) ++ "\"" else [])

/-- The lines of a forest at a level of nesting, two spaces for each level. -/
def treeLines (level : Nat) : Forest Element → List Text
  | .nil => []
  | .node e cs ss =>
    (List.replicate (2 * level) ' ' ++ describe e) ::
      (treeLines (level + 1) cs ++ treeLines level ss)

/-- Whether a character ends a line of a stylesheet. -/
def endsLine (c : Char) : Bool :=
  let n := c.toNat
  (0x0a ≤ n && n ≤ 0x0d) || (0x1c ≤ n && n ≤ 0x1e) || n == 0x85 || n == 0x2028 || n == 0x2029

/-- The number of lines of a stylesheet that start with a class. -/
def countClassRules (stylesheet : Text) : Nat :=
  ((List.splitOnP endsLine stylesheet).filter fun line =>
    (Text.stripLeft line).head? == some '.').length

/-- The lines that tell what a document's stylesheet holds. -/
def countLines (c : Compiled) : List Text :=
  ["Class rules: " ++ Text.ofNat (countClassRules c.stylesheet),
   "Media blocks: " ++ Text.ofNat (Text.count "@media" c.stylesheet),
   "Keyframes: " ++ Text.ofNat (Text.count "@keyframes" c.stylesheet),
   "Diagnostics: " ++ Text.ofNat c.diagnostics.length]

/-- The lines that an inspection prints: the tree, then what the stylesheet holds. -/
def inspectLines (c : Compiled) : List Text :=
  "Tree:" :: (treeLines 1 c.root.children ++ [] :: countLines c)

/-! ## 3. Printing -/

/-- Whether a character stands between the start and the end of a terminal's escape sequence. -/
def isEscapeParameter (c : Char) : Bool := c.isDigit || c = ';' || c = '?'

/-- The length of the escape sequence that a text starts with, without its first character; 0 if
    there is none. A sequence is `ESC [`, parameters, and a letter. -/
def escapeLength : Text → Nat
  | '\x1b' :: '[' :: rest =>
    let parameters := rest.takeWhile isEscapeParameter
    if (rest.drop parameters.length).head?.any Char.isAlpha then parameters.length + 2 else 0
  | _ => 0

/-- Leaves escape sequences out; the counter says how many characters of the sequence just met are
    still to be passed over. -/
def plainFrom : Nat → Text → Text
  | _, [] => []
  | k + 1, _ :: cs => plainFrom k cs
  | 0, c :: cs =>
    match escapeLength (c :: cs) with
    | 0 => c :: plainFrom 0 cs
    | n + 1 => plainFrom (n + 1) cs

/-- A text as it is printed: without escape sequences. -/
def plain (t : Text) : Text := plainFrom 0 t

/-- Lines as they are printed. -/
def printed (lines : List Text) : Text := lines.flatMap fun l => plain l ++ "\n"

end OutlineMarkup.Command
