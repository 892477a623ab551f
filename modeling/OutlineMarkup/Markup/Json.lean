/-
  File:      OutlineMarkup/Markup/Json.lean
  Subject:   JSON values and their text; compiled documents as JSON.

  The text is ASCII: every other character is written as the `\u` escapes of its 16-bit units. Items
  and fields stand on lines of their own, two spaces deeper than what they belong to.
-/
import OutlineMarkup.Document

namespace OutlineMarkup.Markup

/-- A JSON value; the fields of an object keep their order. -/
inductive Json where
  | null
  | number (n : Int)
  | string (t : Text)
  | array (items : List Json)
  | object (fields : List (Text × Json))
  deriving Repr

namespace Json

/-! ## 1. Text -/

/-- A 16-bit unit as an escape with four digits in lower case. -/
def escapeUnit (n : Nat) : Text :=
  "\\u" ++ [n / 0x1000 % 16, n / 0x100 % 16, n / 0x10 % 16, n % 16].map Nat.digitChar

/-- A character inside of a string. -/
def escapeChar (c : Char) : Text :=
  if c = '"' then "\\\"" else if c = '\\' then "\\\\"
  else if c = '\n' then "\\n" else if c = '\r' then "\\r" else if c = '\t' then "\\t"
  else if c = '\x08' then "\\b" else if c = '\x0c' then "\\f"
  else if 0x20 ≤ c.toNat ∧ c.toNat < 0x7f then [c]
  else (Text.unitsOfChar c).flatMap escapeUnit

/-- A string with its quotes. -/
def quoted (t : Text) : Text := "\"" ++ t.flatMap escapeChar ++ "\""

/-- A new line at a level of nesting. -/
def newLine (level : Nat) : Text := '\n' :: List.replicate (2 * level) ' '

mutual

/-- The text of a value at a level of nesting. -/
def renderAt (level : Nat) : Json → Text
  | .null => "null"
  | .number n => Text.ofInt n
  | .string t => quoted t
  | .array [] => "[]"
  | .array (x :: xs) =>
    "[" ++ newLine (level + 1) ++ renderAt (level + 1) x ++ renderItems (level + 1) xs ++
      newLine level ++ "]"
  | .object [] => "\x7b\x7d"
  | .object ((k, x) :: fields) =>
    "\x7b" ++ newLine (level + 1) ++ quoted k ++ ": " ++ renderAt (level + 1) x ++
      renderFields (level + 1) fields ++ newLine level ++ "\x7d"

/-- The text of the items after the first. -/
def renderItems (level : Nat) : List Json → Text
  | [] => []
  | x :: xs => "," ++ newLine level ++ renderAt level x ++ renderItems level xs

/-- The text of the fields after the first. -/
def renderFields (level : Nat) : List (Text × Json) → Text
  | [] => []
  | (k, x) :: fields =>
    "," ++ newLine level ++ quoted k ++ ": " ++ renderAt level x ++ renderFields level fields

end

/-- The text of a value. -/
def render (j : Json) : Text := renderAt 0 j

/-- An array of strings. -/
def strings (ts : List Text) : Json := .array (ts.map .string)

end Json

/-! ## 2. Compiled documents -/

/-- The fields of an element; what is empty is left out, only a text may be empty. -/
def elementFields (e : Element) (children : List Json) : List (Text × Json) :=
  [("tag".toList, .string e.tag)] ++
  (if e.id.isEmpty then [] else [("id".toList, .string e.id)]) ++
  (if e.classes.isEmpty then [] else [("classes".toList, .strings e.classes)]) ++
  (if e.attributes.isEmpty then []
   else [("attributes".toList, .object (e.attributes.entries.map fun a => (a.1, .string a.2)))]) ++
  (match e.text with
   | none => []
   | some t => [("text".toList, .string t)]) ++
  (if children.isEmpty then [] else [("children".toList, .array children)])

/-- The trees of a forest. -/
def forestJson : Forest Element → List Json
  | .nil => []
  | .node e cs ss => .object (elementFields e (forestJson cs)) :: forestJson ss

/-- A tree. -/
def treeJson (t : Tree Element) : Json := .object (elementFields t.label (forestJson t.children))

/-- A diagnostic. -/
def diagnosticJson (d : Diagnostic) : Json :=
  .object
    [("rule".toList, .string d.finding.rule),
     ("severity".toList, .string d.finding.severity.label),
     ("message".toList, .string d.finding.message),
     ("line".toList, (d.line.map .number).getD .null)]

/-- A compiled document. -/
def compiledJson (c : Compiled) : Json :=
  .object
    [("tree".toList, treeJson c.root),
     ("stylesheet".toList, .string c.stylesheet),
     ("diagnostics".toList, .array (c.diagnostics.map diagnosticJson))]

end OutlineMarkup.Markup
