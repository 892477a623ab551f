/-
  File:      OutlineMarkup/Markup/Html.lean
  Subject:   Compiled documents as HTML text.

  `html` is the text of a whole document. A document in memory (`Page`) is written with the same
  tags, element by element.
-/
import OutlineMarkup.Document

namespace OutlineMarkup.Markup

/-- A character inside of text: `&`, `<` and `>` are written as references. -/
def escapeTextChar (c : Char) : Text :=
  if c = '&' then "&amp;" else if c = '<' then "&lt;" else if c = '>' then "&gt;" else [c]

/-- A character inside of an attribute: both quotes are written as references, too. -/
def escapeAttributeChar (c : Char) : Text :=
  if c = '"' then "&quot;" else if c = '\'' then "&#x27;" else escapeTextChar c

/-- Text between tags. -/
def escapeText (t : Text) : Text := t.flatMap escapeTextChar

/-- The value of an attribute. -/
def escapeAttribute (t : Text) : Text := t.flatMap escapeAttributeChar

/-- An attribute inside of a start tag. -/
def attributeText (name value : Text) : Text :=
  " " ++ name ++ "=\"" ++ escapeAttribute value ++ "\""

/-- A start tag. -/
def startTag (tag : Text) (attributes : Table Text Text) : Text :=
  "<" ++ tag ++ (attributes.entries.flatMap fun a => attributeText a.1 a.2) ++ ">"

/-- An end tag. -/
def endTag (tag : Text) : Text := "</" ++ tag ++ ">"

/-- The elements of a forest: the text of an element stands before its children. -/
def elements : Forest Element → Text
  | .nil => []
  | .node e cs ss =>
    startTag e.tag e.htmlAttributes ++ escapeText (e.text.getD []) ++ elements cs ++
      endTag e.tag ++ elements ss

/-- The style element, unless there are no styles. -/
def styleElement (stylesheet : Text) : Text :=
  if stylesheet.isEmpty then [] else "<style>" ++ stylesheet ++ "</style>"

/-- A compiled document: its styles, then its elements. The root itself is not written. -/
def html (c : Compiled) : Text := styleElement c.stylesheet ++ elements c.root.children

end OutlineMarkup.Markup
