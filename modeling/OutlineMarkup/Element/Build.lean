/-
  File:      OutlineMarkup/Element/Build.lean
  Subject:   From the words of an element line to an element.

  The words after the code are read into features (id, classes, text, pairs of key and value). The
  features fix the tag; then each pair becomes an attribute or declares styles, and the styles of
  each category become a class.
-/
import OutlineMarkup.Element.Basic
import OutlineMarkup.Element.Tag
import OutlineMarkup.Line.Basic
import OutlineMarkup.Style.Group
import OutlineMarkup.Style.Resolve

namespace OutlineMarkup

/-! ## 1. Features -/

/-- What the words of an element line say: the pairs stand latest first, and `continuing` says
    whether a plain word goes on with the value of the latest pair. -/
structure Features where
  id : Text := []
  classes : List Text := []
  text : Option Text := none
  pairs : List (Text × Text) := []
  continuing : Bool := false
  deriving DecidableEq, Repr

namespace Features

/-- The features that the code itself gives: a selector can stand for a code. A code that is neither
    known nor a selector is reported. -/
def ofCode (code : Text) (line : Option Int) : Reported Features :=
  if Token.isSelector code then
    let s := Token.selector code
    pure { id := s.id, classes := s.classes }
  else if (tagOfCode? code).isSome then pure {}
  else do
    Reported.report (.unknownElement code) line
    return {}

/-- Adds a selector: its id takes the place of the earlier one, its classes are added. -/
def addSelector (f : Features) (s : Token.Selector) : Features :=
  { f with
    id := if s.id.isEmpty then f.id else s.id
    classes := f.classes ++ s.classes
    continuing := false }

/-- Adds a pair: some keys are for classes and text, all others are kept. -/
def addPair (f : Features) (key value : Text) : Features :=
  if key = "cls" ∨ key = "class" then
    { f with classes := f.classes ++ Text.words (Token.unquote value), continuing := false }
  else if key = "t" ∨ key = "text" then
    { f with text := some (Token.unquote value), continuing := false }
  else { f with pairs := (key, value) :: f.pairs, continuing := StyleKey.continues key }

/-- Adds a plain word: it goes on with the value of the latest pair, or it is reported. -/
def addPlain (f : Features) (word : Text) (line : Option Int) : Reported Features :=
  if f.continuing then pure { f with pairs := StyleKey.extendLatest word f.pairs }
  else do
    Reported.report (.skippedElementWord word) line
    return f

/-- Adds a word of an element line. A brace that stands alone is no such word: blocks written in one
    line are written out before, and the brace that opens a block is not among the words. -/
def addWord (line : Option Int) (f : Features) (word : Text) : Reported Features :=
  if Token.isSelector word then pure (f.addSelector (Token.selector word))
  else
    match Token.assignment? word with
    | some (key, value) => pure (f.addPair key value)
    | none => f.addPlain word line

/-- The features of an element line. -/
def read (code : Text) (words : List Text) (line : Option Int) : Reported Features := do
  let f ← ofCode code line
  let f ← words.foldlM (addWord line) f
  return { f with pairs := f.pairs.reverse }

end Features

/-- The texts in order of first occurrence, each once. -/
def firstOccurrences (ts : List Text) : List Text :=
  ts.foldl (fun seen t => if seen.contains t then seen else seen ++ [t]) []

/-! ## 2. Attributes and styles -/

/-- What the pairs of an element come to: attributes, and declarations by category. -/
structure Attire where
  attributes : Table Text Text := .empty
  styles : StyleGroups := .empty
  deriving DecidableEq, Repr

namespace Attire

/-- Adds an attribute. -/
def setAttribute (a : Attire) (name value : Text) : Attire :=
  { a with attributes := a.attributes.insert name value }

/-- Adds an `aria` value, which is a name and a value with a colon between them. -/
def addAria (a : Attire) (value : Text) (line : Option Int) : Reported Attire :=
  match Text.cut? ':' value with
  | some (n :: ns, v :: vs) => pure (a.setAttribute ("aria-" ++ (n :: ns)) (v :: vs))
  | _ => do
    Reported.report (.invalidAria value) line
    return a

/-- Adds a pair of an element with the given tag: `h` is the target of a link, `role` and `aria` are
    attributes, a style key declares something, and any other key is an attribute of its own. -/
def addPair (d : Draft) (tag : Text) (line : Option Int) (a : Attire) (pair : Text × Text) :
    Reported Attire :=
  let key := pair.1
  let value := Token.unquote pair.2
  if key = "h" ∧ tag = "a" then pure (a.setAttribute "href" value)
  else if key = "role" then pure (a.setAttribute "role" value)
  else if key = "aria" then a.addAria value line
  else
    match StyleKey.ofToken? key with
    | some styleKey => do
      let ds ← d.resolve styleKey value .normal line
      return { a with styles := a.styles.add styleKey.category ds }
    | none => do
      Reported.report (.literalAttribute key) line
      return a.setAttribute key value

end Attire

/-! ## 3. Elements -/

/-- An element line that has been read: the element without generated classes, and the text of its
    styles, one for each category. -/
structure ElementPlan where
  element : Element
  styles : List Text
  deriving DecidableEq, Repr

/-- Reads an element line. -/
def ElementPlan.read (d : Draft) (line : Line) (code : Text) (words : List Text)
    (hasChildren : Bool) : Reported ElementPlan := do
  let f ← Features.read code words line.number
  let classes := firstOccurrences f.classes
  let tag := classify code classes f.id f.text hasChildren
  let attire ← f.pairs.foldlM (Attire.addPair d tag line.number) {}
  return {
    element :=
      { tag
        id := f.id
        classes
        attributes := attire.attributes
        text := f.text
        depth := line.depth d.config.indentUnit }
    styles := attire.styles.texts }

namespace Draft

/-- Adds the rule of one category's styles to a draft and its class to an element. -/
def addStyle (state : Element × Draft) (declarations : Text) : Except Fault (Element × Draft) := do
  let (name, d) ← state.2.addUtility declarations
  return (state.1.addClass name, d)

/-- Adds an element line to a draft; the result is its element. -/
def addElement (d : Draft) (line : Line) (code : Text) (words : List Text) (hasChildren : Bool) :
    Except Fault (Element × Draft) :=
  let plan := ElementPlan.read d line code words hasChildren
  plan.value.styles.foldlM addStyle (plan.value.element, d.absorb plan)

end Draft

end OutlineMarkup
