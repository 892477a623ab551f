/-
  File:      OutlineMarkup/Element/Basic.lean
  Subject:   Elements of the compiled document, alone and in trees.
-/
import OutlineMarkup.Forest
import OutlineMarkup.Table
import OutlineMarkup.Text.Basic

namespace OutlineMarkup

/-- An element without its children. The depth is that of the line that it was written on. -/
structure Element where
  tag : Text
  id : Text := []
  classes : List Text := []
  attributes : Table Text Text := .empty
  text : Option Text := none
  depth : Int := 0
  deriving DecidableEq, Repr

namespace Element

/-- Adds a class, unless it is empty or there already. -/
def addClass (e : Element) (name : Text) : Element :=
  if name.isEmpty || e.classes.contains name then e else { e with classes := e.classes ++ [name] }

/-- Whether the element has text. -/
def hasText (e : Element) : Bool := !(e.text.getD []).isEmpty

/-- Whether the element has an id, a class or an attribute. -/
def hasAttributes (e : Element) : Bool :=
  !e.id.isEmpty || !e.classes.isEmpty || !e.attributes.isEmpty

/-- All attributes as they are written out: the id, the classes, then the others. An attribute of
    the same name takes the place of the id or the classes. -/
def htmlAttributes (e : Element) : Table Text Text :=
  let own : Table Text Text := .empty
  let own := if e.id.isEmpty then own else own.insert "id" e.id
  let own := if e.classes.isEmpty then own else own.insert "class" (Text.join " " e.classes)
  own.insertAll e.attributes.entries

/-- Whether an element with the given children has text or children. -/
def hasContent (e : Element) (children : Forest Element) : Bool := e.hasText || !children.isEmpty

/-- Whether an element with the given children says nothing at all. -/
def isEmpty (e : Element) (children : Forest Element) : Bool :=
  !e.hasContent children && !e.hasAttributes

end Element

/-- Leaves out the elements that say nothing, from the innermost outwards: an element that only
    holds such elements goes with them. -/
def Forest.prune : Forest Element → Forest Element
  | .nil => .nil
  | .node e cs ss =>
    if e.isEmpty cs.prune then ss.prune else .node e cs.prune ss.prune

/-- The trees of a forest, at any level, whose root has the given tag. -/
def Forest.find (tag : Text) (f : Forest Element) : List (Tree Element) :=
  f.subtrees.filter fun t => t.label.tag == tag

end OutlineMarkup
