/-
  File:      OutlineMarkup/Markup/Page.lean
  Subject:   The host that keeps its elements in memory, and the markup of a document mounted there.

  A page numbers its elements in order of creation, from the root on, which is number 0 and the
  place where a document is mounted. An element links to its children by number.
-/
import OutlineMarkup.Markup.Html
import OutlineMarkup.Markup.Mount

namespace OutlineMarkup.Markup

/-- An element of a page, with the numbers of its children in order. -/
structure PageElement where
  tag : Text
  attributes : Table Text Text := .empty
  text : Text := []
  children : List Nat := []
  deriving DecidableEq, Repr

/-- The markup of an element, given that of its children. -/
def PageElement.markup (e : PageElement) (inner : Text) : Text :=
  startTag e.tag e.attributes ++ escapeText e.text ++ inner ++ endTag e.tag

/-- A page: its root and the elements made later, in order, and its styles. -/
structure Page where
  root : PageElement
  made : List PageElement := []
  stylesheet : Text := []
  deriving DecidableEq, Repr

namespace Page

/-- The page that has nothing but its root. -/
def blank (rootId : Text) : Page where
  root := { tag := "div", attributes := Table.empty.insert "id" rootId }

/-- Changes the element with a number, if there is one. -/
def change (p : Page) (element : Nat) (f : PageElement → PageElement) : Page :=
  match element with
  | 0 => { p with root := f p.root }
  | n + 1 => { p with made := p.made.modify n f }

/-- A page as a host document. -/
def host : Host (StateM Page) Nat where
  mountPoint := return some 0
  insertStylesheet css := modify fun p => { p with stylesheet := css }
  createElement tag := do
    modify fun p => { p with made := p.made ++ [{ tag }] }
    return (← get).made.length
  setAttribute element name value :=
    modify fun p => p.change element fun e =>
      { e with attributes := e.attributes.insert name value }
  setText element text := modify fun p => p.change element fun e => { e with text }
  appendChild parent child :=
    modify fun p => p.change parent fun e => { e with children := e.children ++ [child] }

/-- The markup of an element among those from number `first` on. Where a document is built, the
    children of an element are made after it, so they are looked for behind it. -/
def markupAt (first : Nat) : List PageElement → Nat → Text
  | [], _ => []
  | e :: later, n =>
    if n = first then e.markup (e.children.flatMap (markupAt (first + 1) later))
    else markupAt (first + 1) later n

/-- The markup inside of the root: the styles, then the elements under it. -/
def innerHtml (p : Page) : Text :=
  styleElement p.stylesheet ++ p.root.children.flatMap (markupAt 1 p.made)

end Page

/-- The markup of a compiled document: what is inside of a page where it is mounted. -/
def render (c : Compiled) : Except Fault Text :=
  let rootId := if c.root.label.id.isEmpty then "app".toList else c.root.label.id
  let (place, page) := (Page.host.mount c).run (.blank rootId)
  place.map fun _ => page.innerHtml

end OutlineMarkup.Markup
