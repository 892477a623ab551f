/-
  File:      OutlineMarkup/Markup/Mount.lean
  Subject:   Building a compiled document inside of a host document, call by call.

  A host knows its elements by handles of its own and offers six operations, whatever their effects
  are. An element is created, gets its attributes and its text, then its children are built, and
  last it is put under its parent.

  `recorder` is the host that only writes its calls down. It numbers the elements from 1 in order
  of creation; 0 is the place where the document is mounted.
-/
import OutlineMarkup.Document

namespace OutlineMarkup.Markup

/-! ## 1. Hosts -/

/-- A host document: what it can do, with handles `η` for its elements and effects `m`. -/
structure Host (m : Type → Type) (η : Type) where
  /-- The place to mount a document, if there is one. -/
  mountPoint : m (Option η)
  insertStylesheet : Text → m Unit
  createElement : Text → m η
  setAttribute : η → Text → Text → m Unit
  setText : η → Text → m Unit
  /-- Puts the second element under the first, behind those that are there. -/
  appendChild : η → η → m Unit

namespace Host

variable {m : Type → Type} [Monad m] {η : Type} (host : Host m η)

/-- Makes an element, without its children. -/
def create (e : Element) : m η := do
  let element ← host.createElement e.tag
  e.htmlAttributes.entries.forM fun a => host.setAttribute element a.1 a.2
  if e.hasText then host.setText element (e.text.getD [])
  return element

/-- Builds the trees of a forest under a parent. -/
def build (parent : η) : Forest Element → m Unit
  | .nil => return
  | .node e cs ss => do
    let element ← host.create e
    build element cs
    host.appendChild parent element
    build parent ss

/-- Mounts a compiled document; the result is the place where it is. -/
def mount (c : Compiled) : m (Except Fault η) := do
  match ← host.mountPoint with
  | none => return .error .noMountPoint
  | some place => do
    host.insertStylesheet c.stylesheet
    host.build place c.root.children
    return .ok place

end Host

/-! ## 2. Calls -/

/-- A call to a host document, with numbers for its elements. -/
inductive Call where
  | mountPoint
  | insertStylesheet (css : Text)
  | createElement (element : Nat) (tag : Text)
  | setAttribute (element : Nat) (name value : Text)
  | setText (element : Nat) (text : Text)
  | appendChild (parent child : Nat)
  deriving DecidableEq, Repr

/-- The calls so far, latest first, and the number of elements created. -/
structure Record where
  calls : List Call := []
  created : Nat := 0
  deriving DecidableEq, Repr

/-- Writes a call down. -/
def note (call : Call) : StateM Record Unit := modify fun r => { r with calls := call :: r.calls }

/-- The host that writes its calls down; it may have a place to mount a document or none. -/
def recorder (mountable : Bool) : Host (StateM Record) Nat where
  mountPoint := do
    note .mountPoint
    return if mountable then some 0 else none
  insertStylesheet css := note (.insertStylesheet css)
  createElement tag := do
    modify fun r => { r with created := r.created + 1 }
    let number := (← get).created
    note (.createElement number tag)
    return number
  setAttribute element name value := note (.setAttribute element name value)
  setText element text := note (.setText element text)
  appendChild parent child := note (.appendChild parent child)

/-- The calls that mount a compiled document. -/
def mount (c : Compiled) (mountable : Bool) : Except Fault (List Call) :=
  let (place, record) := ((recorder mountable).mount c).run {}
  place.map fun _ => record.calls.reverse

end OutlineMarkup.Markup
