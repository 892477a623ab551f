/-
  File:      OutlineMarkup/Outline/Scope.lean
  Subject:   From statements to the element forest.

  Elements nest by depth inside a scope, and braces open scopes. A scope is the document, or the
  block of an element; it ends at its `}`, at a statement left of its first one, or with the
  document. The state is the scope in progress and the scopes around it, innermost first; a scope
  holds its elements in the order of their lines, each with what its braces have given it, and
  becomes a forest when it ends.
-/
import OutlineMarkup.Directive.Process
import OutlineMarkup.Element.Build
import OutlineMarkup.Outline.Statement

namespace OutlineMarkup

/-- A scope in progress. -/
structure Scope where
  /-- The line of the brace that opened the scope; none for the document. -/
  openedAt : Option Int := none
  /-- The indentation of the first statement in the scope, once there is one. -/
  margin : Option Int := none
  /-- The elements in the scope, latest first, with the children that braces gave them. -/
  entries : List (Tree Element) := []
  deriving DecidableEq, Repr

namespace Scope

/-- The forest of a scope: its elements nested by depth. -/
def forest (s : Scope) : Forest Element := Forest.nest Element.depth s.entries.reverse

/-- Gives children to the latest element of a scope. -/
def adopt (s : Scope) (children : Forest Element) : Scope :=
  match s.entries with
  | [] => s
  | latest :: earlier => { s with entries := latest.addChildren children :: earlier }

/-- Adds a class to the latest element of a scope. -/
def addClass (s : Scope) (name : Text) : Scope :=
  match s.entries with
  | [] => s
  | latest :: earlier =>
    { s with entries := { latest with label := latest.label.addClass name } :: earlier }

/-- Adds an element to a scope. -/
def push (s : Scope) (e : Element) : Scope := { s with entries := ⟨e, .nil⟩ :: s.entries }

/-- Fixes the margin of a scope by its first statement. -/
def setMargin (s : Scope) (indent : Int) : Scope := { s with margin := s.margin.or (some indent) }

/-- Whether a statement stands left of a scope. -/
def isLeftOf (s : Scope) (indent : Int) : Bool := s.margin.any fun m => decide (indent < m)

end Scope

/-- The state between two statements: the draft, the scope in progress and the scopes around it. -/
structure Outline where
  draft : Draft
  scope : Scope := {}
  enclosing : List Scope := []
  deriving DecidableEq, Repr

namespace Outline

/-! ## 1. Opening and closing scopes -/

/-- Opens a scope for the latest element. -/
def enter (o : Outline) (openedAt : Int) : Outline :=
  { o with scope := { openedAt := some openedAt }, enclosing := o.scope :: o.enclosing }

/-- Closes the scope in progress at its brace; a brace without a scope is reported. -/
def close (o : Outline) (line : Line) : Outline :=
  match o.enclosing with
  | [] => { o with draft := o.draft.report .strayBrace line.number }
  | outer :: rest => { o with scope := outer.adopt o.scope.forest, enclosing := rest }

/-- Closes and reports the scopes that a statement stands left of, innermost first. No statement
    closes the scope of the document, so there is no case for one left of column 0, which would end
    the document: no line of a source stands there. Statements about lines of any indentation have
    such a line go on with the document. -/
def closeDedented (indent : Int) (draft : Draft) (scope : Scope) : List Scope → Outline
  | [] => ⟨draft, scope, []⟩
  | outer :: rest =>
    if scope.isLeftOf indent then
      closeDedented indent (draft.report .dedentedBlock scope.openedAt)
        (outer.adopt scope.forest) rest
    else ⟨draft, scope, outer :: rest⟩

/-- Goes to the scope that a statement belongs to. -/
def settle (o : Outline) (indent : Int) : Outline :=
  let o := closeDedented indent o.draft o.scope o.enclosing
  { o with scope := o.scope.setMargin indent }

/-- Closes and reports all scopes at the end of the document; the result is the forest of the
    document. -/
def finishFrom (draft : Draft) (scope : Scope) : List Scope → Forest Element × Draft
  | [] => (scope.forest, draft)
  | outer :: rest =>
    finishFrom (draft.report .unclosedBlock scope.openedAt) (outer.adopt scope.forest) rest

/-- Closes and reports all scopes at the end of the document. -/
def finish (o : Outline) : Forest Element × Draft := finishFrom o.draft o.scope o.enclosing

/-! ## 2. Statements -/

/-- Adds an element, and opens its block if it has one. -/
def addElement (o : Outline) (line : Line) (code : Text) (words : List Text) (opens : Bool)
    (following : List Statement) : Except Fault Outline := do
  let (e, draft) ← o.draft.addElement line code words (Statement.hasChildren line opens following)
  let o := { o with draft, scope := o.scope.push e }
  return if opens then o.enter line.number else o

/-- Adds a directive; a class that comes of it goes to the latest element. -/
def addDirective (o : Outline) (block : Directive.Block) : Except Fault Outline := do
  let (name, draft) ← o.draft.addInline block (!o.scope.entries.isEmpty)
  return { o with draft, scope := (name.map o.scope.addClass).getD o.scope }

/-- Opens a block for the latest element; before any element a brace has no effect. -/
def openBlock (o : Outline) (line : Line) : Outline :=
  if o.scope.entries.isEmpty then o else o.enter line.number

/-- Adds one statement, given those that follow it. -/
def step (o : Outline) (s : Statement) (following : List Statement) : Except Fault Outline :=
  match s with
  | .closeBrace line => .ok (o.close line)
  | .openBrace line => .ok ((o.settle line.indent).openBlock line)
  | .directive line block => (o.settle line.indent).addDirective block
  | .element line code words opens =>
    (o.settle line.indent).addElement line code words opens following

/-- Adds statements one after the other. -/
def run (o : Outline) : List Statement → Except Fault Outline
  | [] => .ok o
  | s :: following => do (← o.step s following).run following

end Outline

/-- The element forest of a document's body, and the draft with all that its lines contribute. -/
def Draft.readBody (d : Draft) (lines : List Line) : Except Fault (Forest Element × Draft) := do
  let o ← Outline.run { draft := d } (Statement.ofLines d.config lines)
  return o.finish

end OutlineMarkup
