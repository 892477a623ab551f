/-
  File:      OutlineMarkup/Draft.lean
  Subject:   A document in the making: all that its lines have contributed so far.

  A draft belongs to one document. It holds the variables, the classes and rules, the finished
  fragments of the stylesheet, and the diagnostics, each in order of arrival; `stylesheet` writes
  the stylesheet that it amounts to.
-/
import OutlineMarkup.Diagnostic
import OutlineMarkup.Settings
import OutlineMarkup.Style.ClassRegistry
import OutlineMarkup.Style.Rule

namespace OutlineMarkup

/-- What the lines of a document have contributed so far. -/
structure Draft where
  config : Config
  /-- The classes named so far. -/
  classes : ClassRegistry
  /-- The rules of the elements. -/
  utilities : RuleBlock := .empty
  /-- The text of finished directives. -/
  fragments : List Text := []
  /-- For each media query, the rules of directives that stand inside the element tree. -/
  inlineMedia : Table Text RuleBlock := .empty
  /-- The declared variables. -/
  declared : Table Text Text := .empty
  /-- For each animation, the declarations of its first step. -/
  initialStates : Table Text Text := .empty
  diagnostics : List Diagnostic := []
  deriving DecidableEq, Repr

namespace Draft

/-- The draft of a document without lines. -/
def empty (config : Config) : Draft := { config, classes := { stem := config.classStem } }

/-! ## 1. Variables and first steps -/

/-- Gives a variable a value. -/
def declare (d : Draft) (name value : Text) : Draft :=
  { d with declared := d.declared.insert name value }

/-- The variables in force: those declared, or the palette if there are none. -/
def effectiveVariables (d : Draft) : Table Text Text :=
  if d.declared.isEmpty then .ofList d.config.palette else d.declared

/-- Whether a variable has a value. -/
def isDeclared (d : Draft) (name : Text) : Bool := d.effectiveVariables.contains name

/-- Keeps the declarations of an animation's first step. -/
def setInitialState (d : Draft) (animation declarations : Text) : Draft :=
  { d with initialStates := d.initialStates.insert animation declarations }

/-- The declarations of an animation's first step; nothing if it has none. -/
def initialState (d : Draft) (animation : Text) : Text := (d.initialStates.get? animation).getD []

/-! ## 2. Diagnostics -/

/-- Adds one finding. -/
def report (d : Draft) (finding : Finding) (line : Option Int) : Draft :=
  { d with diagnostics := d.diagnostics ++ [⟨finding, line⟩] }

/-- Adds what a result reports. -/
def absorb {α : Type} (d : Draft) (r : Reported α) : Draft :=
  { d with diagnostics := d.diagnostics ++ r.diagnostics }

/-! ## 3. Rules -/

/-- Makes sure that a media query has a block of rules. -/
def openMedia (d : Draft) (query : Text) : Draft :=
  { d with inlineMedia := d.inlineMedia.alter query fun old => old.getD .empty }

/-- Adds a rule under a media query. -/
def addMediaRule (d : Draft) (query className declarations : Text)
    (selector : Option Text := none) : Draft :=
  { d with
    inlineMedia := d.inlineMedia.alter query fun old =>
      (old.getD .empty).add className declarations selector }

/-- The class of declarations, in a draft that knows it. -/
def classFor (d : Draft) (declarations : Text) : Except Fault (Text × Draft) := do
  let (name, classes) ← d.classes.classFor declarations
  return (name, { d with classes })

/-- The class of an element's declarations, in a draft that has its rule. -/
def addUtility (d : Draft) (declarations : Text) : Except Fault (Text × Draft) := do
  let (name, d) ← d.classFor declarations
  return (name, { d with utilities := d.utilities.add name declarations })

/-! ## 4. The stylesheet -/

/-- One line of a block: a property and its value. -/
def blockLine (property value : Text) : Text := "  " ++ property ++ ": " ++ value ++ ";"

/-- A block of a stylesheet: what it holds for, and its lines. -/
def block (selector : Text) (lines : List Text) : Text :=
  selector ++ " \x7b\n" ++ Text.join "\n" lines ++ "\n\x7d"

/-- The block that gives the variables their values. -/
def rootBlock (d : Draft) : Text :=
  block ":root" (d.effectiveVariables.entries.map fun v => blockLine ("--" ++ v.1) v.2)

/-- The declarations for the body of the page. -/
def bodyDeclarations : List (Text × Text) :=
  [("background-color", "var(--background)"), ("color", "var(--text)"), ("margin", "0"),
   ("padding", "0"), ("min-height", "100vh"),
   ("font-family", "system-ui, -apple-system, sans-serif")]

/-- The block for the body of the page. -/
def bodyBlock : Text := block "body" (bodyDeclarations.map fun p => blockLine p.1 p.2)

/-- The sections of the stylesheet: variables, body, rules of elements, directives, and the media
    queries of directives inside the element tree. -/
def sections (d : Draft) : List Text :=
  [d.rootBlock] ++
  (if d.config.baseline then [bodyBlock] else []) ++
  (if d.utilities.isEmpty then [] else [d.utilities.render]) ++
  d.fragments ++
  (d.inlineMedia.entries.filter fun e => !e.2.isEmpty).map fun e => e.2.renderMedia e.1

/-- The stylesheet: its sections with an empty line between neighbours. -/
def stylesheet (d : Draft) : Text := Text.join "\n\n" d.sections ++ "\n"

end Draft

end OutlineMarkup
