/-
  File:      OutlineMarkup/Settings.lean
  Subject:   What can be set about a compile, and which settings are accepted.
-/
import OutlineMarkup.Fault
import OutlineMarkup.Table

namespace OutlineMarkup

/-- The settings of a compile; the defaults are the standard dialect. -/
structure Settings where
  /-- The columns of one step of indentation. -/
  indentUnit : Int := 2
  /-- What every generated class name starts with. -/
  classStem : Text := "n-"
  /-- The id of the root element. -/
  rootId : Text := "app"
  /-- The duration of an animation that names none. -/
  animationDuration : Text := "1s"
  /-- What every animation ends with. -/
  animationTiming : Text := "ease-in-out forwards"
  /-- The media queries that have a name. -/
  breakpoints : Table Text Text :=
    .ofList [("mobile", "(max-width: 600px)"),
      ("tablet", "(min-width: 601px) and (max-width: 900px)")]
  /-- The variables of a document that declares none. -/
  palette : List (Text × Text) :=
    [("background", "#1a1a1a"), ("text", "#ffffff"), ("primary", "#9333ea"),
      ("secondary", "#4f46e5"), ("accent", "#06b6d4")]
  /-- Whether the stylesheet has a block for the body of the page. -/
  baseline : Bool := true
  deriving DecidableEq, Repr

/-- Accepted settings: lines can be indented and class names have a stem. -/
structure Config extends Settings where
  indentUnit_pos : 0 < indentUnit := by decide
  classStem_ne_nil : classStem ≠ [] := by decide
  deriving DecidableEq, Repr

/-- Accepts settings or says what is wrong with them, the indent unit first. -/
def Config.ofSettings (s : Settings) : Except Fault Config :=
  if hu : 0 < s.indentUnit then
    if hs : s.classStem ≠ [] then
      .ok { s with indentUnit_pos := hu, classStem_ne_nil := hs }
    else .error .emptyClassStem
  else .error .indentUnitNotPositive

/-- The accepted default settings. -/
def Config.default : Config := {}

end OutlineMarkup
