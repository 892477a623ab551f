/-
  File:      OutlineMarkup/Style/Resolve.lean
  Subject:   What a style key with its value declares.

  The value is trimmed, its references to variables are written out (and reported where there is no
  such variable), colours are brought to their usual form and bare numbers become pixels, as the key
  wants. A value that comes to nothing declares nothing.
-/
import OutlineMarkup.Draft
import OutlineMarkup.Style.Key
import OutlineMarkup.Style.Value

namespace OutlineMarkup

/-- Whether declarations win over others: those of directives do. -/
inductive Priority where
  | normal
  | forced
  deriving DecidableEq, Repr

/-- Gives declarations their priority. -/
def Priority.apply : Priority → List Declaration → List Declaration
  | .normal, ds => ds
  | .forced, ds => ds.map Declaration.forced

namespace Draft

/-- Writes references to variables out and reports the names without a value. -/
def substitute (d : Draft) (value : Text) (line : Option Int) : Reported Text where
  value := Style.substitute value
  diagnostics :=
    ((Style.references value).filter fun name => !d.isDeclared name).map
      fun name => ⟨.undeclaredVariable name, line⟩

/-- An animation's declaration: name and duration (or the default one) and the common timing. With a
    third word the declarations of its first step stand before it. -/
def animation (d : Draft) (value : Text) : List Declaration :=
  match Text.words value with
  | [] => []
  | name :: rest =>
    let duration := rest.headD d.config.animationDuration
    let initial := if 2 ≤ rest.length then Declaration.parseAll (d.initialState name) else []
    initial ++ [⟨"animation", name ++ " " ++ duration ++ " " ++ d.config.animationTiming, false⟩]

/-- What a key with a prepared value declares. -/
def declarationsOf (d : Draft) (key : StyleKey) (value : Text) : List Declaration :=
  match key with
  | .fontSize => [⟨"font-size", value, false⟩]
  | .textColor => [⟨"color", value, false⟩]
  | .background => [⟨"background-color", value, false⟩]
  | .padding => [⟨"padding", value, false⟩]
  | .borderRadius => [⟨"border-radius", value, false⟩]
  | .opacity => [⟨"opacity", value, false⟩]
  | .maxWidth => [⟨"max-width", value, false⟩]
  | .minWidth => [⟨"min-width", value, false⟩]
  | .width => [⟨"width", value, false⟩]
  | .height => [⟨"height", value, false⟩]
  | .gap => [⟨"gap", value, false⟩]
  | .display => [⟨"display", value, false⟩]
  | .transform => [⟨"transform", value, false⟩]
  | .direction =>
    if value = "col" ∨ value = "column" then
      [⟨"display", "flex", false⟩, ⟨"flex-direction", "column", false⟩]
    else if value = "row" then [⟨"display", "flex", false⟩, ⟨"flex-direction", "row", false⟩]
    else []
  | .align =>
    if value = "c" then [⟨"align-items", "center", false⟩, ⟨"justify-content", "center", false⟩]
    else [⟨"align-items", value, false⟩]
  | .wrap =>
    if value = "wrap" ∨ value = "nowrap" ∨ value = "wrap-reverse" then [⟨"flex-wrap", value, false⟩]
    else []
  | .animation => d.animation value

/-- The value of a key after references, in the form that the key wants. -/
def prepare (key : StyleKey) (value : Text) : Text :=
  let colored := if key.isColor then Style.normalizeColor value else value
  if key.inPixels then Style.toPixels colored else colored

/-- What a key with a raw value declares. -/
def resolve (d : Draft) (key : StyleKey) (value : Text) (priority : Priority) (line : Option Int) :
    Reported (List Declaration) := do
  let substituted ← d.substitute (Text.strip value) line
  let prepared := prepare key substituted
  return if prepared.isEmpty then [] else priority.apply (d.declarationsOf key prepared)

/-- The text of what a word with a raw value declares; nothing if the word is no style key. -/
def resolveWord (d : Draft) (word value : Text) (priority : Priority) (line : Option Int) :
    Reported Text :=
  match StyleKey.ofToken? word with
  | none => pure []
  | some key => do return Declaration.render (← d.resolve key value priority line)

end Draft

end OutlineMarkup
