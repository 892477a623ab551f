/-
  File:      OutlineMarkup/Element/Tag.lean
  Subject:   Which tag an element gets.

  A known code stands for a tag. The generic container `c`, and any code that is not known, gets its
  tag from what the element says about itself: the rules of `inference` are tried in order and the
  first that applies wins. If none does, an element with children is a section unless one of its
  classes marks it as a box of the layout, and all else is a `div`.
-/
import OutlineMarkup.Text.Casing
import OutlineMarkup.Token.Shape

namespace OutlineMarkup

/-- The codes and their tags. -/
def elementTags : List (Text × Text) :=
  [("p", "p"), ("h1", "h1"), ("h2", "h2"), ("h3", "h3"), ("h4", "h4"), ("h5", "h5"), ("h6", "h6"),
   ("c", "div"), ("sec", "section"), ("art", "article"), ("aside", "aside"), ("main", "main"),
   ("nav", "nav"), ("head", "header"), ("foot", "footer"), ("a", "a"), ("btn", "button"),
   ("ul", "ul"), ("ol", "ol"), ("li", "li"), ("fig", "figure"), ("cap", "figcaption"),
   ("time", "time"), ("mark", "mark")]

/-- The code of the generic container. -/
def genericCode : Text := "c"

/-- The tag that a code stands for, if it is known. -/
def tagOfCode? (code : Text) : Option Text := elementTags.lookup code

/-! ## Inference -/

/-- What an element says about itself, in lower case. -/
structure Evidence where
  classes : Text
  id : Text
  text : Text
  hasChildren : Bool
  deriving DecidableEq, Repr

/-- Where an inference rule looks. -/
inductive Source where
  /-- At the classes and the id. -/
  | names
  /-- At the text. -/
  | text
  deriving DecidableEq, Repr

/-- A rule of inference: the tag if one of the keywords occurs where the rule looks. -/
structure InferenceRule where
  tag : Text
  keywords : List Text
  source : Source := .names
  needsChildren : Bool := false
  deriving DecidableEq, Repr

/-- The rules of inference, in the order in which they are tried. -/
def inference : List InferenceRule :=
  [{ tag := "header", keywords := ["banner", "header"] },
   { tag := "footer", keywords := ["footer"] },
   { tag := "nav", keywords := ["nav"] },
   { tag := "aside", keywords := ["aside", "sidebar"] },
   { tag := "footer", keywords := ["copyright", "©", "footer"], source := .text },
   { tag := "nav", keywords := ["menu", "navigation"], source := .text },
   { tag := "article", keywords := ["card", "article"], needsChildren := true },
   { tag := "section", keywords := ["section"], needsChildren := true }]

/-- Whether a rule applies to an element. -/
def InferenceRule.applies (r : InferenceRule) (e : Evidence) : Bool :=
  let found := fun text => r.keywords.any fun keyword => Text.contains keyword text
  (!r.needsChildren || e.hasChildren) &&
    match r.source with
    | .names => found e.classes || found e.id
    | .text => found e.text

/-- The words in a class that mark a box of the layout. -/
def layoutMarkers : List Text := ["wrapper", "container"]

/-- The tag of an element without a code of its own. -/
def inferTag (e : Evidence) : Text :=
  match inference.find? (·.applies e) with
  | some r => r.tag
  | none =>
    let isLayout := layoutMarkers.any fun m => Text.contains m e.classes
    if e.hasChildren && !isLayout then "section" else "div"

/-- The tag of an element: that of its code, a `div` if a selector stands for the code, and else
    what can be inferred. -/
def classify (code : Text) (classes : List Text) (id : Text) (text : Option Text)
    (hasChildren : Bool) : Text :=
  let inferred := fun (_ : Unit) =>
    inferTag
      { classes := Text.lower (Text.join " " classes)
        id := Text.lower id
        text := Text.lower (text.getD [])
        hasChildren }
  if Token.isSelector code then "div"
  else if code = genericCode then inferred ()
  else
    match tagOfCode? code with
    | some tag => tag
    | none => inferred ()

/-- The selector that the first word of a directive's rule stands for: a code means its tag, a
    selector stays as it is, and anything else is taken for a tag. -/
def ruleSelector (word : Text) : Text :=
  if Token.isSelector word then word else (tagOfCode? word).getD (Text.lower word)

end OutlineMarkup
