/-
  File:      OutlineMarkup/Style/Key.lean
  Subject:   The closed set of style keys.
-/
import OutlineMarkup.Text.Basic

namespace OutlineMarkup

/-- What a style key is about. The declarations of an element are put together by category. -/
inductive Category where
  | sizing
  | spacing
  | color
  | flexLayout
  | animation
  | border
  | typography
  | opacity
  | transform
  deriving DecidableEq, Repr

/-- The name of a category. -/
def Category.label : Category → Text
  | .sizing => "sizing"
  | .spacing => "spacing"
  | .color => "color"
  | .flexLayout => "flex-layout"
  | .animation => "animation"
  | .border => "border"
  | .typography => "font-size"
  | .opacity => "opacity"
  | .transform => "transform"

/-- A style key. -/
inductive StyleKey where
  | fontSize
  | textColor
  | background
  | padding
  | borderRadius
  | opacity
  | maxWidth
  | minWidth
  | width
  | height
  | gap
  | direction
  | align
  | animation
  | display
  | wrap
  | transform
  deriving DecidableEq, Repr

namespace StyleKey

/-- All style keys. -/
def all : List StyleKey :=
  [.fontSize, .textColor, .background, .padding, .borderRadius, .opacity, .maxWidth, .minWidth,
   .width, .height, .gap, .direction, .align, .animation, .display, .wrap, .transform]

/-- How a key is written. -/
def token : StyleKey → Text
  | .fontSize => "s"
  | .textColor => "tc"
  | .background => "bg"
  | .padding => "pad"
  | .borderRadius => "br"
  | .opacity => "op"
  | .maxWidth => "maxw"
  | .minWidth => "minw"
  | .width => "w"
  | .height => "h"
  | .gap => "gap"
  | .direction => "dir"
  | .align => "align"
  | .animation => "anim"
  | .display => "disp"
  | .wrap => "wrap"
  | .transform => "trf"

/-- The category of a key. -/
def category : StyleKey → Category
  | .fontSize => .typography
  | .textColor | .background => .color
  | .padding | .gap => .spacing
  | .borderRadius => .border
  | .opacity => .opacity
  | .maxWidth | .minWidth | .width | .height => .sizing
  | .direction | .align | .display | .wrap => .flexLayout
  | .animation => .animation
  | .transform => .transform

/-- Whether bare numbers in the value are pixels: so for all keys that measure something. -/
def inPixels : StyleKey → Bool
  | .fontSize | .padding | .borderRadius | .maxWidth | .minWidth | .width | .height | .gap => true
  | _ => false

/-- Whether the value goes on over the words that follow. -/
def isMultiword : StyleKey → Bool
  | .animation => true
  | _ => false

/-- Whether the value is a colour. -/
def isColor : StyleKey → Bool
  | .textColor | .background => true
  | _ => false

/-- The style key that is written as the given word, if there is one. -/
def ofToken? (word : Text) : Option StyleKey := all.find? fun k => k.token == word

/-- Whether a word is written for a key whose value goes on over the words that follow. -/
def continues (word : Text) : Bool := (ofToken? word).any isMultiword

/-- Goes on with the value of the latest pair of a key and a value (latest first). -/
def extendLatest (word : Text) : List (Text × Text) → List (Text × Text)
  | [] => []
  | (key, value) :: earlier => (key, value ++ " " ++ word) :: earlier

end StyleKey

end OutlineMarkup
