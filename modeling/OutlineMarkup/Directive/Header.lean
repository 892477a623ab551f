/-
  File:      OutlineMarkup/Directive/Header.lean
  Subject:   The first line of a directive: which kind of directive it opens.

  Tried in this order: the word `keyframes`, with a name after it; a word that names a breakpoint; a
  width written as `@maxw=<px>` or `@minw=<px>`. Anything else is unknown.
-/
import OutlineMarkup.Table
import OutlineMarkup.Text.Decimal

namespace OutlineMarkup.Directive

/-- The kinds of directives. -/
inductive Kind where
  | media (query : Text)
  | keyframes (name : Option Text)
  | unknown
  deriving DecidableEq, Repr

/-- The first line of a directive without its brace, and the kind it opens. -/
structure Header where
  text : Text
  kind : Kind
  deriving DecidableEq, Repr

/-- The bound of a width and the digits after it, if the text starts with `@maxw=` or `@minw=` and a
    decimal digit. -/
def widthQuery? (text : Text) : Option Text :=
  let query := fun (bound : Text) (rest : Text) =>
    let digits := rest.takeWhile Text.isDecimal
    if digits.isEmpty then none else some ("(" ++ bound ++ "-width: " ++ digits ++ "px)")
  let maxw : Text := "@maxw="
  let minw : Text := "@minw="
  if maxw.isPrefixOf text then query "max" (text.drop maxw.length)
  else if minw.isPrefixOf text then query "min" (text.drop minw.length)
  else none

/-- The kind of directive that a trimmed text opens. Its words are read without the first
    character. -/
def kindOf (breakpoints : Table Text Text) (text : Text) : Kind :=
  let words := Text.words (text.drop 1)
  let word := words.headD []
  if word = "keyframes" then .keyframes words[1]?
  else
    match breakpoints.get? word with
    | some query => .media query
    | none =>
      match widthQuery? text with
      | some query => .media query
      | none => .unknown

/-- Reads the first line of a directive. -/
def Header.read (breakpoints : Table Text Text) (text : Text) : Header :=
  let text := Text.strip text
  { text, kind := kindOf breakpoints text }

/-- How many words of the first line belong to the directive itself: the word of the directive, and
    the name of keyframes. -/
def Kind.ownWords : Kind → Nat
  | .keyframes _ => 2
  | _ => 1

end OutlineMarkup.Directive
