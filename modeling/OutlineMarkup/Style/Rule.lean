/-
  File:      OutlineMarkup/Style/Rule.lean
  Subject:   Rules of a stylesheet, one for each class.
-/
import OutlineMarkup.Table
import OutlineMarkup.Text.Basic

namespace OutlineMarkup

/-- What a rule says: its declarations, and the selectors it holds for beside its class. -/
structure Rule where
  declarations : Text
  selectors : List Text := []
  deriving DecidableEq, Repr

/-- A selector joins a rule once. -/
def Rule.addSelector (r : Rule) (selector : Option Text) : Rule :=
  match selector with
  | none => r
  | some s =>
    if s.isEmpty || r.selectors.contains s then r
    else { r with selectors := r.selectors ++ [s] }

/-- The text of a rule for a class. -/
def Rule.render (r : Rule) (className indent : Text) : Text :=
  indent ++ Text.join ", " (('.' :: className) :: r.selectors) ++
    " \x7b " ++ r.declarations ++ " \x7d"

/-- Rules by class, in order of their classes' first arrival. -/
structure RuleBlock where
  rules : Table Text Rule
  deriving DecidableEq, Repr

namespace RuleBlock

/-- A block without rules. -/
def empty : RuleBlock := ⟨.empty⟩

/-- Adds a rule for a class, which has no effect if there is one; then the selector joins the rule
    of the class. -/
def add (b : RuleBlock) (className declarations : Text) (selector : Option Text := none) :
    RuleBlock :=
  ⟨b.rules.alter className fun old => (old.getD { declarations }).addSelector selector⟩

/-- Whether a class has a rule. -/
def contains (b : RuleBlock) (className : Text) : Bool := b.rules.contains className

/-- The number of rules. -/
def size (b : RuleBlock) : Nat := b.rules.size

/-- Whether there is no rule. -/
def isEmpty (b : RuleBlock) : Bool := b.rules.isEmpty

/-- The rules, one to a line. -/
def render (b : RuleBlock) (indent : Text := []) : Text :=
  Text.join "\n" (b.rules.entries.map fun e => e.2.render e.1 indent)

/-- The rules inside a media query. -/
def renderMedia (b : RuleBlock) (query : Text) : Text :=
  "@media " ++ query ++ " \x7b\n" ++ b.render "  " ++ "\n\x7d"

end RuleBlock

end OutlineMarkup
