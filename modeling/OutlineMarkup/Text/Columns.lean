/-
  File:      OutlineMarkup/Text/Columns.lean
  Subject:   Tab stops: how wide a tab is depends on the column it stands in.

  The width between two tab stops is a signed number of 32 bits. A unit of indentation can be any
  integer, so it has to be turned into a width first, and one out of range is refused.
-/
import OutlineMarkup.Fault

namespace OutlineMarkup.Text

/-- The tab width for a unit of indentation, if there is one so wide. -/
def tabWidth (unit : Int) : Except Fault Int32 :=
  if Int32.minValue.toInt ≤ unit ∧ unit ≤ Int32.maxValue.toInt then .ok (Int32.ofInt unit)
  else .error .tabWidthOutOfRange

/-- Replaces tabs by spaces, given the column reached so far: a tab fills up to the next multiple
    of `unit`, a line feed or carriage return goes back to column 0, any other character is one
    column wide. With unit 0 a tab is no column wide and disappears. -/
def expandTabsFrom (unit : Nat) : Nat → Text → Text
  | _, [] => []
  | column, c :: cs =>
    if c = '\t' then
      let fill := unit - column % unit
      List.replicate fill ' ' ++ expandTabsFrom unit (column + fill) cs
    else if c = '\n' ∨ c = '\r' then c :: expandTabsFrom unit 0 cs
    else c :: expandTabsFrom unit (column + 1) cs

/-- Replaces every tab by the spaces up to the next tab stop. A width of 0 or less removes the
    tabs. -/
def expandTabs (width : Int32) (t : Text) : Text := expandTabsFrom width.toNatClampNeg 0 t

end OutlineMarkup.Text
