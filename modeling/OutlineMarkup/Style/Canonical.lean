/-
  File:      OutlineMarkup/Style/Canonical.lean
  Subject:   The canonical form of declarations, and its hash.

  Two texts of declarations have the same canonical form if they hold the same declarations, in
  whatever order, with whatever blanks, important or not.
-/
import OutlineMarkup.Style.Declaration
import OutlineMarkup.Text.Units

namespace OutlineMarkup.Style

/-- A text with each run of blanks turned into one space, and none at its ends. -/
def collapse (t : Text) : Text := Text.join " " (Text.words t)

/-- The parts of a text of declarations: marks are taken out, blanks collapsed, empty parts left
    out. -/
def canonicalParts (t : Text) : List Text :=
  ((List.splitOn ';' (Text.replace Declaration.marker [] t)).map collapse).filter
    fun part => !part.isEmpty

/-- The canonical form: the parts in order of code points, with `; ` between them. -/
def canonical (t : Text) : Text := Text.join "; " (Text.sort (canonicalParts t))

/-- The number of different hashes: those of 32 bits. -/
def hashModulus : Nat := 4294967296

/-- One step of the hash: times 31 plus the next unit, as a signed number of 32 bits. -/
def hashStep (h : Int) (unit : Nat) : Int := (h * 31 + unit).bmod hashModulus

/-- The hash of a text: its 16-bit units as digits in base 31, as a signed number of 32 bits. -/
def hash (t : Text) : Int := (Text.units16 t).foldl hashStep 0

end OutlineMarkup.Style
