/-
  File:      OutlineMarkup/Text/Units.lean
  Subject:   The 16-bit code units of a text.

  A character below `U+10000` is one unit, any other is a pair: a lead unit that carries the upper
  ten bits of its offset from `U+10000` and a trail unit that carries the lower ten.
-/
import OutlineMarkup.Text.Basic

namespace OutlineMarkup.Text

/-- The lead and trail unit of a code point at or above `0x10000`. -/
def unitPair (n : Nat) : Nat × Nat :=
  (0xd800 + (n - 0x10000) / 0x400, 0xdc00 + (n - 0x10000) % 0x400)

/-- The 16-bit units of one character. -/
def unitsOfChar (c : Char) : List Nat :=
  if c.toNat < 0x10000 then [c.toNat] else [(unitPair c.toNat).1, (unitPair c.toNat).2]

/-- The 16-bit units of a text. -/
def units16 (t : Text) : List Nat := t.flatMap unitsOfChar

end OutlineMarkup.Text
