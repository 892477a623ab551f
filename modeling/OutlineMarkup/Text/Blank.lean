/-
  File:      OutlineMarkup/Text/Blank.lean
  Subject:   The characters that separate words and pad lines.

  A blank is one of 29 characters: the six space controls `U+0009 .. U+000D` and `U+0020`, the
  four information separators `U+001C .. U+001F`, `U+0085`, `U+00A0` and the space separators of
  the general punctuation and ideographic blocks. Zero-width characters (`U+200B`, `U+2060`,
  `U+FEFF`) and `U+180E` are not blanks.
-/

namespace OutlineMarkup.Text

/-- The blanks as closed ranges of code points, in rising order. -/
def blankRanges : List (Nat × Nat) :=
  [(0x09, 0x0d), (0x1c, 0x20), (0x85, 0x85), (0xa0, 0xa0), (0x1680, 0x1680), (0x2000, 0x200a),
   (0x2028, 0x2029), (0x202f, 0x202f), (0x205f, 0x205f), (0x3000, 0x3000)]

/-- Whether a code point lies in one of the given closed ranges. -/
def inRanges (ranges : List (Nat × Nat)) (n : Nat) : Bool :=
  ranges.any fun r => decide (r.1 ≤ n) && decide (n ≤ r.2)

/-- Whether a character is a blank. -/
def isBlank (c : Char) : Bool := inRanges blankRanges c.toNat

/-- Membership in a list of ranges is membership in one of them. -/
theorem inRanges_iff (ranges : List (Nat × Nat)) (n : Nat) :
    inRanges ranges n = true ↔ ∃ r ∈ ranges, r.1 ≤ n ∧ n ≤ r.2 := by
  simp [inRanges]

end OutlineMarkup.Text
