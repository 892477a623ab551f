/-
  File:      OutlineMarkup/Text/Casing.lean
  Subject:   Lower-casing of whole texts.

  Every character has its simple lower-case mapping, with two exceptions: `U+0130` (capital I with
  a dot) becomes `i` followed by the combining dot `U+0307`, and a capital sigma is written as the
  final sigma at the end of a word. A sigma ends a word if a cased character stands before it and
  none after it, where characters without weight for case (apostrophes, combining marks, ...) are
  passed over on both sides.
-/
import OutlineMarkup.Text.Basic
import OutlineMarkup.Text.CasingTable

namespace OutlineMarkup.Text

/-- Whether a run of the case table covers a code point. -/
def CaseRun.covers (r : CaseRun) (n : Nat) : Bool :=
  decide (r.first ≤ n) && decide (n ≤ r.last) && (n - r.first) % r.step == 0

/-- The simple lower-case mapping of one character. -/
def lowerChar (c : Char) : Char :=
  match caseRuns.find? (·.covers c.toNat) with
  | some r => Char.ofNat (c.toNat + r.shift).toNat
  | none => c

/-- Whether a text, read past characters without weight for case, starts with a cased one. -/
def startsCased (t : Text) : Bool :=
  match t.dropWhile fun c => inRanges caseIgnorableRanges c.toNat with
  | [] => false
  | c :: _ => inRanges casedRanges c.toNat

/-- Lower-cases the rest of a text, given the characters before it in reverse. -/
def lowerAfter (before : Text) : Text → Text
  | [] => []
  | c :: cs =>
    let lowered : Text :=
      if c = 'Σ' then
        if startsCased before && !startsCased cs then ['ς'] else ['σ']
      else if c = 'İ' then ['i', '̇']
      else [lowerChar c]
    lowered ++ lowerAfter (c :: before) cs

/-- The text in lower case. -/
def lower (t : Text) : Text := lowerAfter [] t

end OutlineMarkup.Text
