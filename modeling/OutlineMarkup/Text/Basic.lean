/-
  File:      OutlineMarkup/Text/Basic.lean
  Subject:   Text as a list of characters: trimming, cutting, joining, replacing.

  All of the compiler works on `Text`, the list of a document's characters, so that lengths,
  columns and order are counted in characters and every function is plain recursion on a list. A
  character is a Unicode scalar value: a text is valid Unicode, without lone surrogates. Strings
  appear only as literals (through the coercion below) and at the outer layer.
-/
import OutlineMarkup.Text.Blank

namespace OutlineMarkup

/-- A text: its characters in order, which are Unicode scalar values. -/
abbrev Text := List Char

instance : Coe String Text := ⟨String.toList⟩

namespace Text

/-! ## 1. Trimming -/

/-- Drops the longest tail whose characters all satisfy `p`. -/
def dropTailWhile (p : Char → Bool) (t : Text) : Text := (t.reverse.dropWhile p).reverse

/-- The text without its leading blanks. -/
def stripLeft (t : Text) : Text := t.dropWhile isBlank

/-- The text without its leading and trailing blanks. -/
def strip (t : Text) : Text := dropTailWhile isBlank (stripLeft t)

/-! ## 2. Cutting into pieces -/

/-- The words of a text: its maximal runs of characters that are not blank. -/
def words (t : Text) : List Text := (t.splitOnP isBlank).filter fun w => !w.isEmpty

/-- The text left after the first `n` words and the blanks that follow them. -/
def afterWords : Nat → Text → Text
  | 0, t => stripLeft t
  | n + 1, t => afterWords n ((stripLeft t).dropWhile fun c => !isBlank c)

/-- The parts before and after the first occurrence of a separator, if it occurs. -/
def cut? (sep : Char) (t : Text) : Option (Text × Text) :=
  match t.dropWhile (· ≠ sep) with
  | [] => none
  | _ :: after => some (t.takeWhile (· ≠ sep), after)

/-- The part before the last occurrence of a separator; nothing if it does not occur. -/
def beforeLast (sep : Char) (t : Text) : Text := (dropTailWhile (· ≠ sep) t).dropLast

/-! ## 3. Joining, searching and replacing -/

/-- The pieces in order with a separator between neighbours. -/
def join (sep : Text) (pieces : List Text) : Text := sep.intercalate pieces

/-- Whether `part` occurs in a text as consecutive characters. -/
def contains (part : Text) : Text → Bool
  | [] => part.isEmpty
  | c :: cs => part.isPrefixOf (c :: cs) || contains part cs

/-- Replaces occurrences from left to right; the counter says how many characters of the
    occurrence just replaced are still to be passed over. -/
def replaceFrom (part new : Text) : Nat → Text → Text
  | _, [] => []
  | k + 1, _ :: cs => replaceFrom part new k cs
  | 0, c :: cs =>
    if part.isPrefixOf (c :: cs) then new ++ replaceFrom part new (part.length - 1) cs
    else c :: replaceFrom part new 0 cs

/-- Replaces every occurrence of a non-empty `part`, left to right and without overlap. -/
def replace (part new : Text) (t : Text) : Text := replaceFrom part new 0 t

/-- Counts occurrences from left to right; the counter is that of `replaceFrom`. -/
def countFrom (part : Text) : Nat → Text → Nat
  | _, [] => 0
  | k + 1, _ :: cs => countFrom part k cs
  | 0, c :: cs =>
    if part.isPrefixOf (c :: cs) then countFrom part (part.length - 1) cs + 1
    else countFrom part 0 cs

/-- The number of occurrences of a non-empty `part`, left to right and without overlap. -/
def count (part : Text) (t : Text) : Nat := countFrom part 0 t

/-! ## 4. Order -/

/-- Whether the first text comes no later than the second, code point by code point. -/
def le : Text → Text → Bool
  | [], _ => true
  | _ :: _, [] => false
  | a :: as, b :: bs => if a = b then le as bs else decide (a.toNat < b.toNat)

/-- Puts a text before the first one that it does not come after. -/
def insertSorted (t : Text) : List Text → List Text
  | [] => [t]
  | u :: us => if le t u then t :: u :: us else u :: insertSorted t us

/-- The texts in order of code points. -/
def sort (ts : List Text) : List Text := ts.foldr insertSorted []

end Text

end OutlineMarkup
