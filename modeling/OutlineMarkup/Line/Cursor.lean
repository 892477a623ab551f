/-
  File:      OutlineMarkup/Line/Cursor.lean
  Subject:   A reading position in a list of lines.

  The cursor is the pair of what has been read and what is ahead, so that reading on is a step on a
  list and the position is a length.
-/
import OutlineMarkup.Line.Basic

namespace OutlineMarkup

/-- A reading position: the number of lines read so far and the lines ahead. -/
structure Cursor where
  position : Nat
  ahead : List Line
  deriving DecidableEq, Repr

namespace Cursor

/-- The position before the first of the given lines. -/
def ofLines (lines : List Line) : Cursor := ⟨0, lines⟩

/-- Whether all lines are read. -/
def atEnd (c : Cursor) : Bool := c.ahead.isEmpty

/-- The number of lines, read and ahead. -/
def length (c : Cursor) : Nat := c.position + c.ahead.length

/-- The next line, if there is one. -/
def peek? (c : Cursor) : Option Line := c.ahead.head?

/-- The next lines with content, at most `count` of them. -/
def upcoming (c : Cursor) (count : Int) : List Line :=
  (c.ahead.filter fun l => !l.isSkippable).take count.toNat

/-- The next line with content, if there is one. -/
def peekContent? (c : Cursor) : Option Line := (c.upcoming 1).head?

/-- Reads the next line. -/
def next (c : Cursor) : Except Fault (Line × Cursor) :=
  match c.ahead with
  | [] => .error .noMoreLines
  | l :: rest => .ok (l, ⟨c.position + 1, rest⟩)

/-- Passes over the next `n` lines, or to the end. -/
def skip (c : Cursor) (n : Nat) : Cursor :=
  ⟨c.position + (c.ahead.take n).length, c.ahead.drop n⟩

end Cursor

end OutlineMarkup
