/-
  File:      OutlineMarkup/Text/Numeral.lean
  Subject:   Numbers in text: decimal numerals of integers, and naturals in base 36.
-/
import OutlineMarkup.Text.Basic

namespace OutlineMarkup.Text

/-- The decimal numeral of a natural number. -/
def ofNat (n : Nat) : Text := Nat.toDigits 10 n

/-- The decimal numeral of an integer, with a minus sign if it is negative. -/
def ofInt : Int → Text
  | .ofNat n => ofNat n
  | .negSucc n => '-' :: ofNat (n + 1)

/-- The 36 digits in order of value. -/
def base36Alphabet : Text := "0123456789abcdefghijklmnopqrstuvwxyz"

/-- The digit of value `d`, for `d` below 36. -/
def base36Digit (d : Nat) : Char := base36Alphabet.getD d '0'

/-- Writes the digits of `n` before `tail`, highest first. Each step divides by 36, so `n` steps
    always reach a single digit. -/
def base36Before : Nat → Nat → Text → Text
  | 0, n, tail => base36Digit (n % 36) :: tail
  | steps + 1, n, tail =>
    if n < 36 then base36Digit n :: tail
    else base36Before steps (n / 36) (base36Digit (n % 36) :: tail)

/-- The numeral of a natural number in base 36, with the digits `0-9a-z`. -/
def base36 (n : Nat) : Text := base36Before n n []

end OutlineMarkup.Text
