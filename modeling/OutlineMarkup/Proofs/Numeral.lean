/-
  File:      OutlineMarkup/Proofs/Numeral.lean
  Subject:   Numerals in base 36 are positional, and every number has exactly one.

  A number is divided by 36 until nothing is left of it, and the remainders are its digits, the
  lowest first. So a numeral is the list of the digits of its number, written from the end.

  * `iterate_divisionPass`: the passes of the division come to an end, one for every digit;
    `base36Before_eq_digits`: what is written in a bounded number of steps, if they suffice;
  * `isBase36_base36`, `base36Value_base36`: what is written is a numeral, and of the right value;
  * `base36_base36Value`: a numeral is what is written for its value;
  * **`base36_positional`**: all of this together, so the numerals and the numbers correspond.
-/
import Mathlib.Data.Nat.Digits.Lemmas
import Mathlib.Data.Set.Function
import OutlineMarkup.Proofs.ClassNames

namespace OutlineMarkup.Text

/-! ## 1. Digits -/

/-- Whether a character is a digit in base 36: `0` to `9` or `a` to `z`. -/
def isBase36Digit (c : Char) : Bool :=
  (decide ('0' ≤ c) && decide (c ≤ '9')) || (decide ('a' ≤ c) && decide (c ≤ 'z'))

theorem isBase36Digit_iff {c : Char} :
    isBase36Digit c = true ↔ ('0' ≤ c ∧ c ≤ '9') ∨ ('a' ≤ c ∧ c ≤ 'z') := by
  simp [isBase36Digit]

/-- A character of a run is the first one of the run and some places more. -/
theorem eq_ofNat_of_run {first last c : Char} (h : first ≤ c ∧ c ≤ last) :
    ∃ d ≤ last.toNat - first.toNat,
      c.toNat = first.toNat + d ∧ c = Char.ofNat (first.toNat + d) := by
  have hlow : first.toNat ≤ c.toNat := h.1
  have hhigh : c.toNat ≤ last.toNat := h.2
  have e : c.toNat = first.toNat + (c.toNat - first.toNat) := by omega
  refine ⟨c.toNat - first.toNat, by omega, e, ?_⟩
  rw [← e, Char.ofNat_toNat]

theorem digitValue_of_decimal {c : Char} (h : '0' ≤ c ∧ c ≤ '9') :
    digitValue c = c.toNat - '0'.toNat := by
  have hall : ∀ d ≤ 9, digitValue (Char.ofNat ('0'.toNat + d)) = d := by decide +kernel
  obtain ⟨d, hd, hcode, rfl⟩ := eq_ofNat_of_run h
  rw [hall d hd, hcode, Nat.add_sub_cancel_left]

theorem digitValue_of_letter {c : Char} (h : 'a' ≤ c ∧ c ≤ 'z') :
    digitValue c = c.toNat - 'a'.toNat + 10 := by
  have hall : ∀ d ≤ 25, digitValue (Char.ofNat ('a'.toNat + d)) = d + 10 := by decide +kernel
  obtain ⟨d, hd, hcode, rfl⟩ := eq_ofNat_of_run h
  rw [hall d hd, hcode, Nat.add_sub_cancel_left]

theorem digitValue_lt {c : Char} (h : isBase36Digit c = true) : digitValue c < 36 := by
  rcases isBase36Digit_iff.mp h with hc | hc
  · have hhigh : c.toNat ≤ 57 := hc.2
    rw [digitValue_of_decimal hc, show '0'.toNat = 48 from rfl]
    omega
  · have hhigh : c.toNat ≤ 122 := hc.2
    rw [digitValue_of_letter hc, show 'a'.toNat = 97 from rfl]
    omega

theorem base36Digit_digitValue {c : Char} (h : isBase36Digit c = true) :
    base36Digit (digitValue c) = c := by
  have hlt : digitValue c < base36Alphabet.length := digitValue_lt h
  rw [base36Digit, List.getD_eq_getElem?_getD, List.getElem?_eq_getElem hlt, Option.getD_some]
  exact List.getElem_idxOf hlt

theorem isBase36Digit_base36Digit {d : Nat} (h : d < 36) :
    isBase36Digit (base36Digit d) = true := by
  have hall : ∀ d < 36, isBase36Digit (base36Digit d) = true := by decide +kernel
  exact hall d h

/-! ## 2. Division -/

/-- One pass of the division: what is left is divided by 36, and the digit of the remainder comes
    behind those that were found before. -/
def divisionPass (state : Nat × Text) : Nat × Text :=
  (state.1 / 36, state.2 ++ [base36Digit (state.1 % 36)])

theorem fst_iterate_divisionPass (k : Nat) (state : Nat × Text) :
    (divisionPass^[k] state).1 = state.1 / 36 ^ k := by
  induction k with
  | zero => simp
  | succ k ih =>
    rw [Function.iterate_succ_apply', divisionPass, ih, Nat.div_div_eq_div_mul, Nat.pow_succ]

/-- **The passes come to an end**: after one pass for every digit, nothing is left of the number. -/
theorem iterate_divisionPass (n : Nat) (found : Text) :
    divisionPass^[(Nat.digits 36 n).length] (n, found) =
      (0, found ++ (Nat.digits 36 n).map base36Digit) := by
  induction n using Nat.strong_induction_on generalizing found with
  | _ n ih =>
    rcases Nat.eq_zero_or_pos n with rfl | hn
    · simp
    · rw [Nat.digits_def' (by decide) hn, List.length_cons, Function.iterate_succ_apply,
        divisionPass, ih (n / 36) (Nat.div_lt_self hn (by decide)), List.append_assoc]
      rfl

/-- The digits are written from the end, if the steps suffice for all of them. -/
theorem base36Before_eq_digits {steps n : Nat} (hn : n ≠ 0) (h : n < 36 ^ (steps + 1))
    (tail : Text) :
    base36Before steps n tail = ((Nat.digits 36 n).map base36Digit).reverse ++ tail := by
  -- every step takes one digit off the number and one power off its bound
  induction steps generalizing n tail with
  | zero =>
    have hsmall : n < 36 := h
    rw [base36Before, Nat.digits_of_lt 36 n hn hsmall, Nat.mod_eq_of_lt hsmall]
    rfl
  | succ steps ih =>
    rw [base36Before]
    split
    · rename_i hsmall
      rw [Nat.digits_of_lt 36 n hn hsmall]
      rfl
    · have hdiv : n / 36 < 36 ^ (steps + 1) := Nat.div_lt_of_lt_mul (by rwa [Nat.pow_succ'] at h)
      rw [ih (by omega) hdiv, Nat.digits_def' (by decide) (Nat.pos_of_ne_zero hn), List.map_cons,
        List.reverse_cons, List.append_assoc]
      rfl

theorem base36_of_ne_zero {n : Nat} (hn : n ≠ 0) :
    base36 n = ((Nat.digits 36 n).map base36Digit).reverse := by
  have hsteps : n < 36 ^ (n + 1) :=
    (Nat.lt_succ_self n).trans (Nat.lt_pow_self (by decide))
  rw [base36, base36Before_eq_digits hn hsteps, List.append_nil]

theorem length_base36 {n : Nat} (hn : n ≠ 0) : (base36 n).length = (Nat.digits 36 n).length := by
  rw [base36_of_ne_zero hn, List.length_reverse, List.length_map]

/-- The division finds the digits of the numeral, the last one first. -/
theorem iterate_divisionPass_base36 (n : Nat) :
    divisionPass^[(base36 n).length] (n, []) = (0, (base36 n).reverse) := by
  rcases eq_or_ne n 0 with rfl | hn
  · rfl
  · rw [length_base36 hn, iterate_divisionPass, base36_of_ne_zero hn, List.reverse_reverse,
      List.nil_append]

/-- Before its last pass, the division has something left to divide. -/
theorem fst_iterate_divisionPass_ne_zero {n k : Nat} (hn : n ≠ 0) (hk : k < (base36 n).length) :
    (divisionPass^[k] (n, [])).1 ≠ 0 := by
  rw [length_base36 hn, Nat.lt_digits_length_iff (by decide)] at hk
  rw [fst_iterate_divisionPass]
  exact (Nat.div_pos hk (Nat.pow_pos (by decide))).ne'

/-- More steps than there are digits change nothing. -/
theorem base36Before_eq_base36 {steps n : Nat} (h : (base36 n).length ≤ steps + 1) :
    base36Before steps n [] = base36 n := by
  rcases eq_or_ne n 0 with rfl | hn
  · cases steps <;> rfl
  · rw [length_base36 hn, Nat.digits_length_le_iff (by decide)] at h
    rw [base36Before_eq_digits hn h, base36_of_ne_zero hn, List.append_nil]

/-! ## 3. Numerals -/

/-- The numerals in base 36: texts of digits that start with `0` only if that is all of them. -/
structure IsBase36 (t : Text) : Prop where
  ne_nil : t ≠ []
  digits : ∀ c ∈ t, isBase36Digit c = true
  lead : t.head? = some '0' → t = ['0']

/-- The value of a text in base 36: the last digit counts once, and every other one counts 36 times
    as much as the next. -/
def base36Value (t : Text) : Nat := Nat.ofDigits 36 (t.reverse.map digitValue)

theorem readOn_zero (t : Text) : readOn 0 t = base36Value t := by
  rw [base36Value, Nat.ofDigits_eq_foldr, List.foldr_map, List.foldr_reverse, readOn]
  simp [Nat.add_comm, Nat.mul_comm]

theorem base36Value_base36 (n : Nat) : base36Value (base36 n) = n := by
  rw [← readOn_zero, readOn_base36]

/-- The highest digit of a number is not zero. -/
theorem head?_base36 {n : Nat} : (base36 n).head? = some '0' ↔ n = 0 := by
  constructor
  · intro h
    by_contra hn
    have hne : Nat.digits 36 n ≠ [] := Nat.digits_ne_nil_iff_ne_zero.mpr hn
    rw [base36_of_ne_zero hn, List.head?_reverse, List.getLast?_map,
      List.getLast?_eq_some_getLast hne, Option.map_some, Option.some.injEq] at h
    have hlt := Nat.digits_lt_base (by decide) (List.getLast_mem hne)
    have hzero := (digitValue_base36Digit hlt).symm.trans (congrArg digitValue h)
    exact Nat.getLast_digit_ne_zero 36 hn hzero
  · rintro rfl
    rfl

theorem isBase36_base36 (n : Nat) : IsBase36 (base36 n) where
  ne_nil := base36Before_ne_nil n n []
  digits c hc := by
    rcases eq_or_ne n 0 with rfl | hn
    · rw [List.mem_singleton.mp hc]
      rfl
    · rw [base36_of_ne_zero hn, List.mem_reverse] at hc
      obtain ⟨d, hd, rfl⟩ := List.mem_map.mp hc
      exact isBase36Digit_base36Digit (Nat.digits_lt_base (by decide) hd)
  lead h := by
    rw [head?_base36.mp h]
    rfl

/-- The digits of a numeral are the digits of its value. -/
theorem IsBase36.digits_base36Value {t : Text} (h : IsBase36 t) (hne : t ≠ ['0']) :
    Nat.digits 36 (base36Value t) = t.reverse.map digitValue := by
  refine Nat.digits_ofDigits 36 (by decide) _ ?_ ?_
  · intro d hd
    obtain ⟨c, hc, rfl⟩ := List.mem_map.mp hd
    exact digitValue_lt (h.digits c (List.mem_reverse.mp hc))
  · intro hnil hlast
    rw [List.getLast_map, List.getLast_reverse] at hlast
    have hmem := List.head_mem h.ne_nil
    -- a digit of value zero is the character `0`
    have hhead : t.head h.ne_nil = '0' := by
      rw [← base36Digit_digitValue (h.digits _ hmem), hlast]
      rfl
    exact hne (h.lead (by rw [List.head?_eq_some_head h.ne_nil, hhead]))

/-- **A numeral is what is written for its value.** -/
theorem base36_base36Value {t : Text} (h : IsBase36 t) : base36 (base36Value t) = t := by
  rcases eq_or_ne t ['0'] with rfl | hne
  · rfl
  · have hdigits := h.digits_base36Value hne
    have hpos : base36Value t ≠ 0 := by
      rw [← Nat.digits_ne_nil_iff_ne_zero (b := 36), hdigits]
      simpa using h.ne_nil
    have hback : (t.reverse.map digitValue).map base36Digit = t.reverse := by
      rw [List.map_map]
      refine (List.map_congr_left fun c hc => ?_).trans (List.map_id _)
      exact base36Digit_digitValue (h.digits c (List.mem_reverse.mp hc))
    rw [base36_of_ne_zero hpos, hdigits, hback, List.reverse_reverse]

/-- **Numerals in base 36 are positional, and every number has exactly one.** The digits have the
    values 0 to 35 in their order. Dividing a number by 36 again and again ends after as many passes
    as its numeral has digits (one pass for zero), and not before, with nothing left and these
    digits found, the last one first; so the bound on the steps of writing never cuts a numeral
    short. What is written is a numeral, has a leading zero for the number zero only, and has the
    number as its value; and any numeral is written for its value. So numbers and numerals
    correspond. -/
theorem base36_positional :
    ((∀ c, '0' ≤ c ∧ c ≤ '9' → digitValue c = c.toNat - '0'.toNat) ∧
      ∀ c, 'a' ≤ c ∧ c ≤ 'z' → digitValue c = c.toNat - 'a'.toNat + 10) ∧
    (∀ n, divisionPass^[(base36 n).length] (n, []) = (0, (base36 n).reverse) ∧
      (n ≠ 0 → ∀ k < (base36 n).length, (divisionPass^[k] (n, [])).1 ≠ 0) ∧
      ∀ steps, (base36 n).length ≤ steps + 1 → base36Before steps n [] = base36 n) ∧
    (∀ n, IsBase36 (base36 n) ∧ ((base36 n).head? = some '0' ↔ n = 0) ∧
      base36Value (base36 n) = n) ∧
    (∀ t, IsBase36 t → base36 (base36Value t) = t) ∧
    Set.BijOn base36 Set.univ {t | IsBase36 t} := by
  refine ⟨⟨fun c => digitValue_of_decimal, fun c => digitValue_of_letter⟩, fun n => ⟨?_, ?_, ?_⟩,
    fun n => ⟨isBase36_base36 n, head?_base36, base36Value_base36 n⟩, fun t => base36_base36Value,
    fun n _ => isBase36_base36 n, base36_injective.injOn, ?_⟩
  · exact iterate_divisionPass_base36 n
  · exact fun hn k => fst_iterate_divisionPass_ne_zero hn
  · exact fun steps => base36Before_eq_base36
  · exact fun t ht => ⟨base36Value t, Set.mem_univ _, base36_base36Value ht⟩

/-- A numeral of three digits with a zero inside, written with the fewest steps that suffice. -/
theorem base36_positional_inner_zero :
    ('0' ≤ '7' ∧ '7' ≤ '9') ∧ digitValue '7' = 7 ∧ ('a' ≤ 'z' ∧ 'z' ≤ 'z') ∧ digitValue 'z' = 35 ∧
      (base36 9107).length = 3 ∧ (∀ k < 3, (divisionPass^[k] (9107, [])).1 ≠ 0) ∧
      base36Before 2 9107 [] = "70z" ∧
      IsBase36 "70z" ∧ base36Value "70z" = 9107 ∧ base36 (base36Value "70z") = "70z" := by
  obtain ⟨⟨hdecimal, hletter⟩, hends, -, hback, -⟩ := base36_positional
  obtain ⟨-, hleft, hsteps⟩ := hends 9107
  have hnumeral : IsBase36 "70z" :=
    ⟨by decide, List.all_eq_true.mp (by decide), by decide⟩
  exact ⟨by decide, hdecimal '7' (by decide), by decide, hletter 'z' (by decide), by decide,
    hleft (by decide), hsteps 2 (by decide), hnumeral, by decide, hback _ hnumeral⟩

end OutlineMarkup.Text
