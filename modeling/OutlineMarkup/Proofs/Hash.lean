/-
  File:      OutlineMarkup/Proofs/Hash.lean
  Subject:   The hash of a text is a polynomial in its 16-bit units.

  `Utf16` says what the units of a text are, without dividing: a pair of units stands for the
  character that it makes up. A text has exactly one such list of units (`utf16_iff`).

  * `hash_eq_wordHash`: the hash is the loop over the units in words of 32 bits, shifting and
    subtracting, with the word read as a signed number at the end;
  * `foldl_hashStep_modEq`: one step is congruent to times 31 plus the unit, so the steps add up to
    the polynomial, whatever wraps around in between;
  * **`hash_polynomial`**: the range of the hash, the polynomial, and the hash of a joined text.
-/
import Mathlib.Algebra.BigOperators.Group.Finset.Basic
import Mathlib.Data.Int.ModEq
import Mathlib.Tactic.Ring
import OutlineMarkup.Style.Canonical

namespace OutlineMarkup

/-! ## 1. The units of a text -/

namespace Text

/-- The 16-bit units of a text: a character below `U+10000` is its own unit; any other is a lead
    unit and a trail unit, each with ten bits of its offset from `U+10000`. -/
inductive Utf16 : Text → List Nat → Prop where
  | nil : Utf16 [] []
  | single {c : Char} {t : Text} {us : List Nat} (small : c.toNat < 0x10000) (rest : Utf16 t us) :
      Utf16 (c :: t) (c.toNat :: us)
  | pair {c : Char} {lead trail : Nat} {t : Text} {us : List Nat}
      (lead_range : 0xd800 ≤ lead ∧ lead < 0xdc00) (trail_range : 0xdc00 ≤ trail ∧ trail < 0xe000)
      (makes_up : c.toNat = 0x10000 + (lead - 0xd800) * 0x400 + (trail - 0xdc00))
      (rest : Utf16 t us) : Utf16 (c :: t) (lead :: trail :: us)

theorem units16_cons (c : Char) (t : Text) : units16 (c :: t) = unitsOfChar c ++ units16 t := rfl

theorem units16_append (s t : Text) : units16 (s ++ t) = units16 s ++ units16 t :=
  List.flatMap_append

theorem utf16_units16 (t : Text) : Utf16 t (units16 t) := by
  induction t with
  | nil => exact .nil
  | cons c t ih =>
    rw [units16_cons, unitsOfChar]
    split
    · rename_i small
      exact .single small ih
    · rename_i large
      have hvalid : c.toNat < 0xd800 ∨ 0xdfff < c.toNat ∧ c.toNat < 0x110000 := c.valid
      refine .pair ?_ ?_ ?_ ih
      · simp only [unitPair]
        omega
      · simp only [unitPair]
        omega
      · simp only [unitPair]
        omega

/-- **A text has exactly one list of units.** -/
theorem utf16_iff {t : Text} {us : List Nat} : Utf16 t us ↔ us = units16 t := by
  constructor
  · intro h
    induction h with
    | nil => rfl
    | single small _ ih => rw [units16_cons, unitsOfChar, if_pos small, ih]; rfl
    | @pair c lead trail _ _ hlead htrail makes_up _ ih =>
      have hpair : unitPair c.toNat = (lead, trail) := by
        simp only [unitPair, Prod.mk.injEq]
        omega
      rw [units16_cons, unitsOfChar, if_neg (by omega), hpair, ih]
      rfl
  · rintro rfl
    exact utf16_units16 t

end Text

namespace Style

open Text

/-! ## 2. In words of 32 bits -/

/-- One step of the hash in words of 32 bits: five bits to the left, minus the word itself, plus the
    unit. -/
def wordStep (w : BitVec 32) (unit : Nat) : BitVec 32 := (w <<< 5) - w + BitVec.ofNat 32 unit

/-- The hash of some units in words of 32 bits. -/
def wordHash (us : List Nat) : BitVec 32 := us.foldl wordStep 0#32

/-- Shifting and subtracting multiplies by 31. -/
theorem wordStep_eq (w : BitVec 32) (unit : Nat) :
    wordStep w unit = BitVec.ofInt 32 (w.toInt * 31 + unit) := by
  have hmul : (w <<< 5) - w = w * BitVec.ofInt 32 31 := by
    rw [show BitVec.ofInt 32 31 = 31#32 from rfl]
    bv_omega
  rw [wordStep, hmul, BitVec.ofInt_add, BitVec.ofInt_mul, BitVec.ofInt_toInt, BitVec.ofInt_natCast]

theorem hashStep_toInt (w : BitVec 32) (unit : Nat) :
    hashStep w.toInt unit = (wordStep w unit).toInt := by
  rw [wordStep_eq, BitVec.toInt_ofInt]
  rfl

theorem foldl_hashStep_toInt (us : List Nat) (w : BitVec 32) :
    us.foldl hashStep w.toInt = (us.foldl wordStep w).toInt := by
  induction us generalizing w with
  | nil => rfl
  | cons u us ih => rw [List.foldl_cons, List.foldl_cons, hashStep_toInt, ih]

/-- **The hash is the one in words, read as a signed number.** -/
theorem hash_eq_wordHash (t : Text) : hash t = (wordHash (units16 t)).toInt :=
  foldl_hashStep_toInt (units16 t) 0#32

/-! ## 3. As a polynomial -/

/-- The polynomial at 31 with the units as its coefficients, the last one without a power of 31. -/
def polynomial (us : List Nat) : Int :=
  ∑ i ∈ Finset.range us.length, (us.getD i 0 : Int) * 31 ^ (us.length - 1 - i)

theorem polynomial_cons (u : Nat) (us : List Nat) :
    polynomial (u :: us) = u * 31 ^ us.length + polynomial us := by
  rw [polynomial, List.length_cons, Finset.sum_range_succ', Int.add_comm]
  congr 1
  refine Finset.sum_congr rfl fun i _ => ?_
  rw [List.getD_cons_succ, Nat.add_sub_cancel, Nat.sub_add_eq, Nat.sub_right_comm]

theorem hashStep_modEq (h : Int) (u : Nat) : hashStep h u ≡ h * 31 + u [ZMOD 2 ^ 32] :=
  Int.bmod_emod

/-- **The steps add up to the polynomial**, behind the value that they start from. -/
theorem foldl_hashStep_modEq (us : List Nat) (h : Int) :
    us.foldl hashStep h ≡ h * 31 ^ us.length + polynomial us [ZMOD 2 ^ 32] := by
  induction us generalizing h with
  | nil =>
    rw [polynomial]
    simp
  | cons u us ih =>
    calc us.foldl hashStep (hashStep h u)
        ≡ hashStep h u * 31 ^ us.length + polynomial us [ZMOD 2 ^ 32] := ih _
      _ ≡ (h * 31 + u) * 31 ^ us.length + polynomial us [ZMOD 2 ^ 32] :=
        ((hashStep_modEq h u).mul_right _).add_right _
      _ = h * 31 ^ (u :: us).length + polynomial (u :: us) := by
        rw [polynomial_cons, List.length_cons]
        ring

theorem hash_modEq (t : Text) : hash t ≡ polynomial (units16 t) [ZMOD 2 ^ 32] := by
  have h := foldl_hashStep_modEq (units16 t) 0
  rw [zero_mul, zero_add] at h
  exact h

theorem hash_append_modEq (s t : Text) :
    hash (s ++ t) ≡ hash s * 31 ^ (units16 t).length + hash t [ZMOD 2 ^ 32] := by
  have hrun : hash (s ++ t) = (units16 t).foldl hashStep (hash s) := by
    rw [hash, units16_append, List.foldl_append]
    rfl
  rw [hrun]
  exact (foldl_hashStep_modEq (units16 t) (hash s)).trans ((hash_modEq t).symm.add_left _)

/-- **The hash of a text is the polynomial of its units at 31, as a signed number of 32 bits.** A
    text has exactly one list of units, from which the hash is computed in words of 32 bits. It lies
    between the bounds of a signed number and is congruent to the polynomial, so that the hash of a
    joined text comes from the hashes of its parts. -/
theorem hash_polynomial (t : Text) :
    ∃ us, (∀ vs, Utf16 t vs ↔ vs = us) ∧
      hash t = (wordHash us).toInt ∧
      -2 ^ 31 ≤ hash t ∧ hash t < 2 ^ 31 ∧
      hash t ≡ polynomial us [ZMOD 2 ^ 32] ∧
      ∀ s, hash (s ++ t) ≡ hash s * 31 ^ us.length + hash t [ZMOD 2 ^ 32] := by
  have hword := hash_eq_wordHash t
  refine ⟨units16 t, fun vs => utf16_iff, hword, ?_, ?_, hash_modEq t,
    fun s => hash_append_modEq s t⟩
  · rw [hword]
    exact BitVec.le_toInt _
  · rw [hword]
    exact BitVec.toInt_lt

-- three characters above `U+FFFF` are six units, and the sum wraps around to a negative number
example : hash (List.replicate 3 (Char.ofNat 0x1f600)) = -1662520855 := by decide

end Style

end OutlineMarkup
