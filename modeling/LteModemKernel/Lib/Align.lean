import Mathlib

/-!
# Alignment by masks

Programs round a number down to a multiple of a power of two by clearing its low bits, and
test whether numbers are multiples by looking at their low bits.

Main results:

- Theorem `and_clearLow`: clearing the low bits rounds down.
- Theorem `or_and_ones_eq_zero`: two numbers without low bits are multiples.
-/

namespace LteModemKernel.Lib

open Nat

/-- The mask of the bits from `k` up to the width. -/
theorem and_clearLow {w k x : Nat} (hx : x < 2 ^ w) :
    x &&& (2 ^ (w - k) - 1) <<< k = x / 2 ^ k * 2 ^ k := by
  rw [← shiftLeft_eq, ← shiftRight_eq_div_pow]
  apply eq_of_testBit_eq
  intro i
  rw [testBit_and, testBit_shiftLeft, testBit_shiftLeft,
    testBit_two_pow_sub_one, testBit_shiftRight]
  by_cases hi : k ≤ i
  · rw [Nat.add_sub_cancel' hi]
    by_cases hi' : i - k < w - k
    · simp [hi, hi']
    · have hpow : 2 ^ w ≤ 2 ^ i := Nat.pow_le_pow_right (by decide) (by omega)
      have hbit : x.testBit i = false := testBit_lt_two_pow (hx.trans_le hpow)
      simp [hbit]
  · simp [hi]

theorem or_and_ones_eq_zero {k a b : Nat} :
    (a ||| b) &&& (2 ^ k - 1) = 0 ↔ a % 2 ^ k = 0 ∧ b % 2 ^ k = 0 := by
  rw [and_or_distrib_right, and_two_pow_sub_one_eq_mod, and_two_pow_sub_one_eq_mod]
  exact or_eq_zero_iff

end LteModemKernel.Lib
