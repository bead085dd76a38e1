import Mathlib

/-!
# Bit fields spread over words

A set of small numbers is often stored as an array of machine words, one bit a
member.  Member `i` of a field of `w`-bit words is bit `i % w` of
word `i / w`.  The file gives the two updates by mask, the mask of a run of
consecutive bits, and their effect on membership.

Main results:

- Theorems `getLsbD_setRun` and `getLsbD_clearRun`: what setting or
  clearing a run of bits does to every bit of a word.
- Theorem `bisect_spec`: searching a word by halving finds its lowest set bit.
- Theorems `BitField.test_insert` and `BitField.test_remove`: what the
  mask updates do to membership.
-/

namespace LteModemKernel.Lib

open BitVec Nat

/-! ## Runs of bits in one word -/

section Word

variable {w : Nat}

/-- The bit `i` of `ones <<< s`, where `ones` has its lowest
`k` bits set. -/
theorem getLsbD_run (ones : BitVec w) (k s i : Nat) (hones : ∀ j, ones.getLsbD j = decide (j < k)) :
    (ones <<< s).getLsbD i = (decide (i < w) && decide (s ≤ i ∧ i < s + k)) := by
  grind

theorem getLsbD_setRun (x ones : BitVec w) (k s i : Nat)
    (hones : ∀ j, ones.getLsbD j = decide (j < k)) (hi : i < w) :
    (x ||| ones <<< s).getLsbD i = (x.getLsbD i || decide (s ≤ i ∧ i < s + k)) := by
  rw [getLsbD_or, getLsbD_run ones k s i hones]
  simp [hi]

theorem getLsbD_clearRun (x ones : BitVec w) (k s i : Nat)
    (hones : ∀ j, ones.getLsbD j = decide (j < k)) (hi : i < w) :
    (x &&& (allOnes w ^^^ ones <<< s)).getLsbD i =
      (x.getLsbD i && !decide (s ≤ i ∧ i < s + k)) := by
  rw [getLsbD_and, getLsbD_xor, getLsbD_run ones k s i hones]
  simp [hi]

/-- The word whose lowest `k` bits are set. -/
def ones (w k : Nat) : BitVec w := BitVec.ofNat w (2 ^ k - 1)

theorem getLsbD_ones {k : Nat} (hk : k ≤ w) (j : Nat) : (ones w k).getLsbD j = decide (j < k) := by
  rw [ones, getLsbD_ofNat, testBit_two_pow_sub_one]
  grind

/-- A word is zero exactly when none of its bits is set. -/
theorem eq_zero_iff_getLsbD (x : BitVec w) : x = 0 ↔ ∀ i < w, x.getLsbD i = false := by
  constructor
  · intro h i _
    simp [h]
  · intro h
    apply eq_of_getLsbD_eq
    intro i hi
    simp [h i hi]

/-- A masked word is nonzero exactly when some bit of the run is set. -/
theorem and_run_ne_zero_iff (x : BitVec w) {k s : Nat} (hk : s + k ≤ w) :
    x &&& (ones w k <<< s) ≠ 0 ↔ ∃ i, s ≤ i ∧ i < s + k ∧ x.getLsbD i = true := by
  have hones := getLsbD_ones (w := w) (k := k) (by omega)
  rw [ne_eq, eq_zero_iff_getLsbD]
  simp only [getLsbD_and, getLsbD_run _ k s _ hones]
  grind

theorem and_bit_ne_zero_iff (x : BitVec w) {i : Nat} (hi : i < w) :
    x &&& (1#w <<< i) ≠ 0 ↔ x.getLsbD i = true := by
  have hone : ones w 1 = 1#w := rfl
  rw [← hone, and_run_ne_zero_iff x (succ_le_of_lt hi)]
  grind

/-- Search by halving: look for the lowest set bit among the `2 ^ d` bits
from `s` on, testing the lower half first. -/
def bisect : Nat → Nat → BitVec w → Nat
  | 0, s, _ => s
  | d + 1, s, x =>
    if x &&& (ones w (2 ^ d) <<< s) ≠ 0 then bisect d s x else bisect d (s + 2 ^ d) x

/-- If the searched run has a set bit, halving finds the lowest one. -/
theorem bisect_spec (x : BitVec w) (d s : Nat) (hw : s + 2 ^ d ≤ w)
    (hsome : ∃ i, s ≤ i ∧ i < s + 2 ^ d ∧ x.getLsbD i = true) :
    s ≤ bisect d s x ∧ bisect d s x < s + 2 ^ d ∧ x.getLsbD (bisect d s x) = true ∧
      ∀ j, s ≤ j → j < bisect d s x → x.getLsbD j = false := by
  induction d generalizing s with
  | zero =>
    obtain ⟨i, hs, hlt, hbit⟩ := hsome
    obtain rfl : i = s := by omega
    refine ⟨le_rfl, by simp [bisect], by simpa [bisect] using hbit, ?_⟩
    simp only [bisect]
    omega
  | succ d ih =>
    have hiff := and_run_ne_zero_iff x (k := 2 ^ d) (s := s) (by omega)
    simp only [bisect]
    split_ifs with hlow
    · obtain ⟨h1, h2, h3, h4⟩ := ih s (by omega) (hiff.mp hlow)
      exact ⟨h1, by omega, h3, h4⟩
    · -- the lower half is empty, so the bit and all candidates lie above it
      have hempty (j) (hj1 : s ≤ j) (hj2 : j < s + 2 ^ d) : x.getLsbD j = false := by
        by_contra hb
        exact hlow (hiff.mpr ⟨j, hj1, hj2, by simpa using hb⟩)
      obtain ⟨i, hs, hlt, hbit⟩ := hsome
      have hi : s + 2 ^ d ≤ i := by
        by_contra hi
        simp [hempty i hs (by omega)] at hbit
      obtain ⟨h1, h2, h3, h4⟩ := ih (s + 2 ^ d) (by omega) ⟨i, hi, by omega, hbit⟩
      refine ⟨by omega, by omega, h3, ?_⟩
      intro j hj1 hj2
      by_cases hj : j < s + 2 ^ d
      · exact hempty j hj1 hj
      · exact h4 j (by omega) hj2

end Word

/-! ## Fields of several words -/

/-- A field of `n` words of `w` bits each. -/
abbrev BitField (n w : Nat) : Type := Fin n → BitVec w

namespace BitField

variable {n w : Nat}

/-- The number of the word that holds member `i`. -/
def wordOf (i : Fin (n * w)) : Fin n :=
  ⟨i / w, Nat.div_lt_of_lt_mul (lt_of_lt_of_eq i.isLt (Nat.mul_comm n w))⟩

/-- Membership: bit `i % w` of word `i / w`. -/
def test (t : BitField n w) (i : Fin (n * w)) : Bool :=
  (t (wordOf i)).getLsbD (i % w)

/-- Bit `b` of word `k` is member `w * k + b`. -/
theorem test_of_bit (t : BitField n w) (k : Fin n) {b : Nat} (hb : b < w) {i : Fin (n * w)}
    (hi : (i : Nat) = w * k + b) : t.test i = (t k).getLsbD b := by
  have hword : wordOf i = k := by
    simp [wordOf, hi, mul_add_div (zero_lt_of_lt hb), div_eq_of_lt hb]
  rw [test, hword, hi, mul_add_mod, mod_eq_of_lt hb]

/-- Add a member with an OR mask. -/
def insert (t : BitField n w) (i : Fin (n * w)) : BitField n w :=
  Function.update t (wordOf i) (t (wordOf i) ||| (1#w <<< (i % w : Nat)))

/-- Remove a member with an AND mask. -/
def remove (t : BitField n w) (i : Fin (n * w)) : BitField n w :=
  Function.update t (wordOf i)
    (t (wordOf i) &&& (allOnes w ^^^ (1#w <<< (i % w : Nat))))

private theorem width_pos (i : Fin (n * w)) : 0 < w := by
  rcases Nat.eq_zero_or_pos w with rfl | h
  · exact absurd i.isLt (by simp)
  · exact h

private theorem one_getLsbD (hw : 0 < w) (j : Nat) : (1#w).getLsbD j = decide (j < 1) := by
  simp [getLsbD_one, hw]

/-- Two members share word and bit only if they are equal. -/
theorem eq_of_word_of_bit {i j : Fin (n * w)} (hword : wordOf i = wordOf j)
    (hbit : (i : Nat) % w = j % w) : i = j := by
  have hdiv : (i : Nat) / w = j / w := congrArg Fin.val hword
  apply Fin.ext
  rw [← div_add_mod (i : Nat) w, hdiv, hbit, div_add_mod]

private theorem bit_run_iff {i j : Fin (n * w)} (hword : wordOf j = wordOf i) :
    ((i : Nat) % w ≤ j % w ∧ (j : Nat) % w < i % w + 1) ↔ j = i := by
  constructor
  · intro h
    exact eq_of_word_of_bit hword (by omega)
  · rintro rfl
    omega

theorem test_insert (t : BitField n w) (i j : Fin (n * w)) :
    (t.insert i).test j = (t.test j || decide (j = i)) := by
  have hw := width_pos i
  unfold test insert
  by_cases hword : wordOf j = wordOf i
  · rw [hword, Function.update_self, getLsbD_setRun _ _ 1 _ _ (one_getLsbD hw) (mod_lt _ hw)]
    simp only [bit_run_iff hword]
  · have hne : j ≠ i := fun h => hword (by rw [h])
    rw [Function.update_of_ne hword]
    simp [hne]

theorem test_remove (t : BitField n w) (i j : Fin (n * w)) :
    (t.remove i).test j = (t.test j && !decide (j = i)) := by
  have hw := width_pos i
  unfold test remove
  by_cases hword : wordOf j = wordOf i
  · rw [hword, Function.update_self, getLsbD_clearRun _ _ 1 _ _ (one_getLsbD hw) (mod_lt _ hw)]
    simp only [bit_run_iff hword]
  · have hne : j ≠ i := fun h => hword (by rw [h])
    rw [Function.update_of_ne hword]
    simp [hne]

end BitField

end LteModemKernel.Lib
