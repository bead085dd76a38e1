import Mathlib

/-!
# Little-endian byte fields

A number stored in a packed structure is written as a fixed number of bytes, the
lowest one first.

Main results:

- Theorem `ofLeBytes_leBytes`: reading a written field gives the number back,
  modulo what the field can hold.
-/

namespace LteModemKernel.Lib

/-- The lowest `width` bytes of a number, lowest byte first. -/
def leBytes : (width : Nat) → Nat → List UInt8
  | 0, _ => []
  | width + 1, n => UInt8.ofNat n :: leBytes width (n / 256)

/-- The number written by a list of bytes, lowest byte first. -/
def ofLeBytes : List UInt8 → Nat
  | [] => 0
  | b :: rest => b.toNat + 256 * ofLeBytes rest

@[simp]
theorem leBytes_length (width n : Nat) : (leBytes width n).length = width := by
  induction width generalizing n with
  | zero => rfl
  | succ width ih => simp [leBytes, ih]

/-- A field of `width` bytes keeps a number modulo `256 ^ width`. -/
theorem ofLeBytes_leBytes (width n : Nat) : ofLeBytes (leBytes width n) = n % 256 ^ width := by
  induction width generalizing n with
  | zero => simp [leBytes, ofLeBytes, Nat.mod_one]
  | succ width ih =>
    have hbyte : (UInt8.ofNat n).toNat = n % 256 := by simp
    calc ofLeBytes (leBytes (width + 1) n)
        = (UInt8.ofNat n).toNat + 256 * ofLeBytes (leBytes width (n / 256)) := rfl
      _ = n % 256 + 256 * (n / 256 % 256 ^ width) := by rw [hbyte, ih]
      _ = n % 256 ^ (width + 1) := by rw [pow_succ', Nat.mod_mul]

theorem ofLeBytes_leBytes_of_lt {width n : Nat} (hn : n < 256 ^ width) :
    ofLeBytes (leBytes width n) = n := by
  rw [ofLeBytes_leBytes, Nat.mod_eq_of_lt hn]

end LteModemKernel.Lib
