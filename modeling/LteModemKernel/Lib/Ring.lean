import LteModemKernel.Lib.CircularWindow

/-!
# Rings between two indices

A ring of `n` slots whose contents lie between a read and a write index.  Equal indices
mean an empty ring, so one slot always stays free.

Main results:

- Theorem `ring_push`: writing the slot at the write index and moving it on appends.
- Theorem `ring_pop`: moving the read index on takes the front away.
- Theorem `ring_drop`: moving it by several slots drops as many.
-/

namespace LteModemKernel.Lib

open List Fin Nat

variable {α : Type*} {n : Nat}

/-- The slots from `start` up to `stop`, taken modulo the size of the array. -/
def ring (buf : Nat → α) (start stop : Fin n) : List α :=
  window n buf start (stop - start).val

@[simp]
theorem length_ring (buf : Nat → α) (start stop : Fin n) :
    (ring buf start stop).length = (stop - start).val :=
  length_window n buf start _

theorem getElem_ring (buf : Nat → α) (start stop : Fin n) (i : Nat)
    (h : i < (ring buf start stop).length) : (ring buf start stop)[i] = buf ((start.val + i) % n) :=
  getElem_window n buf start _ i h

theorem length_ring_lt (buf : Nat → α) (start stop : Fin n) : (ring buf start stop).length < n := by
  rw [length_ring]
  exact (stop - start).isLt

variable [NeZero n] {start stop : Fin n}

@[simp]
theorem ring_self (buf : Nat → α) (start : Fin n) : ring buf start start = [] := by
  apply eq_nil_of_length_eq_zero
  rw [length_ring, sub_self, val_zero]

theorem val_sub_pos (h : start ≠ stop) : 0 < (stop - start).val := by
  apply Nat.pos_of_ne_zero
  intro hzero
  exact h (sub_eq_zero.mp (val_eq_zero_iff.mp hzero)).symm

theorem ring_ne_nil (buf : Nat → α) (h : start ≠ stop) : ring buf start stop ≠ [] := by
  apply length_pos_iff.mp
  rw [length_ring]
  exact val_sub_pos h

theorem add_length_mod (start stop : Fin n) : (start.val + (stop - start).val) % n = stop.val := by
  have h : start + (stop - start) = stop := add_sub_cancel start stop
  have hval := congrArg val h
  rwa [val_add] at hval

section Push

theorem val_one_of_lt (hn : 1 < n) : ((1 : Fin n) : Nat) = 1 := by
  exact mod_eq_of_lt hn

theorem val_succ_sub (h : (stop - start).val + 1 < n) :
    (stop + 1 - start).val = (stop - start).val + 1 := by
  rw [add_sub_right_comm, val_add, val_one_of_lt (by omega)]
  exact mod_eq_of_lt h

theorem one_le_sub (h : start ≠ stop) : (1 : Fin n) ≤ stop - start := by
  have hpos := val_sub_pos h
  rw [le_def, val_one_of_lt (by omega)]
  exact hpos

theorem val_sub_succ (h : start ≠ stop) : (stop - (start + 1)).val = (stop - start).val - 1 := by
  rw [← sub_sub, sub_val_of_le (one_le_sub h), val_one_of_lt (by omega)]

/-- Where the write index cannot meet the read index, one more slot is free. -/
theorem val_sub_succ_lt (h : stop + 1 ≠ start) : (stop - start).val + 1 < n := by
  by_contra hge
  apply h
  have hone : 1 = n ∨ ((1 : Fin n) : Nat) = 1 := by
    rcases lt_or_ge 1 n with hn | hn
    · exact .inr (val_one_of_lt hn)
    · exact .inl (by omega)
  apply sub_eq_zero.mp
  apply Fin.ext
  rcases hone with hn | hone
  · have hzero := (stop + 1 - start).isLt
    omega
  · rw [add_sub_right_comm, val_add, hone, val_zero,
      show (stop - start).val + 1 = n by omega, mod_self]

theorem ring_push (buf : Nat → α) (h : (stop - start).val + 1 < n) (a : α) :
    ring (Function.update buf stop a) start (stop + 1) = ring buf start stop ++ [a] := by
  unfold ring
  rw [val_succ_sub h, ← window_push n buf start (stop - start).val (by omega) a, add_length_mod]

theorem ring_drop (buf : Nat → α) {k : Fin n} (hk : k ≤ stop - start) :
    (ring buf start stop).drop k = ring buf (start + k) stop := by
  unfold ring
  rw [window_drop, val_add, ← sub_sub, sub_val_of_le hk]

/-- Moving the read index on takes the front away. -/
theorem ring_pop (buf : Nat → α) (h : start ≠ stop) :
    ring buf start stop = buf start :: ring buf (start + 1) stop := by
  have hlength : 0 < (ring buf start stop).length := length_pos_iff.mpr (ring_ne_nil buf h)
  have hlt := length_ring_lt buf start stop
  have hdrop := ring_drop buf (one_le_sub h)
  rw [val_one_of_lt (by omega)] at hdrop
  calc ring buf start stop
      = (ring buf start stop)[0] :: (ring buf start stop).drop 1 := by
        rw [getElem_cons_drop, drop_zero]
    _ = buf start :: ring buf (start + 1) stop := by
        rw [hdrop, getElem_ring, add_zero, mod_eq_of_lt start.isLt]

end Push

end LteModemKernel.Lib
