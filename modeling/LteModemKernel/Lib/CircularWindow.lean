import Mathlib

/-!
# Windows of a circular array

The contents of a ring buffer are a window of a circular array: the slots from a
start index on, taken modulo the size of the array.

Main results:

- Theorem `window_drop`: dropping symbols moves the start of the window.
- Theorem `window_push`: writing the slot behind the window and extending the
  window appends a symbol.
-/

namespace LteModemKernel.Lib

variable {α : Type*}

/-- The `count` slots from `start` on in a circular array of `n` slots. -/
def window (n : Nat) (buf : Nat → α) (start count : Nat) : List α :=
  (List.range count).map fun i => buf ((start + i) % n)

@[simp]
theorem length_window (n : Nat) (buf : Nat → α) (start count : Nat) :
    (window n buf start count).length = count := by
  simp [window]

theorem window_succ (n : Nat) (buf : Nat → α) (start count : Nat) :
    window n buf start (count + 1) = window n buf start count ++ [buf ((start + count) % n)] := by
  simp [window, List.range_succ]

theorem getElem_window (n : Nat) (buf : Nat → α) (start count i : Nat)
    (h : i < (window n buf start count).length) :
    (window n buf start count)[i] = buf ((start + i) % n) := by
  simp [window]

theorem window_drop (n : Nat) (buf : Nat → α) (start count k : Nat) :
    (window n buf start count).drop k = window n buf ((start + k) % n) (count - k) := by
  apply List.ext_getElem
  · simp
  · intro i h1 h2
    rw [List.getElem_drop, getElem_window, getElem_window, Nat.mod_add_mod, Nat.add_assoc]

/-- The slot behind a window that does not fill the array lies outside it. -/
theorem window_update (n : Nat) (buf : Nat → α) (start count : Nat) (hcount : count < n) (a : α) :
    window n (Function.update buf ((start + count) % n) a) start count =
      window n buf start count := by
  apply List.ext_getElem
  · simp
  · intro i h1 h2
    rw [length_window] at h1
    rw [getElem_window, getElem_window]
    apply Function.update_of_ne
    intro heq
    have hmod : i % n = count % n := Nat.ModEq.add_left_cancel' start heq
    rw [Nat.mod_eq_of_lt (by omega), Nat.mod_eq_of_lt hcount] at hmod
    omega

theorem window_push (n : Nat) (buf : Nat → α) (start count : Nat) (hcount : count < n) (a : α) :
    window n (Function.update buf ((start + count) % n) a) start (count + 1) =
      window n buf start count ++ [a] := by
  rw [window_succ, window_update n buf start count hcount, Function.update_self]

end LteModemKernel.Lib
