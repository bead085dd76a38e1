import Mathlib

/-!
# Lists of intervals in increasing order

A list whose elements stand for half-open intervals of natural numbers is *ordered*
between two bounds if its intervals are not empty, follow each other without overlap and
stay between the bounds.  The definition walks through the list with a running lower
bound, so that a list that is cut in two, or extended at either end, is handled by one
equation.

Main results:

- Theorem `ordered_append`: an ordered list is cut at a bound in between.
- Theorem `Ordered.total_le`: the lengths add up to at most the distance of the
  bounds.
- Theorem `Ordered.covers_iff`: they add up to the whole distance exactly when every
  point between the bounds lies in one of the intervals.
-/

namespace LteModemKernel.Lib

open List

variable {α : Type*} (start stop : α → Nat)

/-- The intervals of the list lie between the bounds, one behind the other. -/
def Ordered : Nat → List α → Nat → Prop
  | lo, [], hi => lo ≤ hi
  | lo, x :: xs, hi => lo ≤ start x ∧ start x < stop x ∧ Ordered (stop x) xs hi

/-- The sum of the lengths. -/
def total (xs : List α) : Nat :=
  (xs.map fun x => stop x - start x).sum

/-- A point lies in one of the intervals. -/
def Covered (xs : List α) (p : Nat) : Prop :=
  ∃ x ∈ xs, start x ≤ p ∧ p < stop x

/-- The end of the last interval, or the lower bound if there is none. -/
def endOf (lo : Nat) : List α → Nat
  | [] => lo
  | x :: xs => endOf (stop x) xs

variable {start stop} {lo lo' hi hi' : Nat} {x : α} {xs ys : List α}

@[simp]
theorem ordered_nil : Ordered start stop lo [] hi ↔ lo ≤ hi :=
  .rfl

@[simp]
theorem ordered_cons :
    Ordered start stop lo (x :: xs) hi ↔
      lo ≤ start x ∧ start x < stop x ∧ Ordered start stop (stop x) xs hi :=
  .rfl

@[simp]
theorem total_nil : total start stop [] = 0 :=
  rfl

@[simp]
theorem total_cons : total start stop (x :: xs) = stop x - start x + total start stop xs :=
  sum_cons

@[simp]
theorem total_append : total start stop (xs ++ ys) = total start stop xs + total start stop ys := by
  rw [total, map_append, sum_append]
  rfl

theorem covered_cons {p : Nat} :
    Covered start stop (x :: xs) p ↔ (start x ≤ p ∧ p < stop x) ∨ Covered start stop xs p := by
  simp [Covered]

theorem endOf_eq (stop : α → Nat) (lo : Nat) (xs : List α) :
    endOf stop lo xs = match xs.getLast? with
      | none => lo
      | some x => stop x := by
  induction xs generalizing lo with
  | nil => rfl
  | cons x xs ih =>
    rw [endOf, ih]
    cases xs with
    | nil => rfl
    | cons y ys => rw [getLast?_cons_cons]; simp [getLast?_cons]

namespace Ordered

variable (h : Ordered start stop lo xs hi)
include h

theorem le : lo ≤ hi := by
  induction xs generalizing lo with
  | nil => exact h
  | cons x xs ih =>
    rcases h with ⟨hlo, hx, hxs⟩
    exact hlo.trans (hx.le.trans (ih hxs))

theorem mono (hlo : lo' ≤ lo) (hhi : hi ≤ hi') : Ordered start stop lo' xs hi' := by
  induction xs generalizing lo lo' with
  | nil => exact hlo.trans (h.trans hhi)
  | cons x xs ih => exact ⟨hlo.trans h.1, h.2.1, ih h.2.2 le_rfl⟩

/-- Every interval is not empty and stays between the bounds. -/
theorem of_mem (hx : x ∈ xs) : lo ≤ start x ∧ start x < stop x ∧ stop x ≤ hi := by
  induction xs generalizing lo with
  | nil => cases hx
  | cons y xs ih =>
    rcases h with ⟨hlo, hy, hxs⟩
    rcases mem_cons.mp hx with rfl | hx
    · exact ⟨hlo, hy, hxs.le⟩
    · rcases ih hxs hx with ⟨hstart, hlt, hstop⟩
      exact ⟨hlo.trans (hy.le.trans hstart), hlt, hstop⟩

theorem pairwise : xs.Pairwise fun a b => stop a ≤ start b := by
  induction xs generalizing lo with
  | nil => exact .nil
  | cons x xs ih => exact .cons (fun b hb => (of_mem h.2.2 hb).1) (ih h.2.2)

/-- The lengths add up to at most the distance of the bounds. -/
theorem total_le : lo + total start stop xs ≤ hi := by
  induction xs generalizing lo with
  | nil => exact h
  | cons x xs ih =>
    rcases h with ⟨hlo, hx, hxs⟩
    have htail := ih hxs
    rw [total_cons]
    omega

/-- The lengths add up to the whole distance exactly when every point between the bounds
lies in one of the intervals. -/
theorem covers_iff :
    lo + total start stop xs = hi ↔ ∀ p, lo ≤ p → p < hi → Covered start stop xs p := by
  induction xs generalizing lo with
  | nil =>
    constructor
    · intro heq p hlo hhi
      rw [total_nil] at heq
      omega
    · intro hcover
      by_contra hne
      have hlt : lo < hi := lt_of_le_of_ne (ordered_nil.mp h) hne
      rcases hcover lo le_rfl hlt with ⟨x, hx, -⟩
      cases hx
  | cons x xs ih =>
    rcases h with ⟨hlo, hx, hxs⟩
    have htail := ih hxs
    have hle := hxs.total_le
    rw [total_cons]
    constructor
    · intro heq p hp hp'
      have hstart : start x = lo := by omega
      rw [covered_cons]
      by_cases hpx : p < stop x
      · exact .inl ⟨hstart ▸ hp, hpx⟩
      · exact Or.inr (htail.mp (by omega) p (Nat.not_lt.mp hpx) hp')
    · intro hcover
      have hstop : stop x ≤ hi := hxs.le
      have hstart : start x = lo := by
        rcases covered_cons.mp (hcover lo le_rfl (by omega)) with hin | ⟨y, hy, hin⟩
        · omega
        · have hge := (of_mem hxs hy).1
          omega
      have htotal : stop x + total start stop xs = hi := by
        rw [htail]
        intro p hp hp'
        rcases covered_cons.mp (hcover p (by omega) hp') with hin | hin
        · omega
        · exact hin
      omega

theorem endOf : Ordered start stop lo xs (Lib.endOf stop lo xs) ∧ Lib.endOf stop lo xs ≤ hi := by
  induction xs generalizing lo with
  | nil => exact ⟨le_rfl, h⟩
  | cons x xs ih =>
    rcases ih h.2.2 with ⟨hxs, hle⟩
    exact ⟨⟨h.1, h.2.1, hxs⟩, hle⟩

end Ordered

/-- An ordered list is cut at a bound in between. -/
theorem ordered_append :
    Ordered start stop lo (xs ++ ys) hi ↔
      ∃ mid, Ordered start stop lo xs mid ∧ Ordered start stop mid ys hi := by
  induction xs generalizing lo with
  | nil =>
    constructor
    · intro h
      exact ⟨lo, le_rfl, h⟩
    · rintro ⟨mid, hlo, hys⟩
      exact hys.mono hlo le_rfl
  | cons x xs ih =>
    rw [cons_append, ordered_cons, ih]
    constructor
    · rintro ⟨hlo, hx, mid, hxs, hys⟩
      exact ⟨mid, ⟨hlo, hx, hxs⟩, hys⟩
    · rintro ⟨mid, ⟨hlo, hx, hxs⟩, hys⟩
      exact ⟨hlo, hx, mid, hxs, hys⟩

end LteModemKernel.Lib
