import Mathlib

/-!
# Chains of next pointers

A singly linked list without a sentinel: each cell points to the next one, the last one to
nothing.

Main results:

- Theorem `Linked.congr`: a chain depends on the pointers of its own cells.
- Theorem `Linked.snoc`: a cell is linked behind the last one.
-/

namespace LteModemKernel.Lib

open List

variable {ι : Type*} {next next' : ι → Option ι} {a : ι} {xs : List ι}

/-- The given cells, in this order, form a chain that ends. -/
def Linked (next : ι → Option ι) : List ι → Prop
  | [] => True
  | a :: xs => next a = xs.head? ∧ Linked next xs

/-- A chain depends on the pointers of its own cells. -/
theorem Linked.congr (h : Linked next xs) (hnext : ∀ b ∈ xs, next' b = next b) :
    Linked next' xs := by
  induction xs with
  | nil => trivial
  | cons b xs ih =>
    refine ⟨?_, ih h.2 fun c hc => hnext c (mem_cons_of_mem b hc)⟩
    rw [hnext b mem_cons_self]
    exact h.1

theorem Linked.next_of_append {ys : List ι} (h : Linked next (xs ++ a :: ys)) :
    next a = ys.head? := by
  induction xs with
  | nil => exact h.1
  | cons b xs ih => exact ih h.2

/-- A new cell is linked behind the last one. -/
theorem Linked.snoc [DecidableEq ι] (h : Linked next xs) (hnodup : xs.Nodup) (ha : a ∉ xs)
    {last : ι} (hlast : ∀ e ∈ xs.getLast?, e = last) :
    Linked (Function.update (Function.update next last (some a)) a none) (xs ++ [a]) := by
  induction xs with
  | nil => exact ⟨Function.update_self .., trivial⟩
  | cons b xs ih =>
    obtain ⟨hb, hxs⟩ := nodup_cons.mp hnodup
    have hba : b ≠ a := fun heq => ha (heq ▸ mem_cons_self)
    cases xs with
    | nil =>
      have hbl : b = last := hlast b rfl
      subst hbl
      refine ⟨?_, ?_, trivial⟩
      · simp [Function.update_of_ne hba]
      · simp
    | cons c xs =>
      have hbl : b ≠ last := by
        rw [← hlast _ (getLast?_eq_some_getLast (cons_ne_nil c xs))]
        exact fun heq => hb (heq ▸ getLast_mem _)
      refine ⟨?_, ih h.2 hxs (fun hmem => ha (mem_cons_of_mem b hmem)) hlast⟩
      rw [Function.update_of_ne hba, Function.update_of_ne hbl, h.1]
      rfl

end LteModemKernel.Lib
