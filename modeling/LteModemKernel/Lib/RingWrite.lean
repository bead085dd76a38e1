import LteModemKernel.Lib.CircularWindow

/-!
# Blocks in a circular array

A block of symbols is written to a circular array at once, around its end if need be.  In
memory this takes two copies.

Main results:

- Theorem `ringWrite_append`: writing one block behind another is writing both at once.
- Theorem `blit_blit`: two copies write a block around the end.
- Theorem `window_ringWrite`: a block that was written is found again.
- Theorem `window_ringWrite_of_disjoint`: the symbols before a block are left alone.
-/

namespace LteModemKernel.Lib

open List Nat

variable {α : Type*} {n start : Nat} {xs ys : List α}

theorem mod_cases {a : Nat} (h : a < 2 * n) : a % n = a ∧ a < n ∨ a % n + n = a := by
  rcases lt_or_ge a n with hlt | hge
  · exact .inl ⟨mod_eq_of_lt hlt, hlt⟩
  · refine .inr ?_
    rw [mod_eq_sub_mod hge, mod_eq_of_lt (by omega)]
    omega

/-- A copy of a list to the slots from `off` on. -/
def blit (buf : Nat → α) (off : Nat) (xs : List α) : Nat → α :=
  fun i => if off ≤ i then (xs[i - off]?).getD (buf i) else buf i

/-- A block is written to a circular array of `n` slots from `start` on. -/
def ringWrite (n : Nat) (buf : Nat → α) (start : Nat) (xs : List α) : Nat → α :=
  fun i => if i < n then (xs[(i + n - start) % n]?).getD (buf i) else buf i

theorem ringWrite_nil (n : Nat) (buf : Nat → α) (start : Nat) : ringWrite n buf start [] = buf := by
  funext i
  simp [ringWrite]

/-- Writing one block behind another is writing both at once. -/
theorem ringWrite_append (buf : Nat → α) (hstart : start < n) (hlen : xs.length + ys.length ≤ n) :
    ringWrite n (ringWrite n buf start xs) ((start + xs.length) % n) ys
      = ringWrite n buf start (xs ++ ys) := by
  funext i
  simp only [ringWrite]
  by_cases hi : i < n
  · simp only [if_pos hi]
    have hnext := mod_cases (a := start + xs.length) (n := n) (by omega)
    generalize (start + xs.length) % n = next at hnext ⊢
    have hfirst := mod_cases (a := i + n - start) (n := n) (by omega)
    generalize (i + n - start) % n = d at hfirst ⊢
    have hsecond := mod_cases (a := i + n - next) (n := n) (by omega)
    generalize (i + n - next) % n = d' at hsecond ⊢
    by_cases hd : d < xs.length
    · -- a slot of the first block is not among those of the second one
      have hnone : ys[d']? = none := getElem?_eq_none (by omega)
      rw [getElem?_append_left hd, hnone]
      rfl
    · rw [getElem?_append_right (by omega), getElem?_eq_none (l := xs) (by omega)]
      rcases lt_or_ge d' ys.length with hd' | hd'
      · have hidx : d' = d - xs.length := by omega
        rw [hidx]
        rfl
      · rw [getElem?_eq_none hd', getElem?_eq_none (by omega)]
        rfl
  · simp [if_neg hi]

/-- A copy that ends before the end of the array. -/
theorem blit_eq_ringWrite (buf : Nat → α) {off : Nat} (hoff : off < n) (hxs : off + xs.length ≤ n) :
    blit buf off xs = ringWrite n buf off xs := by
  funext i
  simp only [blit, ringWrite]
  by_cases hi : i < n
  · have hmod := mod_cases (a := i + n - off) (n := n) (by omega)
    rw [if_pos hi]
    by_cases hle : off ≤ i
    · have hidx : (i + n - off) % n = i - off := by omega
      rw [if_pos hle, hidx]
    · have hnone : xs[(i + n - off) % n]? = none := getElem?_eq_none (by omega)
      rw [if_neg hle, hnone]
      rfl
  · have hnone : xs[i - off]? = none := getElem?_eq_none (by omega)
    rw [if_neg hi, if_pos (by omega), hnone]
    rfl

theorem blit_blit (buf : Nat → α) {off : Nat} (hoff : off < n) (hxs : off + xs.length = n)
    (hys : xs.length + ys.length ≤ n) :
    blit (blit buf off xs) 0 ys = ringWrite n buf off (xs ++ ys) := by
  have hwrap : (off + xs.length) % n = 0 := by rw [hxs, mod_self]
  rw [blit_eq_ringWrite buf hoff (by omega), blit_eq_ringWrite _ (n := n) (by omega) (by omega),
    ← ringWrite_append buf hoff hys, hwrap]

theorem window_append (n : Nat) (buf : Nat → α) (start a b : Nat) :
    window n buf start (a + b) = window n buf start a ++ window n buf ((start + a) % n) b := by
  simp only [window, range_add, map_append, map_map]
  congr 1
  apply map_congr_left
  intro i _
  simp [add_assoc]

/-- The slot at a distance from the start of the block. -/
theorem ringWrite_slot (buf : Nat → α) {k : Nat} (hstart : start < n) (hk : k < n) :
    ringWrite n buf start xs ((start + k) % n) = (xs[k]?).getD (buf ((start + k) % n)) := by
  have hlt : (start + k) % n < n := mod_lt _ (by omega)
  have hslot := mod_cases (a := start + k) (n := n) (by omega)
  have hback := mod_cases (a := (start + k) % n + n - start) (n := n) (by omega)
  have hidx : ((start + k) % n + n - start) % n = k := by omega
  simp [ringWrite, if_pos hlt, hidx]

/-- From the start of a block on lie its symbols and those behind it. -/
theorem window_ringWrite_append (buf : Nat → α) {count : Nat} (hstart : start < n)
    (hcount : count ≤ n) : window n (ringWrite n buf start xs) start count =
      (xs ++ window n buf (start + xs.length) count).take count := by
  apply ext_getElem
  · simp
  · intro i hi _
    rw [length_window] at hi
    rw [getElem_window, ringWrite_slot buf hstart (by omega), getElem_take, getElem_append]
    split
    · next hlt => rw [getElem?_eq_getElem hlt, Option.getD_some]
    · next hge =>
      have hsum : start + xs.length + (i - xs.length) = start + i := by omega
      rw [getElem?_eq_none (Nat.le_of_not_lt hge), Option.getD_none, getElem_window, hsum]

/-- A block that was written is found again. -/
theorem window_ringWrite (buf : Nat → α) (hstart : start < n) (hxs : xs.length ≤ n) :
    window n (ringWrite n buf start xs) start xs.length = xs := by
  rw [window_ringWrite_append buf hstart hxs, take_left]

/-- The symbols before a block are left alone, as far as the block does not come round to them. -/
theorem window_ringWrite_of_disjoint (buf : Nat → α) {first count : Nat} (hfirst : first < n)
    (hlen : count + xs.length ≤ n) :
    window n (ringWrite n buf ((first + count) % n) xs) first count = window n buf first count := by
  apply ext_getElem
  · rw [length_window, length_window]
  · intro i hi _
    rw [length_window] at hi
    rw [getElem_window, getElem_window]
    have hlt : (first + i) % n < n := mod_lt _ (by omega)
    have hslot := mod_cases (a := first + i) (n := n) (by omega)
    have hstart := mod_cases (a := first + count) (n := n) (by omega)
    have hdist := mod_cases (a := (first + i) % n + n - (first + count) % n) (n := n) (by omega)
    have hnone : xs[((first + i) % n + n - (first + count) % n) % n]? = none :=
      getElem?_eq_none (by omega)
    simp [ringWrite, hnone, Option.getD_none]

end LteModemKernel.Lib
