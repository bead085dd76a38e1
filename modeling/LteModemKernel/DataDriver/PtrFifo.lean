import LteModemKernel.Lib.Ring
import LteModemKernel.Lib.Runs

/-!
# The pointer FIFO

`ptr_fifo.c`: a ring of pointers with one slot more than it can hold.  The head is the slot
in front of the first element and the tail the slot of the last one; an element count is kept
beside them.

Main results:

- Theorems `PtrFifo.insert_contents` and `PtrFifo.remove_contents`: elements go in at
  the end and come out at the front.
- Theorem `PtrFifo.peekOffset_eq`: peeking looks at the contents.
- Theorem `PtrFifo.ring_refines_list`: in every run the calls answer as those of a list do.
-/

namespace LteModemKernel.DataDriver

open Lib

/-- `PTR_FIFO` with `fifo_size` slots.  The count is that of the two indices. -/
structure PtrFifo (n : Nat) [NeZero n] (α : Type) where
  pfifoData : Nat → α
  head : Fin n
  tail : Fin n
  numElements : Nat
  count : numElements = (tail - head).val

namespace PtrFifo

variable {n : Nat} [NeZero n] {α : Type} {head tail : Fin n}

/-- `ptr_fifo_alloc`. -/
def alloc (n : Nat) [NeZero n] (a : α) : PtrFifo n α where
  pfifoData := fun _ => a
  head := 0
  tail := 0
  numElements := 0
  count := by rw [sub_self, Fin.val_zero]

theorem count_insert {k : Nat} (hcount : k = (tail - head).val) (h : tail + 1 ≠ head) :
    k + 1 = (tail + 1 - head).val := by
  rw [val_succ_sub (val_sub_succ_lt h), hcount]

theorem count_remove {k : Nat} (hcount : k = (tail - head).val) (h : head ≠ tail) :
    k - 1 = (tail - (head + 1)).val := by
  rw [val_sub_succ h, hcount]

/-- `ptr_fifo_insert`; no result is `PTR_FIFO_ERROR_FIFO_OVERFLOW`. -/
def insert (f : PtrFifo n α) (pv : α) : Option (PtrFifo n α) :=
  if h : f.tail + 1 = f.head then none
  else some {
    pfifoData := Function.update f.pfifoData (f.tail + 1).val pv
    head := f.head
    tail := f.tail + 1
    numElements := f.numElements + 1
    count := count_insert f.count h }

/-- `ptr_fifo_remove`; no result is `PTR_FIFO_ERROR_FIFO_UNDERFLOW`. -/
def remove (f : PtrFifo n α) : Option (α × PtrFifo n α) :=
  if h : f.head = f.tail then none
  else some (f.pfifoData (f.head + 1).val, {
    pfifoData := f.pfifoData
    head := f.head + 1
    tail := f.tail
    numElements := f.numElements - 1
    count := count_remove f.count h })

/-- `ptr_fifo_peek_offset`; no result is `PTR_FIFO_ERROR_FIFO_UNDERFLOW`. -/
def peekOffset (f : PtrFifo n α) (offset : Nat) : Option α :=
  if f.head = f.tail then none
  else if offset + 1 > f.numElements then none
  else some (f.pfifoData ((f.head.val + 1 + offset) % n))

/-- The elements, first in first. -/
def contents (f : PtrFifo n α) : List α :=
  ring f.pfifoData (f.head + 1) (f.tail + 1)

variable {f f' : PtrFifo n α} {pv : α}

theorem length_contents (f : PtrFifo n α) : f.contents.length = f.numElements := by
  rw [contents, length_ring, add_sub_add_right_eq_sub, f.count]

/-- Elements go in at the end. -/
theorem insert_contents (h : f.insert pv = some f') : f'.contents = f.contents ++ [pv] := by
  unfold insert at h
  split_ifs at h with hfull
  cases h
  apply ring_push
  rw [add_sub_add_right_eq_sub]
  exact val_sub_succ_lt hfull

/-- Elements come out at the front. -/
theorem remove_contents (h : f.remove = some (pv, f')) : f.contents = pv :: f'.contents := by
  unfold remove at h
  split_ifs at h with hempty
  cases h
  apply ring_pop
  intro heq
  exact hempty (add_right_cancel heq)

theorem remove_none (h : f.remove = none) : f.contents = [] := by
  unfold remove at h
  split_ifs at h with hempty
  rw [contents, hempty]
  exact ring_self _ _

/-- Peeking looks at the contents. -/
theorem peekOffset_eq (f : PtrFifo n α) (offset : Nat) :
    f.peekOffset offset = f.contents[offset]? := by
  have hlength := f.length_contents
  unfold peekOffset
  split_ifs with hempty hoffset
  · rw [contents, hempty, ring_self]
    rfl
  · rw [List.getElem?_eq_none (by omega)]
  · have hlt : offset < f.contents.length := by omega
    rw [List.getElem?_eq_getElem hlt]
    congr 1
    refine .trans ?_ (getElem_ring f.pfifoData (f.head + 1) (f.tail + 1) offset hlt).symm
    rw [Fin.val_add, Fin.val_one', Nat.add_mod_mod, Nat.mod_add_mod]

/-! ## The ring as a list -/

/-- `ptr_fifo_is_empty`. -/
def isEmpty (f : PtrFifo n α) : Bool := f.head = f.tail

/-- `ptr_fifo_free_avail`. -/
def freeAvail (f : PtrFifo n α) : Nat := n - 1 - f.numElements

/-- `ptr_fifo_peek`; no result is `PTR_FIFO_ERROR_FIFO_UNDERFLOW`. -/
def peek (f : PtrFifo n α) : Option α :=
  if f.head = f.tail then none else some (f.pfifoData (f.head + 1).val)

/-- `ptr_fifo_peek_offset` with sums of 32 bits. -/
def peekOffset32 (f : PtrFifo n α) (offset : UInt32) : Option α :=
  if f.head = f.tail then none
  else if (offset + 1).toNat > f.numElements then none
  else some (f.pfifoData ((UInt32.ofNat f.head.val + 1 + offset).toNat % n))

/-- The calls with what their callers give them. -/
inductive Call (α : Type) where
  | insert (pv : α)
  | remove
  | peek
  | peekOffset (offset : UInt32)

/-- The ring after a call, and the pointer that goes in or comes out; none is an error. -/
def call (f : PtrFifo n α) : Call α → PtrFifo n α × Option α
  | .insert pv => (f.insert pv).elim (f, none) fun f' => (f', some pv)
  | .remove => f.remove.elim (f, none) fun r => (r.2, some r.1)
  | .peek => (f, f.peek)
  | .peekOffset offset => (f, f.peekOffset32 offset)

/-- The same for a list of at most `N` pointers, the oldest one first. -/
def listCall (N : Nat) (l : List α) : Call α → List α × Option α
  | .insert pv => if l.length = N then (l, none) else (l ++ [pv], some pv)
  | .remove => (l.tail, l.head?)
  | .peek => (l, l.head?)
  | .peekOffset offset => (l, l[offset.toNat]?)

theorem isEmpty_iff : f.isEmpty = true ↔ f.contents = [] := by
  rw [isEmpty, decide_eq_true_iff]
  constructor
  · intro hempty
    rw [contents, hempty, ring_self]
  · contrapose
    intro hne
    exact ring_ne_nil _ fun heq => hne (add_right_cancel heq)

theorem peek_eq (f : PtrFifo n α) : f.peek = f.contents.head? := by
  unfold peek
  split_ifs with hempty
  · rw [isEmpty_iff.mp (decide_eq_true hempty)]
    rfl
  · rw [contents, ring_pop _ fun heq => hempty (add_right_cancel heq)]
    rfl

theorem peekOffset32_eq {offset : UInt32} (hn : 4 * n < 2 ^ 32) (hoffset : offset ≠ 0xFFFFFFFF) :
    f.peekOffset32 offset = f.contents[offset.toNat]? := by
  have hlt := offset.toNat_lt
  have hne : offset.toNat ≠ 0xFFFFFFFF := fun h => hoffset (UInt32.toNat_inj.mp h)
  have hsum : (offset + 1).toNat = offset.toNat + 1 := by
    simp
    omega
  rw [← peekOffset_eq, peekOffset32, peekOffset, hsum]
  split_ifs with hempty hle
  · rfl
  · rfl
  · have hcount := f.count
    have htail := (f.tail - f.head).isLt
    have hhead := f.head.isLt
    have hindex : (UInt32.ofNat f.head.val + 1 + offset).toNat = f.head.val + 1 + offset.toNat := by
      simp
      omega
    rw [hindex]

theorem length_of_insert_none {N : Nat} {f : PtrFifo (N + 1) α} (h : f.insert pv = none) :
    f.contents.length = N := by
  unfold insert at h
  split_ifs at h with hfull
  rw [length_contents, f.count, ← hfull, sub_add_cancel_left]
  exact Fin.coe_neg_one

theorem call_eq {N : Nat} (f : PtrFifo (N + 1) α) {c : Call α} (hN : 4 * (N + 1) < 2 ^ 32)
    (hc : c ≠ .peekOffset 0xFFFFFFFF) :
    ((f.call c).1.contents, (f.call c).2) = listCall N f.contents c := by
  cases c with
  | insert pv =>
    cases hinsert : f.insert pv with
    | none => simp [call, listCall, hinsert, length_of_insert_none hinsert]
    | some f' =>
      have hcontents := insert_contents hinsert
      have hlt : f'.contents.length < N + 1 := length_ring_lt _ _ _
      have hroom : f.contents.length ≠ N := by
        rw [hcontents, List.length_append] at hlt
        exact Nat.ne_of_lt (Nat.lt_of_succ_lt_succ hlt)
      simp [call, listCall, hinsert, hcontents, hroom]
  | remove =>
    cases hremove : f.remove with
    | none => simp [call, listCall, hremove, remove_none hremove]
    | some r => simp [call, listCall, hremove, remove_contents hremove]
  | peek => rw [call, listCall, peek_eq]
  | peekOffset offset =>
    rw [call, listCall, peekOffset32_eq hN fun h => hc (congrArg _ h)]

/-- The ring and the list take the same calls.  The array has any pointers at first. -/
def both (α : Type) (N : Nat) : TransitionSystem (PtrFifo (N + 1) α × List α) (Call α) :=
  .ofExec (fun s => s.1.head = 0 ∧ s.1.tail = 0 ∧ s.2 = []) fun s c =>
    some ((s.1.call c).1, (listCall N s.2 c).1)

/-- A ring of `N + 1` slots is a list of at most `N` pointers, as long as no offset is the largest
one of 32 bits. -/
theorem ring_refines_list {N : Nat} {s : PtrFifo (N + 1) α × List α} (hN : 4 * (N + 1) < 2 ^ 32)
    (hs : (both α N).ReachableUnder (fun _ c => c ≠ .peekOffset 0xFFFFFFFF) s) :
    s.1.numElements = s.2.length ∧ (s.1.isEmpty = true ↔ s.2 = []) ∧
      s.1.freeAvail = N - s.2.length ∧
      ∀ c : Call α, c ≠ .peekOffset 0xFFFFFFFF → (s.1.call c).2 = (listCall N s.2 c).2 ∧
        ((s.1.call c).2 = none → (s.1.call c).1 = s.1) := by
  have hlist : s.1.contents = s.2 := by
    refine hs.invariant (P := fun s => s.1.contents = s.2) ?_ ?_
    · rintro s ⟨hhead, htail, hnil⟩
      rw [contents, hhead, htail, ring_self, hnil]
    · rintro s c _ hlist hc ⟨⟩
      rw [← hlist]
      exact congrArg Prod.fst (s.1.call_eq hN hc)
  rw [← hlist, freeAvail, length_contents]
  refine ⟨rfl, isEmpty_iff, rfl, fun c hc => ⟨congrArg Prod.snd (s.1.call_eq hN hc), ?_⟩⟩
  intro hnone
  cases c with
  | insert pv =>
    cases hinsert : s.1.insert pv with
    | none => rw [call, hinsert]; rfl
    | some f' => simp [call, hinsert] at hnone
  | remove =>
    cases hremove : s.1.remove with
    | none => rw [call, hremove]; rfl
    | some r => simp [call, hremove] at hnone
  | peek => rfl
  | peekOffset => rfl

/-- The offset test wraps around: one pointer is in the ring, and a slot without one is read. -/
theorem peek_offset_wraps :
    ((((alloc 3 0).call (.insert 7)).1.call (.peekOffset 0xFFFFFFFF)).2 = some 0) ∧
      (listCall 2 [7] (.peekOffset 0xFFFFFFFF)).2 = none := by
  decide

theorem ring_refines_list_two :
    (((alloc 3 0).call (.insert 7)).1.call (.peekOffset 0)).2 =
      (listCall 2 [7] (.peekOffset 0)).2 :=
  ((ring_refines_list (N := 2) (by decide) (.step (s := (alloc 3 0, [])) (.init ⟨rfl, rfl, rfl⟩)
    (a := .insert 7) nofun rfl)).2.2.2 (.peekOffset 0) (by simp)).1

end PtrFifo

end LteModemKernel.DataDriver
