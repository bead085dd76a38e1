import LteModemKernel.Lib.Ring

/-!
# The FIFOs of the 4GHIF driver

The four FIFOs in the shared memory have 256 slots and 8-bit indices; the side that writes
moves the write index, the side that reads the read index.  The two sides run at the same
time, so a FIFO is only ever changed at one end by each.

Main results:

- Theorem `Fifo.addMsg_spec`: adding a message appends it to the contents, if a slot
  besides the free one is left.
- Theorems `Fifo.getMsg_eq` and `Fifo.incrementReadInd_contents`: reading looks at
  the contents from the front, and moving the read index drops them.
-/

namespace LteModemKernel.Ghif

open Lib Nat

/-- One of the four FIFOs: 256 slots and the two 8-bit indices in the shared memory.  The
32-bit copies of the driver hold the same numbers: they are wrapped at 256 by hand. -/
structure Fifo (α : Type) where
  slots : Nat → α
  readInd : Fin 256
  writeInd : Fin 256

scoped instance neZeroSlots : NeZero 256 := ⟨by decide⟩

namespace Fifo

variable {α : Type}

/-- The FIFO with both indices at 0. -/
def empty (a : α) : Fifo α := ⟨fun _ => a, 0, 0⟩

/-- The messages that are written and not yet read. -/
def contents (f : Fifo α) : List α := ring f.slots f.readInd f.writeInd

/-- `fifo_4ghif_ul_space_left`, `fifo_ack_4ghif_ul_space_left`: one cell is needed
to detect the full status. -/
def spaceLeft (f : Fifo α) : Nat := 256 - 1 - (f.writeInd - f.readInd).val

/-- `fifo_4ghif_add_msg`, `fifo_ack_4ghif_add_msg`; no result is the status
`FULL`. -/
def addMsg (f : Fifo α) (msg : α) : Option (Fifo α) :=
  if f.spaceLeft = 0 then none
  else some { f with
    slots := Function.update f.slots f.writeInd msg
    writeInd := f.writeInd + 1 }

/-- `fifo_4ghif_get_msg`, `fifo_ack_4ghif_get_msg`; no result is the status
`EMPTY`. -/
def getMsg (f : Fifo α) (offset : Fin 256) : Option α :=
  if f.writeInd = f.readInd + offset then none
  else some (f.slots (f.readInd + offset).val)

/-- `fifo_4ghif_increment_read_ind_after_get_msg` and its variant for the ACK FIFO. -/
def incrementReadInd (f : Fifo α) (offset : Fin 256) : Fifo α :=
  { f with readInd := f.readInd + offset }

variable {f f' : Fifo α} {msg : α}

theorem length_contents (f : Fifo α) : f.contents.length = (f.writeInd - f.readInd).val :=
  length_ring _ _ _

theorem length_add_spaceLeft (f : Fifo α) : f.contents.length + f.spaceLeft = 255 := by
  rw [length_contents, spaceLeft]
  omega

theorem addMsg_spec (h : f.spaceLeft ≠ 0) (msg : α) :
    ∃ f', f.addMsg msg = some f' ∧ f'.contents = f.contents ++ [msg] := by
  have hlength := length_add_spaceLeft f
  rw [length_contents] at hlength
  have hroom : (f.writeInd - f.readInd).val + 1 < 256 := by omega
  exact ⟨_, if_neg h, ring_push _ hroom _⟩

theorem addMsg_contents (h : f.addMsg msg = some f') :
    f.spaceLeft ≠ 0 ∧ f'.contents = f.contents ++ [msg] := by
  by_cases hspace : f.spaceLeft = 0
  · rw [addMsg, if_pos hspace] at h
    cases h
  · rcases addMsg_spec hspace msg with ⟨f'', hadd, hcontents⟩
    cases h.symm.trans hadd
    exact ⟨hspace, hcontents⟩

theorem addMsg_readInd (h : f.addMsg msg = some f') : f'.readInd = f.readInd := by
  unfold addMsg at h
  split_ifs at h
  cases h
  rfl

theorem spaceLeft_of_append {msgs : List α} (h : f'.contents = f.contents ++ msgs) :
    f'.spaceLeft + msgs.length = f.spaceLeft := by
  have hf := length_add_spaceLeft f
  have hf' := length_add_spaceLeft f'
  rw [h, List.length_append] at hf'
  omega

/-- The first of several messages that there is room for. -/
theorem addMsg_cons {msgs : List α} (h : (msg :: msgs).length ≤ f.spaceLeft) :
    ∃ f', f.addMsg msg = some f' ∧ msgs.length ≤ f'.spaceLeft ∧
      f'.contents ++ msgs = f.contents ++ msg :: msgs := by
  rw [List.length_cons] at h
  rcases addMsg_spec (f := f) (by omega) msg with ⟨f', hadd, hcontents⟩
  have hspace := spaceLeft_of_append hcontents
  rw [List.length_singleton] at hspace
  exact ⟨f', hadd, by omega, by simp [hcontents]⟩

/-- Reading looks at the contents from the front. -/
theorem getMsg_eq (f : Fifo α) {k : Nat} (hk : k ≤ f.contents.length) :
    f.getMsg (Fin.ofNat 256 k) = f.contents[k]? := by
  have hlt := length_ring_lt f.slots f.readInd f.writeInd
  have hval : (Fin.ofNat 256 k).val = k := mod_eq_of_lt (lt_of_le_of_lt hk hlt)
  rcases lt_or_eq_of_le hk with hless | heq
  · have hne : ¬f.writeInd = f.readInd + .ofNat 256 k := by
      intro hwrite
      rw [length_contents, hwrite, add_sub_cancel_left, hval] at hless
      exact lt_irrefl _ hless
    rw [getMsg, if_neg hne, List.getElem?_eq_getElem hless]
    congr 1
    rw [Fin.val_add, hval]
    exact (getElem_ring f.slots f.readInd f.writeInd k hless).symm
  · have hwrite : f.writeInd = f.readInd + .ofNat 256 k := by
      apply eq_add_of_sub_eq'
      apply Fin.ext
      rw [hval, heq, length_contents]
    rw [getMsg, if_pos hwrite, List.getElem?_eq_none heq.ge]

/-- Moving the read index drops what was read. -/
theorem incrementReadInd_contents (f : Fifo α) {k : Nat} (hk : k ≤ f.contents.length) :
    (f.incrementReadInd (Fin.ofNat 256 k)).contents = f.contents.drop k := by
  have hlt := length_ring_lt f.slots f.readInd f.writeInd
  have hval : (Fin.ofNat 256 k).val = k := mod_eq_of_lt (lt_of_le_of_lt hk hlt)
  have hle : .ofNat 256 k ≤ f.writeInd - f.readInd := by
    rw [Fin.le_def, hval, ← length_contents]
    exact hk
  have hdrop := ring_drop f.slots hle
  rw [hval] at hdrop
  exact hdrop.symm

theorem getMsg_head (f : Fifo α) : f.getMsg 0 = f.contents.head? := by
  rw [List.head?_eq_getElem?]
  exact getMsg_eq f (zero_le _)

/-- What is read without an offset is the front. -/
theorem getMsg_zero (h : f.getMsg 0 = some msg) :
    f.contents = msg :: (f.incrementReadInd 1).contents := by
  rcases List.head?_eq_some_iff.mp ((getMsg_head f).symm.trans h) with ⟨rest, hcontents⟩
  have hdrop : (f.incrementReadInd (.ofNat 256 1)).contents = f.contents.drop 1 := by
    apply incrementReadInd_contents
    rw [hcontents]
    exact succ_le_succ (zero_le _)
  change (f.incrementReadInd 1).contents = _ at hdrop
  rw [hdrop, hcontents]
  rfl

theorem getMsg_zero_none (h : f.getMsg 0 = none) : f.contents = [] :=
  List.head?_eq_none_iff.mp ((getMsg_head f).symm.trans h)

end Fifo

end LteModemKernel.Ghif
