import LteModemKernel.Lib.CircularWindow

/-!
# The receive ring buffer of the TS 27.010 line discipline

`ts27010_ringbuf.h` keeps a head and a tail index into an array and leaves one
slot unused to tell the full buffer from the empty one.  The contents of the buffer
are a window of the array, and the operations are list operations on the contents.

Main results:

- Theorem `contents_push`: a successful push appends one byte.
- Theorem `contents_write`: writing data that fits appends it.
- Theorem `contents_consume`: consuming drops bytes from the front.
-/

namespace LteModemKernel.Ts27010

open Lib List Nat

/-- `struct ts27010_ringbuf`, with the range of its two indices. -/
structure Ringbuf where
  len : Nat
  head : Nat
  tail : Nat
  buf : Nat → UInt8
  head_lt : head < len
  tail_lt : tail < len

namespace Ringbuf

/-- `ts27010_ringbuf_alloc` of a zeroed buffer. -/
def alloc (len : Nat) (h : 0 < len) : Ringbuf := ⟨len, 0, 0, fun _ => 0, h, h⟩

/-- `ts27010_ringbuf_level`. -/
def level (r : Ringbuf) : Nat :=
  if r.head < r.tail then r.len + r.head - r.tail else r.head - r.tail

/-- `ts27010_ringbuf_room`. -/
def room (r : Ringbuf) : Nat := r.len - r.level - 1

/-- `ts27010_ringbuf_peek`. -/
def peek (r : Ringbuf) (i : Nat) : UInt8 := r.buf ((r.tail + i) % r.len)

/-- `ts27010_ringbuf_consume`. -/
def consume (r : Ringbuf) (count : Nat) : Ringbuf :=
  { r with
    tail := (r.tail + min count r.level) % r.len
    tail_lt := mod_lt _ (zero_lt_of_lt r.tail_lt) }

/-- `ts27010_ringbuf_push`, with the number of bytes stored. -/
def push (r : Ringbuf) (datum : UInt8) : Ringbuf × Nat :=
  if r.room = 0 then (r, 0)
  else
    ({ r with
        buf := Function.update r.buf r.head datum
        head := (r.head + 1) % r.len
        head_lt := mod_lt _ (zero_lt_of_lt r.head_lt) }, 1)

/-- `ts27010_ringbuf_write`, with the number of bytes stored. -/
def write (r : Ringbuf) : List UInt8 → Ringbuf × Nat
  | [] => (r, 0)
  | datum :: rest =>
    let pushed := r.push datum
    let written := pushed.1.write rest
    (written.1, pushed.2 + written.2)

/-- The bytes in the buffer, oldest first. -/
def contents (r : Ringbuf) : List UInt8 := window r.len r.buf r.tail r.level

theorem level_lt (r : Ringbuf) : r.level < r.len := by
  have hhead := r.head_lt
  have htail := r.tail_lt
  unfold level
  split_ifs <;> omega

theorem head_eq (r : Ringbuf) : (r.tail + r.level) % r.len = r.head := by
  have hhead := r.head_lt
  have htail := r.tail_lt
  unfold level
  split_ifs with h
  · have hsum : r.tail + (r.len + r.head - r.tail) = r.head + r.len := by omega
    rw [hsum, add_mod_right, mod_eq_of_lt hhead]
  · have hsum : r.tail + (r.head - r.tail) = r.head := by omega
    rw [hsum, mod_eq_of_lt hhead]

theorem level_eq_of_head (r : Ringbuf) {k : Nat} (hk : k < r.len)
    (hhead : (r.tail + k) % r.len = r.head) : r.level = k := by
  have hmod : r.level % r.len = k % r.len :=
    ModEq.add_left_cancel' r.tail (r.head_eq.trans hhead.symm)
  rwa [mod_eq_of_lt r.level_lt, mod_eq_of_lt hk] at hmod

@[simp]
theorem length_contents (r : Ringbuf) : r.contents.length = r.level := by
  simp [contents]

theorem getElem_contents (r : Ringbuf) (i : Nat) (h : i < r.contents.length) :
    r.contents[i] = r.peek i :=
  getElem_window _ _ _ _ _ h

theorem push_of_room (r : Ringbuf) (datum : UInt8) (hroom : 0 < r.room) :
    (r.push datum).1.contents = r.contents ++ [datum] ∧
      (r.push datum).1.len = r.len ∧ (r.push datum).1.level = r.level + 1 := by
  have hne : r.room ≠ 0 := by omega
  have hlevel : r.level + 1 < r.len := by
    unfold room at hroom
    omega
  have hnew : (r.push datum).1.level = r.level + 1 := by
    apply level_eq_of_head
    · simpa [push, hne] using hlevel
    · simp only [push, hne, if_false]
      rw [← add_assoc, ← mod_add_mod, r.head_eq]
  refine ⟨?_, by simp [push, hne], hnew⟩
  unfold contents
  rw [hnew]
  simp only [push, hne, if_false]
  rw [← r.head_eq]
  exact window_push r.len r.buf r.tail r.level (by omega) datum

/-- Writing data that fits stores all of it behind the contents. -/
theorem contents_write (r : Ringbuf) (data : List UInt8) (hfit : data.length ≤ r.room) :
    (r.write data).1.contents = r.contents ++ data ∧ (r.write data).1.len = r.len ∧
      (r.write data).2 = data.length := by
  induction data generalizing r with
  | nil => simp [write]
  | cons datum rest ih =>
    have hroom : 0 < r.room := by
      rw [length_cons] at hfit
      omega
    have hne : r.room ≠ 0 := by omega
    obtain ⟨hcontents, hlen, hlevel⟩ := r.push_of_room datum hroom
    have hcount : (r.push datum).2 = 1 := by simp [push, hne]
    have hfit' : rest.length ≤ (r.push datum).1.room := by
      unfold room at hfit ⊢
      rw [hlen, hlevel]
      rw [length_cons] at hfit
      omega
    obtain ⟨hcontents', hlen', hcount'⟩ := ih _ hfit'
    refine ⟨?_, ?_, ?_⟩
    · rw [write, hcontents', hcontents, append_assoc, singleton_append]
    · rw [write, hlen', hlen]
    · rw [write, hcount', hcount, length_cons]
      omega

/-- Consuming bytes drops them from the front of the contents. -/
theorem contents_consume (r : Ringbuf) (count : Nat) :
    (r.consume count).contents = r.contents.drop count := by
  have hlevel : (r.consume count).level = r.level - count := by
    apply level_eq_of_head
    · have hlt := r.level_lt
      simp only [consume]
      omega
    · simp only [consume]
      have hsum : r.tail + min count r.level + (r.level - count) = r.tail + r.level := by omega
      rw [mod_add_mod, hsum, r.head_eq]
  unfold contents
  rw [hlevel]
  simp only [consume]
  rcases le_total count r.level with hle | hle
  · rw [min_eq_left hle, window_drop]
  · rw [window_drop, Nat.sub_eq_zero_of_le hle]
    rfl

end Ringbuf

end LteModemKernel.Ts27010
