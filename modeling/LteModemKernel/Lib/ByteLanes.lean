import Mathlib

/-!
# Memory between processors of different byte order

Two processors share a memory of 32-bit words and agree on the value of every word.  One of them
numbers the bytes of a word from its least significant byte on, the other one from its most
significant byte on.  The memory is given as the bytes that the first processor sees.

Main results:
- Theorem `u16At_swapped`: a 16-bit value of the second processor is found at its own address
  once the halves of its word are swapped.
- Theorem `laneBytes_eq`: a list of bytes is read back through the lanes of the second
  processor.
-/

namespace LteModemKernel.Lib

/-- The memory as the first processor sees it. -/
abbrev ByteMem := Nat → UInt8

/-- The address that one processor has for the byte at an address of the other. -/
def lane (a : Nat) : Nat := 4 * (a / 4) + (3 - a % 4)

/-- The address of a byte after the halves of its word are swapped. -/
def halfLane (a : Nat) : Nat := 4 * (a / 4) + (a % 4 + 2) % 4

/-- The halves of a word are swapped. -/
def swapHalves (w : Nat) (m : ByteMem) : ByteMem :=
  fun a => if a / 4 = w then m (halfLane a) else m a

/-- The bytes at two successive addresses are swapped. -/
def swapBytes (a : Nat) (m : ByteMem) : ByteMem :=
  fun i => if i = a then m (a + 1) else if i = a + 1 then m a else m i

/-- The 16-bit value that the first processor finds at an address. -/
def u16At (m : ByteMem) (a : Nat) : Nat := (m a).toNat + 256 * (m (a + 1)).toNat

/-- The first processor writes a 16-bit value. -/
def setU16 (m : ByteMem) (a v : Nat) : ByteMem :=
  fun i => if i = a then UInt8.ofNat v else if i = a + 1 then UInt8.ofNat (v / 256) else m i

/-- A 16-bit value in the byte order of the second processor. -/
def be16 (v : Nat) : List UInt8 := [UInt8.ofNat (v / 256), UInt8.ofNat v]

/-- The bytes that the second processor has at an address. -/
def laneBytes (m : ByteMem) (off len : Nat) : List UInt8 :=
  (List.range len).map fun i => m (lane (off + i))

/-- The second processor writes bytes from its address zero on. -/
def laneWrite (m : ByteMem) (bytes : List UInt8) : ByteMem :=
  fun a => (bytes[lane a]?).getD (m a)

/-- The bytes at an address of the second processor. -/
def LaneHolds (m : ByteMem) (off : Nat) (bytes : List UInt8) : Prop :=
  ∀ i b, bytes[i]? = some b → m (lane (off + i)) = b

section

variable {m m' : ByteMem} {off a v : Nat} {xs ys bytes : List UInt8}

theorem lane_lane (a : Nat) : lane (lane a) = a := by
  unfold lane
  omega

theorem lane_div (a : Nat) : lane a / 4 = a / 4 := by
  unfold lane
  omega

theorem halfLane_div (a : Nat) : halfLane a / 4 = a / 4 := by
  unfold halfLane
  omega

theorem swapHalves_swapHalves (w : Nat) (m : ByteMem) : swapHalves w (swapHalves w m) = m := by
  funext a
  have hdiv := halfLane_div a
  have htwice : halfLane (halfLane a) = a := by
    unfold halfLane
    omega
  unfold swapHalves
  by_cases h : a / 4 = w
  · rw [if_pos h, if_pos (hdiv.trans h), htwice]
  · rw [if_neg h, if_neg h]

theorem swapHalves_of_ne {w : Nat} (h : a / 4 ≠ w) : swapHalves w m a = m a :=
  if_neg h

theorem u16At_congr {a' : Nat} (h0 : m a = m' a') (h1 : m (a + 1) = m' (a' + 1)) :
    u16At m a = u16At m' a' := by
  unfold u16At
  rw [h0, h1]

theorem setU16_of_ne {i : Nat} (h0 : i ≠ a) (h1 : i ≠ a + 1) : setU16 m a v i = m i := by
  unfold setU16
  rw [if_neg h0, if_neg h1]

theorem u16At_setU16_of_ne {a' : Nat} (h : a' + 1 < a ∨ a + 1 < a') :
    u16At (setU16 m a v) a' = u16At m a' := by
  apply u16At_congr <;> apply setU16_of_ne <;> omega

/-! ## What the second processor wrote -/

theorem laneHolds_laneWrite (m : ByteMem) (bytes : List UInt8) :
    LaneHolds (laneWrite m bytes) 0 bytes := by
  intro i b hb
  unfold laneWrite
  rw [Nat.zero_add, lane_lane, hb]
  rfl

theorem LaneHolds.append_left (h : LaneHolds m off (xs ++ ys)) : LaneHolds m off xs := by
  intro i b hb
  apply h i b
  rw [List.getElem?_append_left (List.getElem?_eq_some_iff.mp hb).1]
  exact hb

theorem LaneHolds.append_right (h : LaneHolds m off (xs ++ ys)) :
    LaneHolds m (off + xs.length) ys := by
  intro i b hb
  have hi := h (xs.length + i) b (by
    rw [List.getElem?_append_right (Nat.le_add_right _ _), Nat.add_sub_cancel_left]
    exact hb)
  rwa [← Nat.add_assoc] at hi

theorem LaneHolds.congr (h : LaneHolds m off bytes)
    (hmem : ∀ a, off ≤ a → m' (lane a) = m (lane a)) :
    LaneHolds m' off bytes := by
  intro i b hb
  rw [hmem _ (Nat.le_add_right _ _)]
  exact h i b hb

/-- The bytes are read back. -/
theorem laneBytes_eq (h : LaneHolds m off bytes) : laneBytes m off bytes.length = bytes := by
  apply List.ext_getElem?
  intro i
  unfold laneBytes
  rw [List.getElem?_map]
  by_cases hi : i < bytes.length
  · rw [List.getElem?_range hi, List.getElem?_eq_getElem hi, Option.map_some]
    rw [h i _ (List.getElem?_eq_getElem hi)]
  · rw [List.getElem?_eq_none (by rw [List.length_range]; omega), List.getElem?_eq_none (by omega)]
    rfl

/-- A 16-bit value at an even address, in a word whose halves are swapped. -/
theorem u16At_swapped (hv : v < 2 ^ 16) (heven : off % 2 = 0) (h : LaneHolds m off (be16 v))
    (h0 : m' off = m (halfLane off)) (h1 : m' (off + 1) = m (halfLane (off + 1))) :
    u16At m' off = v := by
  have hhigh : m (lane off) = .ofNat (v / 256) := h 0 _ rfl
  have hlow : m (lane (off + 1)) = .ofNat v := h 1 _ rfl
  have hlane0 : halfLane off = lane (off + 1) := by
    unfold halfLane lane
    omega
  have hlane1 : halfLane (off + 1) = lane off := by
    unfold halfLane lane
    omega
  unfold u16At
  rw [h0, h1, hlane0, hlane1, hhigh, hlow, UInt8.toNat_ofNat', UInt8.toNat_ofNat']
  omega

end

end LteModemKernel.Lib
