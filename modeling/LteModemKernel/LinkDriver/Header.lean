import LteModemKernel.LinkDriver.Receive

/-!
# The header of a message

What `ipc_api_read_callback` makes of a message in shared memory: the processor finds the
fields of the header at their addresses, and with the odd word swapped back the DMA finds the
data.  `Waiting` says which frames are still to be copied.

Main results:
- Theorem `openHeader_encode`: the header of a message that the BP has written.
- Theorem `Waiting.next`: a frame is copied.
-/

namespace LteModemKernel.LinkDriver
namespace Downlink

open Lib List

/-! ## Swapping the header -/

/-- The words of the lengths are swapped one after another. -/
theorem foldl_swapHalves (m : ByteMem) (k a : Nat) :
    (List.range k).foldl (fun m i => swapHalves (2 + i) m) m a
      = if 2 ≤ a / 4 ∧ a / 4 < 2 + k then m (halfLane a) else m a := by
  induction k generalizing a with
  | zero => rw [if_neg (by omega)]; rfl
  | succ k ih =>
    have hdiv := halfLane_div a
    rw [range_succ, foldl_append, foldl_cons, foldl_nil, swapHalves]
    by_cases h : a / 4 = 2 + k
    · rw [if_pos h, ih, hdiv, if_neg (by omega), if_pos (by omega)]
    · rw [if_neg h, ih]
      by_cases h' : 2 ≤ a / 4 ∧ a / 4 < 2 + k
      · rw [if_pos h', if_pos (by omega)]
      · rw [if_neg h', if_neg (by omega)]

theorem ipcHeaderExchangeEndian32_apply (m : ByteMem) (n a : Nat) :
    ipcHeaderExchangeEndian32 m n a
      = if a / 4 < 2 + ((n + 1) / 2 - n % 2) then m (halfLane a) else m a := by
  have hdiv := halfLane_div a
  unfold ipcHeaderExchangeEndian32
  rw [foldl_swapHalves]
  unfold swapHalves
  rw [hdiv]
  by_cases h0 : a / 4 = 0
  · rw [if_neg (by omega), if_neg (by omega), if_pos h0, if_pos (by omega)]
  · by_cases h1 : a / 4 = 1
    · rw [if_neg (by omega), if_pos h1, if_neg h0, if_pos (by omega)]
    · rw [if_neg h1, if_neg h0, if_neg h1, if_neg h0]
      by_cases h : a / 4 < 2 + ((n + 1) / 2 - n % 2)
      · rw [if_pos (by omega), if_pos h]
      · rw [if_neg (by omega), if_neg h]

theorem swapOdd_swapOdd (n : Nat) (m : ByteMem) : swapOdd n (swapOdd n m) = m := by
  unfold swapOdd
  by_cases h : n % 2 = 1
  · rw [if_pos h, if_pos h, swapHalves_swapHalves]
  · rw [if_neg h, if_neg h]

variable {n a : Nat}

theorem swapOdd_of_lt (m : ByteMem) (ha : a < 8) : swapOdd n m a = m a := by
  unfold swapOdd
  by_cases h : n % 2 = 1
  · rw [if_pos h, swapHalves_of_ne]
    unfold headerSize
    omega
  · rw [if_neg h]

@[simp]
theorem nbFrame_swapOdd (n : Nat) (m : ByteMem) : nbFrame (swapOdd n m) = nbFrame m :=
  u16At_congr (swapOdd_of_lt m (by omega)) (swapOdd_of_lt m (by omega))

/-! ## Frames in shared memory -/

/-- The frames from `frame_index` on are in shared memory, with their data from
`buf_phy` on. -/
structure Waiting (m : ByteMem) (n frameIndex bufPhy : Nat) (frames : List (List UInt8)) :
    Prop where
  count : nbFrame m = n
  total : frameIndex + frames.length = n
  lengths : ∀ j f, frames[j]? = some f → frameLength m (frameIndex + j) = f.length
  behind : headerSize n ≤ bufPhy
  data : LaneHolds (swapOdd n m) bufPhy frames.flatten

variable {m : ByteMem} {f : List UInt8} {i off : Nat} {rest : List (List UInt8)}

/-- A length in the header does not share a byte with the data. -/
theorem swapOdd_setFrameLength {v : Nat} (hi : i < n) (ha : headerSize n ≤ a) :
    swapOdd n (setFrameLength m i v) (lane a) = swapOdd n m (lane a) := by
  unfold headerSize at ha
  unfold swapOdd setFrameLength
  by_cases hodd : n % 2 = 1
  · rw [if_pos hodd, if_pos hodd]
    unfold swapHalves headerSize
    rw [lane_div]
    by_cases hword : a / 4 = (8 + 2 * n - 2) / 4
    · rw [if_pos hword, if_pos hword]
      apply setU16_of_ne <;> unfold halfLane lane <;> omega
    · rw [if_neg hword, if_neg hword]
      apply setU16_of_ne <;> unfold lane <;> omega
  · rw [if_neg hodd, if_neg hodd]
    apply setU16_of_ne <;> unfold lane <;> omega

/-- A frame is copied, and its length in the header is set to zero. -/
theorem Waiting.next {v : Nat} (h : Waiting m n i off (f :: rest)) :
    Waiting (setFrameLength m i v) n (i + 1) (off + f.length) rest := by
  have htotal := h.total
  rw [length_cons] at htotal
  constructor
  · rw [← h.count]
    exact u16At_setU16_of_ne (by omega)
  · omega
  · intro j g hg
    rw [← h.lengths (j + 1) g hg, frameLength, frameLength, Nat.add_assoc, Nat.add_comm 1 j]
    exact u16At_setU16_of_ne (by omega)
  · exact Nat.le_trans h.behind (Nat.le_add_right _ _)
  · have hdata := h.data
    rw [flatten_cons] at hdata
    apply hdata.append_right.congr
    intro a ha
    apply swapOdd_setFrameLength (by omega)
    exact Nat.le_trans h.behind (Nat.le_trans (Nat.le_add_right _ _) ha)

theorem Waiting.laneBytes (h : Waiting m n i off (f :: rest)) :
    laneBytes (swapOdd n m) off f.length = f := by
  have hdata := h.data
  exact laneBytes_eq hdata.append_left

/-! ## A message of the BP -/

theorem laneHolds_lengths {frames : List (List UInt8)}
    (h : LaneHolds m off (frames.flatMap fun f => be16 f.length)) {j : Nat}
    (hf : frames[j]? = some f) : LaneHolds m (off + 2 * j) (be16 f.length) := by
  induction frames generalizing off j with
  | nil => cases hf
  | cons g frames ih =>
    cases j with
    | zero =>
      cases hf
      exact h.append_left
    | succ j =>
      have hrest := ih h.append_right hf
      have haddr : off + (be16 g.length).length + 2 * j = off + 2 * (j + 1) := by
        have htwo : (be16 g.length).length = 2 := rfl
        omega
      rwa [haddr] at hrest

/-- The header of a message, before and after it is opened. -/
structure Opened (m : ByteMem) (msg : Message) (seq : UInt8) : Prop where
  version : version m = ipcFrameVersion
  sequenceNumber : sequenceNumber m = seq
  waiting : Waiting m msg.frames.length 0 (headerSize msg.frames.length) msg.frames

section Open

variable {msg : Message} {seq : UInt8}

/-- The words of the header are swapped, and the bytes of sequence number and options too. -/
theorem openHeader_apply (m : ByteMem) (ha : a < 4 ∨ 8 ≤ a) (hword : a / 4 < 2 + (n + 1) / 2) :
    swapOdd n (swapBytes 4 (ipcHeaderExchangeEndian32 m n)) a = m (halfLane a) := by
  have hdiv := halfLane_div a
  have hbytes (b) (hb : b / 4 = a / 4) : swapBytes 4 (ipcHeaderExchangeEndian32 m n) b =
      ipcHeaderExchangeEndian32 m n b := by
    unfold swapBytes
    rw [if_neg (by omega), if_neg (by omega)]
  unfold swapOdd
  by_cases hodd : n % 2 = 1
  · rw [if_pos hodd, swapHalves]
    unfold headerSize
    by_cases hlast : a / 4 = (8 + 2 * n - 2) / 4
    · rw [if_pos hlast, hbytes _ hdiv, ipcHeaderExchangeEndian32_apply, if_neg (by omega)]
    · rw [if_neg hlast, hbytes _ rfl, ipcHeaderExchangeEndian32_apply, if_pos (by omega)]
  · rw [if_neg hodd, hbytes _ rfl, ipcHeaderExchangeEndian32_apply, if_pos (by omega)]

theorem data_apply (m : ByteMem) (ha : headerSize n ≤ a) :
    swapBytes 4 (ipcHeaderExchangeEndian32 m n) (lane a) = m (lane a) := by
  unfold headerSize at ha
  have hdiv := lane_div a
  unfold swapBytes
  rw [if_neg (by omega), if_neg (by omega), ipcHeaderExchangeEndian32_apply, hdiv,
    if_neg (by omega)]

/-- `ipc_api_read_callback` opens the header of a message. -/
theorem openHeader_encode (hvalid : msg.Valid) (h : LaneHolds m 0 (msg.encode seq)) :
    Opened (openHeader m) msg seq := by
  have hversion := h.append_left
  have hcount := h.append_right.append_left
  have hseq := h.append_right.append_right.append_left
  have hlengths := h.append_right.append_right.append_right.append_right.append_left
  have hdata := h.append_right.append_right.append_right.append_right.append_right
  have hfew : msg.frames.length < 2 ^ 16 := Nat.lt_of_le_of_lt hvalid.1 (by decide)
  have hraw : u16At m 0 = msg.frames.length := by
    have hhigh : m 1 = .ofNat (msg.frames.length / 256) := hcount 0 _ rfl
    have hlow : m 0 = .ofNat msg.frames.length := hcount 1 _ rfl
    rw [u16At, hlow, hhigh, UInt8.toNat_ofNat', UInt8.toNat_ofNat']
    omega
  have hnb : nbFrame (swapBytes 4 (ipcHeaderExchangeEndian32 m msg.frames.length))
      = msg.frames.length := by
    rw [← nbFrame_swapOdd msg.frames.length]
    exact u16At_swapped hfew rfl hcount (openHeader_apply m (by omega) (by omega))
      (openHeader_apply m (by omega) (by omega))
  have hopen : openHeader m = swapOdd msg.frames.length
      (swapBytes 4 (ipcHeaderExchangeEndian32 m msg.frames.length)) := by
    unfold openHeader
    rw [hraw]
    simp [hnb]
  rw [hopen]
  constructor
  · exact u16At_swapped (by decide) rfl hversion (openHeader_apply m (by omega) (by omega))
      (openHeader_apply m (by omega) (by omega))
  · have hbyte : m (lane 4) = seq := hseq 0 _ rfl
    rw [sequenceNumber, swapOdd_of_lt _ (by omega), swapBytes, if_pos rfl,
      ipcHeaderExchangeEndian32_apply, if_pos (by omega)]
    exact hbyte
  · constructor
    · rw [nbFrame_swapOdd]
      exact hnb
    · exact Nat.zero_add _
    · intro j f hf
      have hj : j < msg.frames.length := (List.getElem?_eq_some_iff.mp hf).1
      have hlen : f.length < 2 ^ 16 :=
        Nat.lt_of_le_of_lt (hvalid.2 f (mem_of_getElem? hf)).2 (by decide)
      have hat := laneHolds_lengths hlengths hf
      rw [Nat.zero_add]
      exact u16At_swapped hlen (by omega) hat (openHeader_apply m (by omega) (by omega))
        (openHeader_apply m (by omega) (by omega))
    · exact Nat.le_refl _
    · rw [swapOdd_swapOdd]
      have hlength : (msg.frames.flatMap fun f => be16 f.length).length
          = 2 * msg.frames.length := by
        simp [be16, length_flatMap, Nat.mul_comm]
      rw [hlength] at hdata
      apply hdata.congr
      intro a ha
      exact data_apply m ha

end Open

end Downlink
end LteModemKernel.LinkDriver
