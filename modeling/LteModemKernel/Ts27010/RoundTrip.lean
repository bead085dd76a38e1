import LteModemKernel.Ts27010.Recv

/-!
# Framing round trip

Frames built by the sender, written to an empty receive buffer one behind the other
and scanned by the receiver, come out as they went in.

Main results:

- Theorem `scan_sendFrame`: the scan of one sent frame, from any position.
- Theorem `muxRecv_sendFrames`: the receiver hands over exactly the sent frames,
  in order, and consumes all bytes.
-/

namespace LteModemKernel.Ts27010

open List Phase

/-- The frame that the receiver is to hand over. -/
def FrameSpec.frame (f : FrameSpec) : Frame := ⟨f.addr, f.control, f.payload⟩

/-- What the sender is used with: channels 0 to 16, at most 512 bytes. -/
structure FrameSpec.Valid (f : FrameSpec) : Prop where
  dlci : f.addrDlci ≤ 16
  len : f.payload.length ≤ 512

/-- The data phase collects the payload, then reads check sequence and flag.  The
induction is on the payload bytes still to come. -/
theorem scan_data (a k fcs check : UInt8) (got payload rest : List UInt8) (i consume : Nat)
    (hcheck : crcCheck (crcCalc fcs check) = true) :
    (Phase.data a k fcs (got.length + payload.length) got).scan i consume
        (payload ++ check :: basicFlag :: rest) =
      ((Phase.idle.scan (i + payload.length + 2) (i + payload.length + 2) rest).1,
        ⟨a, k, got ++ payload⟩ ::
          (Phase.idle.scan (i + payload.length + 2) (i + payload.length + 2) rest).2) := by
  induction payload generalizing got i with
  | nil =>
    simp [scan, step, consumeAfter, hcheck]
  | cons c payload ih =>
    have hne : ¬got.length = got.length + (payload.length + 1) := by omega
    have hlen : got.length + (payload.length + 1) = (got ++ [c]).length + payload.length := by
      rw [length_append, length_singleton]
      omega
    have hpos : i + 1 + payload.length + 2 = i + (payload.length + 1) + 2 := by omega
    have hrec := ih (got ++ [c]) (i + 1)
    rw [hpos, append_assoc, singleton_append] at hrec
    rw [cons_append, length_cons]
    simp only [scan, step, consumeAfter, hne, if_false, reduceCtorEq,
      false_or, false_and, Option.toList_none, nil_append]
    rw [hlen, hrec]

theorem crcCheck_header (header : List UInt8) :
    crcCheck (crcCalc (headerFcs header) (crcData header)) = true := by
  rw [crcData, headerFcs, crcCalc_crcEnd]
  rfl

section

variable (f : FrameSpec) (hf : f.Valid) (i consume : Nat) (rest : List UInt8)
  (hfit : i + (sendFrame f).length < ldiscBufferSize)

include hf

theorem FrameSpec.Valid.sendFrame_eq :
    sendFrame f = basicFlag :: f.header ++ (f.payload ++ [crcData f.header, basicFlag]) := by
  rw [Ts27010.sendFrame_eq f (Nat.lt_of_le_of_lt hf.len (by norm_num)), append_assoc]

theorem length_sendFrame : (sendFrame f).length = f.header.length + f.payload.length + 3 := by
  rw [hf.sendFrame_eq, length_append, length_append]
  simp
  omega

include hfit

/-- The header of a sent frame leads to its data, from one length byte or from two. -/
theorem scan_header :
    Phase.idle.scan i consume (basicFlag :: f.header ++ rest) =
      (Phase.data f.addr f.control (headerFcs f.header) f.payload.length []).scan
        (i + f.header.length + 1) consume rest := by
  have haddr : f.addr ≠ basicFlag := addrByte_ne_flag _ _ _ hf.dlci
  rw [length_sendFrame f hf] at hfit
  unfold FrameSpec.header lengthBytes at hfit ⊢
  by_cases hlong : f.payload.length > shortPayloadSize
  · -- two length bytes: the length test compares with the end of the header
    have hbit := longLen_and_one f.payload.length
    have hjoin : longLen (.ofNat (2 * (f.payload.length % 128)))
        (.ofNat (f.payload.length / 128 % 256)) = f.payload.length := by
      rw [longLen, longLen_shift, long_len_join _ (Nat.lt_of_le_of_lt hf.len (by norm_num))]
    simp only [hlong, if_true, length_cons, length_nil] at hfit ⊢
    have htest : ¬f.payload.length + (i + 1 + 1 + 1 + 1 + 1) ≥ ldiscBufferSize := by omega
    generalize UInt8.ofNat (2 * (f.payload.length % 128)) = lo at hbit hjoin ⊢
    generalize UInt8.ofNat (f.payload.length / 128 % 256) = hi at hjoin ⊢
    simp [scan, step, consumeAfter, haddr, hbit, hjoin, htest]
  · have hbit := shortLen_and_one f.payload.length
    have hlen := shortLen_shift f.payload.length (Nat.le_of_not_lt hlong)
    simp only [hlong, if_false]
    generalize UInt8.ofNat (1 + 2 * (f.payload.length % 128)) = short at hbit hlen ⊢
    simp [scan, step, consumeAfter, haddr, hbit, hlen]

/-- The scan of a sent frame hands over that frame and goes on idle behind it, having
consumed everything, as long as the frame ends inside the buffer. -/
theorem scan_sendFrame :
    Phase.idle.scan i consume (sendFrame f ++ rest) =
      ((Phase.idle.scan (i + (sendFrame f).length) (i + (sendFrame f).length) rest).1,
        f.frame ::
          (Phase.idle.scan (i + (sendFrame f).length) (i + (sendFrame f).length) rest).2) := by
  have hend : i + f.header.length + 1 + f.payload.length + 2 = i + (sendFrame f).length := by
    rw [length_sendFrame f hf]
    omega
  have hdata := scan_data f.addr f.control _ _ [] f.payload rest (i + f.header.length + 1) consume
    (crcCheck_header f.header)
  rw [length_nil, Nat.zero_add, nil_append, hend] at hdata
  conv_lhs => rw [hf.sendFrame_eq, append_assoc, append_assoc]
  rw [scan_header f hf i consume _ hfit]
  exact hdata

end

/-- The scan of sent frames hands over exactly these frames and is done with all
bytes.  The induction is on the list of frames. -/
theorem scan_sendFrames (frames : List FrameSpec) (hvalid : ∀ f ∈ frames, f.Valid) (i : Nat)
    (hfit : i + (frames.flatMap sendFrame).length < ldiscBufferSize) :
    Phase.idle.scan i i (frames.flatMap sendFrame) =
      (i + (frames.flatMap sendFrame).length, frames.map FrameSpec.frame) := by
  induction frames generalizing i with
  | nil => simp [scan]
  | cons f frames ih =>
    rw [flatMap_cons, length_append] at hfit
    have hf : f.Valid := hvalid f mem_cons_self
    have hrest : ∀ g ∈ frames, g.Valid := fun g hg => hvalid g (mem_cons_of_mem _ hg)
    rw [flatMap_cons, scan_sendFrame f hf i i _ (by omega), ih hrest _ (by omega),
      length_append, Nat.add_assoc, map_cons]

/-- Sent frames that fit into an empty receive buffer are handed over once each, in
order, with the address, control and payload they were built from, and the receiver
consumes all of their bytes. -/
theorem muxRecv_sendFrames (frames : List FrameSpec) (hvalid : ∀ f ∈ frames, f.Valid)
    (r : Ringbuf) (hlen : r.len = ldiscBufferSize) (hempty : r.level = 0)
    (hfit : (frames.flatMap sendFrame).length ≤ r.room) :
    (r.write (frames.flatMap sendFrame)).2 = (frames.flatMap sendFrame).length ∧
      (muxRecv (r.write (frames.flatMap sendFrame)).1).2 = frames.map FrameSpec.frame ∧
      (muxRecv (r.write (frames.flatMap sendFrame)).1).1.level = 0 := by
  obtain ⟨hcontents, -, hcount⟩ := r.contents_write _ hfit
  have hnil : r.contents = [] := eq_nil_of_length_eq_zero (by simp [hempty])
  rw [hnil, nil_append] at hcontents
  have hsize : 0 + (frames.flatMap sendFrame).length < ldiscBufferSize := by
    have hpos : 0 < ldiscBufferSize := by decide
    rw [Ringbuf.room, hlen, hempty] at hfit
    omega
  have hscan := scan_sendFrames frames hvalid 0 hsize
  rw [muxRecv_eq_scan, hcontents, hscan]
  refine ⟨hcount, rfl, ?_⟩
  rw [← Ringbuf.length_contents, Ringbuf.contents_consume, hcontents, Nat.zero_add,
    drop_length, length_nil]

/-- A frame whose payload holds the flag byte, on channel 1. -/
def flagFrame : FrameSpec := ⟨true, true, 1, 0xef, [0x55, 0xF9]⟩

theorem muxRecv_sendFrames_flag :
    (muxRecv ((Ringbuf.alloc ldiscBufferSize (by decide)).write
      ([flagFrame, flagFrame].flatMap sendFrame)).1).2 = [flagFrame.frame, flagFrame.frame] := by
  have hvalid (f) (hf : f ∈ [flagFrame, flagFrame]) : f.Valid := by
    have hf' : f = flagFrame := by simpa using hf
    subst hf'
    exact ⟨by decide, by decide⟩
  exact (muxRecv_sendFrames [flagFrame, flagFrame] hvalid
    (.alloc ldiscBufferSize (by decide)) rfl rfl (by decide)).2.1

end LteModemKernel.Ts27010
