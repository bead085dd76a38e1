import LteModemKernel.Ts27010.Capacity
import LteModemKernel.Ts27010.RoundTrip

/-!
# Delivery of sent frames in chunks

The bytes of any number of sent frames come in chunks, cut anywhere, and `ts27010_mux_recv` runs
after each of them.  Between two runs the buffer holds the first bytes of one frame.  Since the
length test measures from the start of the buffer, a chunk has to leave room for a frame.

Main results:

- Theorem `scan_sent`: a run hands over the whole frames and keeps the first bytes of the next.
- Theorem `receive_sendFrames`: every sent frame is handed over once, in order.
-/

namespace LteModemKernel.Ts27010

open List Phase

variable {xs rest : List UInt8} {f : FrameSpec} {frames : List FrameSpec}

/-- The first bytes of a frame are kept. -/
theorem scan_part (hf : f.Valid) (i : Nat) (hpart : xs <+: sendFrame f)
    (hlt : xs.length < (sendFrame f).length) (hfit : i + (sendFrame f).length < ldiscBufferSize) :
    idle.scan i i xs = (i, []) := by
  have hsize := length_sendFrame f hf
  rw [prefix_iff_eq_take.mp hpart, hf.sendFrame_eq, take_append]
  by_cases hheader : f.header.length < xs.length
  · rw [take_of_length_le (by simpa using hheader), scan_header f hf i i _ hfit]
    exact scan_data_part _ _ _ _ _ _ (Nat.zero_le _) (by simp; omega)
  · -- a part of the header: its bytes one by one
    have haddr : f.addr ≠ basicFlag := addrByte_ne_flag _ _ _ hf.dlci
    have hbit := longLen_and_one f.payload.length
    rw [length_cons, Nat.sub_eq_zero_of_le (by omega), take_zero, append_nil]
    unfold FrameSpec.header lengthBytes at hheader ⊢
    generalize xs.length = n at hheader ⊢
    generalize UInt8.ofNat (2 * (f.payload.length % 128)) = lo at hbit ⊢
    split_ifs at hheader ⊢ <;> simp only [length_cons, length_nil] at hheader
    · have hn : n ≤ 4 := by omega
      interval_cases n <;> simp [scan, step, consumeAfter, haddr, hbit]
    · have hn : n ≤ 3 := by omega
      interval_cases n <;> simp [scan, step, consumeAfter, haddr]

/-- The bytes of frames that are still to be handed over: `part` is in the buffer, which holds no
whole frame, and `rest` is to come. -/
structure Underway (part rest : List UInt8) (frames : List FrameSpec) : Prop where
  stream : part ++ rest = frames.flatMap sendFrame
  length_lt : part.length < 519
  last : rest = [] → frames = []

/-- The scan of the first bytes of sent frames hands over the whole frames among them and is
done with their bytes.  The induction is on the frames. -/
theorem scan_sent (hvalid : ∀ f ∈ frames, f.Valid) (i : Nat)
    (hxs : xs ++ rest = frames.flatMap sendFrame) (hfit : i + xs.length + 519 < ldiscBufferSize) :
    ∃ sent todo part, frames = sent ++ todo ∧ xs = sent.flatMap sendFrame ++ part ∧
      Underway part rest todo ∧
      idle.scan i i xs = (i + (sent.flatMap sendFrame).length, sent.map FrameSpec.frame) := by
  induction frames generalizing i xs with
  | nil =>
    rcases append_eq_nil_iff.mp hxs with ⟨rfl, rfl⟩
    exact ⟨[], [], [], rfl, rfl, ⟨rfl, by decide, fun _ => rfl⟩, rfl⟩
  | cons f frames ih =>
    have hf := hvalid f mem_cons_self
    have hlen := hf.len
    have hsize : (sendFrame f).length ≤ 519 := by
      rw [length_sendFrame f hf, FrameSpec.header, lengthBytes]
      split_ifs <;> simp <;> omega
    rw [flatMap_cons] at hxs
    by_cases hlt : xs.length < (sendFrame f).length
    · have hpart : xs <+: sendFrame f :=
        prefix_of_prefix_length_le ⟨rest, hxs⟩ (prefix_append _ _) hlt.le
      refine ⟨[], f :: frames, xs, rfl, rfl, ⟨hxs, by omega, ?_⟩,
        scan_part hf i hpart hlt (by omega)⟩
      rintro rfl
      rw [append_nil] at hxs
      simp [hxs] at hlt
    · obtain ⟨ys, rfl⟩ : sendFrame f <+: xs :=
        prefix_of_prefix_length_le (prefix_append _ _) ⟨rest, hxs⟩ (Nat.le_of_not_lt hlt)
      rw [append_assoc, append_cancel_left_eq] at hxs
      rw [length_append] at hfit
      rcases ih (fun g hg => hvalid g (mem_cons_of_mem _ hg)) (i + (sendFrame f).length) hxs
        (by omega) with ⟨sent, todo, part, rfl, rfl, hunder, hscan⟩
      refine ⟨f :: sent, todo, part, rfl, by simp, hunder, ?_⟩
      rw [scan_sendFrame f hf i i _ (by omega), hscan]
      simp [Nat.add_assoc]

/-- The rest of a run, by induction on the chunks. -/
theorem receive_underway {chunks : List (List UInt8)} (hvalid : ∀ f ∈ frames, f.Valid)
    (hshort : ∀ c ∈ chunks, c.length ≤ 3046) {r : Ringbuf} (hlen : r.len = ldiscBufferSize)
    (h : Underway r.contents chunks.flatten frames) :
    receive r chunks = some (frames.map FrameSpec.frame) := by
  induction chunks generalizing r frames with
  | nil =>
    rw [h.last rfl]
    rfl
  | cons chunk chunks ih =>
    have hchunk := hshort chunk mem_cons_self
    have hpart := h.length_lt
    rw [r.length_contents] at hpart
    have hfit : chunk.length ≤ r.room := by
      rw [Ringbuf.room, hlen, ldiscBufferSize]
      omega
    rcases r.contents_write chunk hfit with ⟨hcontents, hlen', -⟩
    have hstream := h.stream
    rw [flatten_cons, ← append_assoc, ← hcontents] at hstream
    have hroom : 0 + (r.write chunk).1.contents.length + 519 < ldiscBufferSize := by
      rw [hcontents, length_append, r.length_contents, ldiscBufferSize]
      omega
    rcases scan_sent hvalid 0 hstream hroom with ⟨sent, todo, part, rfl, hxs, hunder, hscan⟩
    have hkept : (muxRecv (r.write chunk).1).1.contents = part := by
      rw [muxRecv_eq_scan, Ringbuf.contents_consume, hscan, Nat.zero_add, hxs, drop_left]
    have hrest := @ih _ (fun f hf => hvalid f (mem_append_right _ hf))
      (fun c hc => hshort c (mem_cons_of_mem _ hc)) (muxRecv (r.write chunk).1).1
      (hlen'.trans hlen) (hkept.symm ▸ hunder)
    simp only [receive, if_pos hfit, hrest]
    rw [muxRecv_eq_scan, hscan, map_append]
    rfl

/-- The bytes of sent frames, in chunks of at most 3046 bytes: every frame is handed over once, in
order, as it was built. -/
theorem receive_sendFrames (frames : List FrameSpec) (hvalid : ∀ f ∈ frames, f.Valid)
    (chunks : List (List UInt8)) (hchunks : chunks.flatten = frames.flatMap sendFrame)
    (hshort : ∀ c ∈ chunks, c.length ≤ 3046) :
    receive freshBuffer chunks = some (frames.map FrameSpec.frame) := by
  refine receive_underway hvalid hshort rfl ⟨hchunks, by decide, fun hnil => ?_⟩
  rw [hnil] at hchunks
  refine eq_nil_iff_forall_not_mem.mpr fun f hf => ?_
  have hsize := length_sendFrame f (hvalid f hf)
  rw [flatMap_eq_nil_iff.mp hchunks.symm f hf] at hsize
  cases hsize

/-- A frame that is cut in its header. -/
theorem receive_sendFrames_cut : ∃ xs ys, xs ≠ [] ∧ ys ≠ [] ∧
    receive freshBuffer [xs, ys] = some [flagFrame.frame] :=
  ⟨(sendFrame flagFrame).take 3, (sendFrame flagFrame).drop 3, by decide, by decide,
    receive_sendFrames [flagFrame] (by simpa using ⟨by decide, by decide⟩) _
      (by simp) (by decide +kernel)⟩

end LteModemKernel.Ts27010
