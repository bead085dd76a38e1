import LteModemKernel.Lib.Runs
import LteModemKernel.Ts27010.Chunking

/-!
# The capacity of the receive buffer

`ts27010_mux_recv` gives up on a long header whose frame does not fit into the buffer.  Its test
adds the length to the index of the data, but leaves out the two bytes behind the data, and the
byte that the ring buffer keeps free.  So it lets two lengths through whose frames never become
complete: the buffer fills up, the routine consumes nothing, and no further byte is stored.

Main results:

- Theorem `longHeader_of_stuck`: a full buffer in which nothing is consumed starts with such a
  header.
- Theorem `receive_never_stuck`: without such headers the routine consumes bytes of every full
  buffer.
- Theorem `receive_stuck`: a run that ends in a buffer that stays full.
-/

namespace LteModemKernel.Ts27010

open Lib List Phase

/-- `ts27010_ldisc_receive` of a chunk, of which the buffer takes what it has room for, and the
run of `ts27010_mux_recv` behind it. -/
def discipline : TransitionSystem Ringbuf (List UInt8) where
  init r := r = freshBuffer
  step r chunk r' := r' = (muxRecv (r.write chunk).1).1

/-- The buffer is full, and the receive routine consumes nothing. -/
def Ringbuf.Stuck (r : Ringbuf) : Prop := r.room = 0 ∧ (muxRecv r).1.level = r.level

/-- The bytes do not start with the long header of a frame of 4077 or 4078 bytes. -/
def FrontFits : List UInt8 → Prop
  | flag :: a :: _ :: lo :: hi :: _ =>
    flag = basicFlag → a ≠ basicFlag → lo &&& 1 ≠ 1 → longLen lo hi ≠ 4077 ∧ longLen lo hi ≠ 4078
  | _ => True

variable {i consume : Nat} {st : Phase} {xs rest : List UInt8} {a k : UInt8}

theorem Phase.le_scan (h : consume ≤ i) : consume ≤ (st.scan i consume xs).1 := by
  induction xs generalizing i consume st with
  | nil => exact le_rfl
  | cons c rest ih =>
    have hle : st.consumeAfter (i + 1) consume c ≤ i + 1 ∧
        consume ≤ st.consumeAfter (i + 1) consume c := by
      unfold consumeAfter
      split_ifs <;> omega
    exact hle.2.trans (ih hle.1)

/-- A byte after which the parser is idle is consumed, and a flag in place of an address. -/
theorem Phase.scan_pos {c : UInt8}
    (h : (st.step (i + 1) c).1 = .idle ∨ (st = .addr ∧ c = basicFlag)) :
    0 < (st.scan i consume (c :: rest)).1 := by
  have hconsume : st.consumeAfter (i + 1) consume c = i + 1 := if_pos h
  rw [scan, hconsume]
  exact Nat.lt_of_lt_of_le i.succ_pos (le_scan le_rfl)

/-- A byte in the middle of a frame is kept. -/
theorem Phase.scan_next {c : UInt8} {t : Phase} (hstep : (st.step (i + 1) c).1 = t)
    (hidle : t ≠ .idle) (haddr : st = .addr → c ≠ basicFlag) :
    (st.scan i consume (c :: rest)).1 = (t.scan (i + 1) consume rest).1 := by
  have hconsume : st.consumeAfter (i + 1) consume c = consume := by
    refine if_neg ?_
    rw [hstep]
    exact not_or.mpr ⟨hidle, fun h => haddr h.1 h.2⟩
  rw [scan, hconsume, hstep]

/-- The data phase goes on until the byte behind the check sequence. -/
theorem scan_data_part (a k fcs : UInt8) {n : Nat} (got : List UInt8) (i consume : Nat)
    (hgot : got.length ≤ n) (hlt : xs.length < n - got.length + 2) :
    (data a k fcs n got).scan i consume xs = (consume, []) := by
  induction xs generalizing got i with
  | nil => rfl
  | cons c xs ih =>
    rw [length_cons] at hlt
    by_cases hfull : got.length = n
    · have hnil : xs = [] := length_eq_zero_iff.mp (by omega)
      simp [hnil, scan, step, consumeAfter, hfull]
    · have hrec := ih (got ++ [c]) (i + 1) (by simp; omega) (by simp; omega)
      simp [scan, step, consumeAfter, hfull, hrec]

/-- A frame is consumed once its last byte is there, the flag behind the check sequence. -/
theorem Phase.scan_data_pos {fcs : UInt8} {n : Nat} {got : List UInt8} (hgot : got.length ≤ n)
    (hle : n - got.length + 2 ≤ xs.length) : 0 < ((data a k fcs n got).scan i 0 xs).1 := by
  induction xs generalizing i got with
  | nil => simp at hle
  | cons c xs ih =>
    rw [length_cons] at hle
    by_cases hfull : got.length = n
    · rw [Phase.scan_next (t := .ending a k (crcCalc fcs c) got) (by simp [Phase.step, hfull])
        Phase.noConfusion Phase.noConfusion]
      cases xs with
      | nil => simp at hle
      | cons d xs => exact scan_pos (.inl rfl)
    · rw [Phase.scan_next (t := .data a k fcs n (got ++ [c])) (by simp [Phase.step, hfull])
        Phase.noConfusion Phase.noConfusion]
      exact ih (by simp; omega) (by simp; omega)

/-- The first three bytes of a frame are kept. -/
theorem Phase.scan_header (ha : a ≠ basicFlag) :
    (Phase.idle.scan 0 0 (basicFlag :: a :: k :: xs)).1 = ((Phase.len a k).scan 3 0 xs).1 := by
  rw [Phase.scan_next (t := .addr) rfl Phase.noConfusion Phase.noConfusion,
    Phase.scan_next (t := .control a) (by simp [Phase.step, ha]) Phase.noConfusion fun _ => ha,
    Phase.scan_next (t := .len a k) rfl Phase.noConfusion Phase.noConfusion]

theorem Phase.scan_longHeader {lo hi : UInt8} (ha : a ≠ basicFlag) (hlo : lo &&& 1 ≠ 1)
    (hlong : ¬ldiscBufferSize ≤ longLen lo hi + 5) :
    (Phase.idle.scan 0 0 (basicFlag :: a :: k :: lo :: hi :: xs)).1 =
      ((Phase.data a k (headerFcs [a, k, lo, hi]) (longLen lo hi) []).scan 5 0 xs).1 := by
  have hlen : ((Phase.len a k).step 4 lo).1 = .len2 a k lo := congrArg Prod.fst (if_neg hlo)
  have hlen2 : ((Phase.len2 a k lo).step 5 hi).1 =
      .data a k (headerFcs [a, k, lo, hi]) (longLen lo hi) [] := congrArg Prod.fst (if_neg hlong)
  rw [Phase.scan_header ha, Phase.scan_next hlen nofun Phase.noConfusion,
    Phase.scan_next hlen2 nofun Phase.noConfusion]

theorem Ringbuf.muxRecv_len (r : Ringbuf) : (muxRecv r).1.len = r.len := rfl

theorem Ringbuf.level_muxRecv (r : Ringbuf) :
    (muxRecv r).1.level = r.level - (idle.scan 0 0 r.contents).1 := by
  rw [← length_contents, muxRecv_eq_scan, contents_consume, length_drop, length_contents]

/-- A full buffer in which nothing is consumed starts with a header of one of two lengths. -/
theorem longHeader_of_stuck {r : Ringbuf} (hlen : r.len = ldiscBufferSize) (h : r.Stuck) :
    ¬FrontFits r.contents := by
  have hlevel : r.contents.length = 4083 := by
    have hroom := h.1
    have hlt := r.level_lt
    rw [Ringbuf.room, hlen] at hroom
    rw [r.length_contents]
    unfold ldiscBufferSize at hroom hlen
    omega
  have hnone : ¬0 < (idle.scan 0 0 r.contents).1 := by
    have hstuck := h.2
    rw [r.level_muxRecv] at hstuck
    rw [r.length_contents] at hlevel
    omega
  generalize r.contents = xs at hlevel hnone
  match xs with
  | flag :: a :: k :: lo :: hi :: rest =>
    simp only [length_cons] at hlevel
    intro hfits
    refine hnone ?_
    by_cases hflag : flag = basicFlag
    · subst hflag
      by_cases ha : a = basicFlag
      · rw [Phase.scan_next (t := .addr) rfl nofun Phase.noConfusion]
        exact scan_pos (.inr ⟨rfl, ha⟩)
      by_cases hlo : lo &&& 1 = 1
      · have hshort : (lo >>> 1).toNat ≤ 127 := by
          rw [UInt8.toNat_shiftRight]
          have hlt := lo.toNat_lt
          change lo.toNat >>> 1 ≤ 127
          omega
        have hlen : ((len a k).step 4 lo).1 =
            .data a k (headerFcs [a, k, lo]) (lo >>> 1).toNat [] := congrArg Prod.fst (if_pos hlo)
        rw [Phase.scan_header ha, Phase.scan_next hlen nofun Phase.noConfusion]
        exact scan_data_pos (Nat.zero_le _) (by rw [length_cons, length_nil]; omega)
      by_cases hlong : ldiscBufferSize ≤ longLen lo hi + 5
      · rw [Phase.scan_header ha, Phase.scan_next (t := .len2 a k lo) (by simp [Phase.step, hlo])
          nofun Phase.noConfusion]
        exact scan_pos (.inl (by simp [step, ge_iff_le, if_pos hlong]))
      · have hne := hfits rfl ha hlo
        unfold ldiscBufferSize at hlong
        rw [scan_longHeader ha hlo hlong]
        exact scan_data_pos (Nat.zero_le _) (by rw [length_nil]; omega)
    · exact scan_pos (.inl (by simp [step, hflag]))
  | [] | [_] | [_, _] | [_, _, _] | [_, _, _, _] => simp at hlevel

theorem Ringbuf.write_len (r : Ringbuf) (data : List UInt8) : (r.write data).1.len = r.len := by
  induction data generalizing r with
  | nil => rfl
  | cons datum rest ih =>
    rw [write, ih, push]
    split <;> rfl

/-- In every run the receive routine consumes bytes of a buffer that a chunk has filled up, unless
that starts with a header of 4077 or 4078 bytes. -/
theorem receive_never_stuck {r : Ringbuf} (hr : discipline.Reachable r) (chunk : List UInt8)
    (hfits : FrontFits (r.write chunk).1.contents) :
    ¬(r.write chunk).1.Stuck := by
  have hlen : r.len = ldiscBufferSize := by
    refine hr.invariant (P := fun r => r.len = ldiscBufferSize) ?_ ?_
    · rintro r rfl
      rfl
    · rintro r chunk r' hlen rfl
      exact (r.write_len chunk).trans hlen
  exact fun hstuck => longHeader_of_stuck ((r.write_len chunk).trans hlen) hstuck hfits

theorem receive_never_stuck_full :
    (freshBuffer.write (replicate 4083 0)).1.level = 4083 ∧
      ¬(freshBuffer.write (replicate 4083 0)).1.Stuck := by
  have hwrite := (freshBuffer.contents_write (replicate 4083 0) length_replicate.le).1
  refine ⟨?_, receive_never_stuck (.start rfl) _ ?_⟩
  · rw [← Ringbuf.length_contents, hwrite, length_append, length_replicate]
    rfl
  · rw [hwrite]
    exact fun hflag => absurd hflag (by decide)

/-- The first 4083 bytes of a frame that announces 4078. -/
def longFrame : List UInt8 :=
  [basicFlag, 0x07, 0xEF, 0xDC, 0x1F] ++ replicate 4078 0

theorem scan_longFrame : (idle.scan 0 0 longFrame).1 = 0 := by
  have hscan :=
    @scan_longHeader (replicate 4078 0) 0x07 0xEF 0xDC 0x1F (by decide) (by decide)
    (by decide)
  rw [scan_data_part _ _ _ _ _ _ (Nat.zero_le _) (by rw [length_replicate]; decide)] at hscan
  exact hscan

/-- The frame fills up the buffer, and from then on nothing is consumed and no byte is stored. -/
theorem receive_stuck : ∃ r, discipline.Reachable r ∧ r.Stuck := by
  have hlength : longFrame.length = 4083 := by
    rw [longFrame, length_append, length_replicate]
    rfl
  have hstuck (r : Ringbuf) (hlen : r.len = ldiscBufferSize) (hcontents : r.contents = longFrame) :
      r.Stuck := by
    have hlevel : r.level = 4083 := by rw [← r.length_contents, hcontents, hlength]
    constructor
    · rw [Ringbuf.room, hlen, hlevel]
      rfl
    · rw [r.level_muxRecv, hcontents, scan_longFrame, Nat.sub_zero]
  obtain ⟨hwrite, hlen, -⟩ := freshBuffer.contents_write longFrame hlength.le
  have hempty : freshBuffer.contents = [] := rfl
  rw [hempty, nil_append] at hwrite
  refine ⟨_, (TransitionSystem.Reachable.start rfl).next (a := longFrame) rfl, hstuck _ ?_ ?_⟩
  · exact (Ringbuf.muxRecv_len _).trans hlen
  · rw [muxRecv_eq_scan, Ringbuf.contents_consume, hwrite, scan_longFrame, drop_zero]

end LteModemKernel.Ts27010
