import LteModemKernel.Ts27010.Frame
import LteModemKernel.Ts27010.Ringbuf

/-!
# The TS 27.010 receiver

`ts27010_mux_recv` walks over the bytes of the ring buffer with a state machine
whose variables are indices into the buffer.  It hands each good frame to
`ts27010_handle_frame` and at the end consumes what it is done with.  All its
variables are local: the next call starts again in the idle state.

Above the walk stands a state machine without indices, `Phase`, whose states
carry the fields read so far.

Main results:

- Theorem `recvByte_tracks`: one turn of the loop makes the step of the phase.
- Theorem `muxRecv_eq_scan`: a call is a scan of the contents of the buffer.
-/

namespace LteModemKernel.Ts27010

open List

/-! ## The receive routine -/

/-- `LDISC_BUFFER_SIZE`: a page less the three integers of the ring buffer. -/
def ldiscBufferSize : Nat := 4096 - 12

/-- A call of `ts27010_handle_frame`, with the payload it finds in the buffer. -/
structure Frame where
  addr : UInt8
  control : UInt8
  payload : List UInt8
  deriving DecidableEq, Repr

/-- `RECV_STATE_IDLE` to `RECV_STATE_END`. -/
inductive RecvState where
  | idle
  | addr
  | control
  | len
  | len2
  | data
  | ending
  deriving DecidableEq, Repr

/-- The local variables of `ts27010_mux_recv`; `consume` is
`consume_idx + 1`. -/
structure RecvVars where
  state : RecvState := .idle
  consume : Nat := 0
  dataIdx : Nat := 0
  addr : UInt8 := 0
  control : UInt8 := 0
  len : Nat := 0
  fcs : UInt8 := 0

/-- The payload bytes that `ts27010_handle_frame` finds through its two indices. -/
def Ringbuf.bytesAt (r : Ringbuf) (dataIdx len : Nat) : List UInt8 :=
  (List.range len).map fun k => r.peek (dataIdx + k)

/-- One turn of the loop of `ts27010_mux_recv`: the new variables and the frame
handed over, if any. -/
def recvByte (r : Ringbuf) (i : Nat) (v : RecvVars) : RecvVars × Option Frame :=
  let c := r.peek i
  match v.state with
  | .idle =>
    if c = basicFlag then ({ v with fcs := crcStart, state := .addr }, none)
    else ({ v with consume := i + 1 }, none)
  | .addr =>
    if c ≠ basicFlag then
      ({ v with fcs := crcCalc v.fcs c, addr := c, state := .control }, none)
    else ({ v with consume := i + 1 }, none)
  | .control =>
    ({ v with fcs := crcCalc v.fcs c, control := c, state := .len }, none)
  | .len =>
    let v := { v with fcs := crcCalc v.fcs c, len := (c >>> 1).toNat }
    if c &&& 1 = 1 then ({ v with dataIdx := i + 1, state := .data }, none)
    else ({ v with state := .len2 }, none)
  | .len2 =>
    let v := { v with
      fcs := crcCalc v.fcs c, len := v.len ||| c.toNat <<< 7, dataIdx := i + 1 }
    if v.len + v.dataIdx ≥ ldiscBufferSize then
      ({ v with state := .idle, consume := i + 1 }, none)
    else ({ v with state := .data }, none)
  | .data =>
    if i = v.dataIdx + v.len then
      ({ v with fcs := crcCalc v.fcs c, state := .ending }, none)
    else (v, none)
  | .ending =>
    let frame :=
      if c = basicFlag ∧ crcCheck v.fcs = true then
        some ⟨v.addr, v.control, r.bytesAt v.dataIdx v.len⟩
      else none
    ({ v with consume := i + 1, state := .idle }, frame)

/-- The loop of `ts27010_mux_recv` over `n` more bytes from index `i`. -/
def recvLoop (r : Ringbuf) : Nat → Nat → RecvVars → RecvVars × List Frame
  | 0, _, v => (v, [])
  | n + 1, i, v =>
    let turn := recvByte r i v
    let later := recvLoop r n (i + 1) turn.1
    (later.1, turn.2.toList ++ later.2)

/-- `ts27010_mux_recv`: the buffer after the call and the frames handed over. -/
def muxRecv (r : Ringbuf) : Ringbuf × List Frame :=
  let result := recvLoop r r.level 0 {}
  (r.consume result.1.consume, result.2)

/-! ## The phases of a frame -/

/-- Where a scan stands, with the fields of the frame read so far. -/
inductive Phase where
  | idle
  | addr
  | control (addr : UInt8)
  | len (addr control : UInt8)
  | len2 (addr control lo : UInt8)
  | data (addr control fcs : UInt8) (len : Nat) (got : List UInt8)
  | ending (addr control fcs : UInt8) (payload : List UInt8)
  deriving DecidableEq, Repr

open Phase

/-- The length that the two bytes of a long header give. -/
def longLen (lo hi : UInt8) : Nat := (lo >>> 1).toNat ||| hi.toNat <<< 7

/-- The check sequence over the bytes of a header. -/
def headerFcs (header : List UInt8) : UInt8 := header.foldl crcCalc crcStart

/-- The step of the phase on one byte.  `dataIdx` is the index behind the byte,
which the test of a long header's length uses. -/
def Phase.step (dataIdx : Nat) : Phase → UInt8 → Phase × Option Frame
  | idle, c => if c = basicFlag then (addr, none) else (idle, none)
  | addr, c => if c ≠ basicFlag then (control c, none) else (addr, none)
  | control a, c => (len a c, none)
  | len a k, c =>
    if c &&& 1 = 1 then (data a k (headerFcs [a, k, c]) (c >>> 1).toNat [], none)
    else (len2 a k c, none)
  | len2 a k lo, c =>
    if longLen lo c + dataIdx ≥ ldiscBufferSize then (idle, none)
    else (data a k (headerFcs [a, k, lo, c]) (longLen lo c) [], none)
  | data a k fcs n got, c =>
    if got.length = n then (ending a k (crcCalc fcs c) got, none)
    else (data a k fcs n (got ++ [c]), none)
  | ending a k fcs payload, c =>
    (idle, if c = basicFlag ∧ crcCheck fcs = true then some ⟨a, k, payload⟩ else none)

/-- The loop's variables stand for the phase, after the bytes `xs`. -/
def Tracks (xs : List UInt8) (v : RecvVars) : Phase → Prop
  | .idle => v.state = .idle
  | .addr => v.state = .addr ∧ v.fcs = crcStart
  | .control a => v.state = .control ∧ v.addr = a ∧ v.fcs = headerFcs [a]
  | .len a k =>
    v.state = .len ∧ v.addr = a ∧ v.control = k ∧ v.fcs = headerFcs [a, k]
  | .len2 a k lo =>
    v.state = .len2 ∧ v.addr = a ∧ v.control = k ∧ v.fcs = headerFcs [a, k, lo] ∧
      v.len = (lo >>> 1).toNat
  | .data a k fcs n got =>
    v.state = .data ∧ v.addr = a ∧ v.control = k ∧ v.fcs = fcs ∧ v.len = n ∧
      v.dataIdx + got.length = xs.length ∧ xs.drop v.dataIdx = got ∧ got.length ≤ n
  | .ending a k fcs payload =>
    v.state = .ending ∧ v.addr = a ∧ v.control = k ∧ v.fcs = fcs ∧
      v.len = payload.length ∧ v.dataIdx + payload.length < xs.length ∧
      (xs.drop v.dataIdx).take v.len = payload

variable {xs rest : List UInt8}

/-- The bytes found through indices are a part of the scanned contents. -/
theorem bytesAt_eq (r : Ringbuf) (hr : r.contents = xs ++ rest) {dataIdx len : Nat}
    (hle : dataIdx + len ≤ xs.length) : r.bytesAt dataIdx len = (xs.drop dataIdx).take len := by
  apply ext_getElem
  · simp only [Ringbuf.bytesAt, length_map, length_range, length_take, length_drop]
    omega
  · intro k h1 h2
    have hk : k < len := by simpa [Ringbuf.bytesAt] using h1
    have hlt : dataIdx + k < r.contents.length := by
      rw [hr, length_append]
      omega
    simp only [Ringbuf.bytesAt, getElem_map, getElem_range, getElem_take, getElem_drop]
    rw [← r.getElem_contents _ hlt]
    simp only [hr]
    exact getElem_append_left (by omega)

/-- The new value of `consume` after a byte: everything so far is done with when
the phase is idle again, and on a flag where the address is expected. -/
def Phase.consumeAfter (dataIdx consume : Nat) (st : Phase) (c : UInt8) : Nat :=
  if (st.step dataIdx c).1 = idle ∨ (st = addr ∧ c = basicFlag) then dataIdx else consume

variable {v : RecvVars} {st : Phase}

/-- One turn of the loop makes the step of the phase. -/
theorem recvByte_tracks (r : Ringbuf) {c : UInt8} (hr : r.contents = xs ++ c :: rest)
    (h : Tracks xs v st) :
    Tracks (xs ++ [c]) (recvByte r xs.length v).1 (st.step (xs.length + 1) c).1 ∧
      (recvByte r xs.length v).2 = (st.step (xs.length + 1) c).2 ∧
      (recvByte r xs.length v).1.consume = st.consumeAfter (xs.length + 1) v.consume c := by
  have hpeek : r.peek xs.length = c := by
    have hlt : xs.length < r.contents.length := by simp [hr]
    rw [← r.getElem_contents _ hlt]
    simp [hr]
  cases st with
  | idle =>
    have hstate : v.state = .idle := h
    by_cases hc : c = basicFlag <;> simp [recvByte, hpeek, hstate, step, consumeAfter, hc, Tracks]
  | addr =>
    obtain ⟨hstate, hfcs⟩ := h
    by_cases hc : c = basicFlag
    · simp [recvByte, hpeek, hstate, step, consumeAfter, hc, Tracks, hfcs]
    · simp [recvByte, hpeek, hstate, step, consumeAfter, hc, Tracks, hfcs, headerFcs]
  | control a =>
    obtain ⟨hstate, haddr, hfcs⟩ := h
    simp [recvByte, hpeek, hstate, step, consumeAfter, Tracks, haddr, hfcs, headerFcs]
  | len a k =>
    obtain ⟨hstate, haddr, hcontrol, hfcs⟩ := h
    by_cases hc : c &&& 1 = 1 <;> simp [recvByte, hpeek, hstate, step, consumeAfter, hc, Tracks,
      haddr, hcontrol, hfcs, headerFcs]
  | len2 a k lo =>
    obtain ⟨hstate, haddr, hcontrol, hfcs, hlen⟩ := h
    have hjoin : v.len ||| c.toNat <<< 7 = longLen lo c := by
      rw [hlen, longLen]
    by_cases hc : ldiscBufferSize ≤ longLen lo c + (xs.length + 1)
    · simp [recvByte, hpeek, hstate, step, consumeAfter, hc, Tracks, hjoin]
    · simp [recvByte, hpeek, hstate, step, consumeAfter, hc, Tracks, haddr,
        hcontrol, hfcs, headerFcs, hjoin]
  | data a k fcs n got =>
    obtain ⟨hstate, haddr, hcontrol, hfcs, hlen, hidx, hgot, hle⟩ := h
    have hdrop : (xs ++ [c]).drop v.dataIdx = got ++ [c] := by
      rw [drop_append_of_le_length (by omega), hgot]
    by_cases hc : got.length = n
    · have hend : xs.length = v.dataIdx + v.len := by omega
      have hturn : recvByte r xs.length v =
          ({ v with fcs := crcCalc v.fcs c, state := .ending }, none) := by
        simp [recvByte, hstate, hpeek, if_pos hend]
      have htake : (got ++ [c]).take v.len = got := by
        rw [hlen, ← hc, take_left]
      rw [hturn]
      simp only [step, consumeAfter, hc, if_true, Tracks, haddr, hcontrol, hfcs,
        hdrop, htake, length_append, length_singleton, reduceCtorEq, false_or,
        false_and, if_false, true_and, and_true]
      omega
    · have hmore : ¬xs.length = v.dataIdx + v.len := by omega
      have hturn : recvByte r xs.length v = (v, none) := by
        simp [recvByte, hstate, if_neg hmore]
      rw [hturn]
      simp only [step, consumeAfter, hc, if_false, Tracks, hstate, haddr, hcontrol,
        hfcs, hlen, hdrop, length_append, length_singleton, reduceCtorEq, false_or,
        false_and, true_and, and_true]
      omega
  | ending a k fcs payload =>
    obtain ⟨hstate, haddr, hcontrol, hfcs, hlen, hidx, hpay⟩ := h
    have hbytes : r.bytesAt v.dataIdx v.len = payload := by
      rw [bytesAt_eq r hr (by omega), hpay]
    simp [recvByte, hpeek, hstate, step, consumeAfter, Tracks, haddr, hcontrol,
      hfcs, hbytes]

/-! ## A call as a scan of the contents -/

/-- Scan bytes from index `i` on: what is done with at the end, and the frames. -/
def Phase.scan : Nat → Nat → Phase → List UInt8 → Nat × List Frame
  | _, consume, _, [] => (consume, [])
  | i, consume, st, c :: rest =>
    let turn := st.step (i + 1) c
    let later := scan (i + 1) (st.consumeAfter (i + 1) consume c) turn.1 rest
    (later.1, turn.2.toList ++ later.2)

theorem recvLoop_tracks (r : Ringbuf) (rest : List UInt8) (hr : r.contents = xs ++ rest)
    (h : Tracks xs v st) :
    (recvLoop r rest.length xs.length v).1.consume =
        (st.scan xs.length v.consume rest).1 ∧
      (recvLoop r rest.length xs.length v).2 = (st.scan xs.length v.consume rest).2 := by
  induction rest generalizing xs v st with
  | nil => exact ⟨rfl, rfl⟩
  | cons c rest ih =>
    obtain ⟨htracks, hframe, hconsume⟩ := recvByte_tracks r hr h
    have hr' : r.contents = (xs ++ [c]) ++ rest := by simp [hr]
    have hrec := ih hr' htracks
    rw [length_append, length_singleton, hconsume] at hrec
    simp only [length_cons, recvLoop, scan, hframe]
    exact ⟨hrec.1, by rw [hrec.2]⟩

theorem muxRecv_eq_scan (r : Ringbuf) :
    muxRecv r = (r.consume (Phase.idle.scan 0 0 r.contents).1,
      (Phase.idle.scan 0 0 r.contents).2) := by
  have hstart : Tracks [] {} .idle := rfl
  have hloop := recvLoop_tracks r r.contents (nil_append _).symm hstart
  rw [r.length_contents] at hloop
  exact Prod.ext (congrArg r.consume hloop.1) hloop.2

end LteModemKernel.Ts27010
