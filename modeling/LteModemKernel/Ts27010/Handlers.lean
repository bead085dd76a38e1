import LteModemKernel.Ts27010.RefCount
import LteModemKernel.Ts27010.Ringbuf

/-!
# The accesses of the TS 27.010 frame handlers

`ts27010_handle_frame` takes the number of a channel from the address of the frame, and the
messages of the control channel (MCC) hold further channel numbers.  The handlers are
modelled with what they access: the table of the channels, the ring buffer and the tty layer.

The control channel is DLCI 0.  It is not valid for SABM and UA and no tty line belongs to it,
so it is never connected, and the handlers of its messages, which check neither channel
numbers nor lengths, are never entered.

Main results:

- Theorem `control_closed`: the control channel is not connected in any run.
- Theorem `handleReceived_inBounds`: all the accesses are in bounds, unless an empty UIH frame
  arrives on a connected channel.
- Theorem `handleReceived_outOfBounds`: of such a frame a byte behind its payload is read as
  the tag, and the tty layer is given -1 bytes.
-/

namespace LteModemKernel.Ts27010

open Lib Function List TransitionSystem

/-! ## Data -/

/-- An access of a handler: an entry of the table `dlci`, the byte at an index of the ring
buffer, or a call of `ts27010_tty_send_rbuf` for a line with a length. -/
inductive Access where
  | dlci (index : Nat)
  | peek (index : Nat)
  | ttySend (line : Nat) (len : Int)
  deriving DecidableEq, Repr

/-- The arguments of `ts27010_handle_frame`, and what the handlers read beside the states of
the channels: the `mtu` of a channel and whether a line has a tty. -/
structure Reception where
  rbuf : Ringbuf
  addr : UInt8
  control : UInt8
  dataIdx : Nat
  len : Nat
  mtu : Nat → Nat
  hasTty : Nat → Bool

/-- The mux after a handler, none if it was in the table behind the last channel, and the
accesses. -/
abbrev Handled : Type := Option Mux × List Access

/-- `ts0710_dlci`. -/
def ts0710Dlci (addr : UInt8) : Nat := (addr >>> 2 &&& 0x3f).toNat

/-- `mcc_is_cmd`. -/
def mccIsCmd (type : UInt8) : Bool := type &&& 0x2 ≠ 0

/-- The states `CONNECTED` and `FLOW_STOPPED`. -/
def DlciState.isConnected : DlciState → Bool
  | connected | flowStopped => true
  | _ => false

/-- `dlci2tty`; the command tty and the data tty of a channel are the same. -/
def dlci2tty (dlci : Nat) : Nat := dlci - 1

/-! ## The handlers -/

/-- `ts27010_tty_send_rbuf`: the loop `while (len--)` counts a 32-bit integer to zero. -/
def ttySendRbuf (r : Reception) (line dataIdx : Nat) (len : Int) : List Access :=
  .ttySend line len ::
    if r.hasTty line then (range (len % 2 ^ 32).toNat).map fun i => .peek (dataIdx + i) else []

namespace Mux

/-- `ts27010_handle_msc`, without the response. -/
def handleMsc (s : Mux) (r : Reception) (type : UInt8) (dataIdx : Nat) : Handled :=
  let dlci := (r.rbuf.peek dataIdx >>> 2).toNat
  let v24Sigs := r.rbuf.peek (dataIdx + 1)
  let accesses := [.peek dataIdx, .peek (dataIdx + 1), .dlci dlci]
  if h : dlci < 17 then
    if (s.dlci ⟨dlci, h⟩).state.isConnected = false then (s.send .dm dlci, accesses)
    else if mccIsCmd type then
      (s.setState ⟨dlci, h⟩ (if v24Sigs &&& 0x2 ≠ 0 then .flowStopped else .connected), accesses)
    else (s, accesses)
  else (none, accesses)

/-- `ts27010_handle_pn`, without the new `mtu` and the response. -/
def handlePn (s : Mux) (r : Reception) (type : UInt8) (dataIdx : Nat) (len : Int) : Handled :=
  if len ≠ 8 then (s, [])
  else
    let dlci := (r.rbuf.peek dataIdx &&& 0x3f).toNat
    let accesses := (range 8).map (fun i => .peek (dataIdx + i)) ++ [.dlci dlci]
    if h : dlci < 17 then
      if mccIsCmd type = false ∧ (s.dlci ⟨dlci, h⟩).state = .negotiating then
        (s.setState ⟨dlci, h⟩ .connecting, accesses)
      else (s, accesses)
    else (none, accesses)

/-- `ts27010_handle_mcc`; the types other than `MSC` and `PN` only give warnings. -/
def handleMcc (s : Mux) (r : Reception) : Handled :=
  let type := r.rbuf.peek r.dataIdx
  let result : Handled :=
    if type >>> 2 = 0x38 then s.handleMsc r type (r.dataIdx + 2)
    else if type >>> 2 = 0x20 then s.handlePn r type (r.dataIdx + 2) (r.len - 2)
    else (s, [])
  (result.1, .peek r.dataIdx :: .peek (r.dataIdx + 1) :: result.2)

/-- `ts27010_handle_uih`.  The tag, the first byte of the payload, chooses between two ttys that
are the same. -/
def handleUih (s : Mux) (r : Reception) (dlci : Nat) : Handled :=
  if h : dlci < 17 then
    if r.control >>> 4 &&& 0x1 ≠ 0 then (s, [])
    else if (s.dlci ⟨dlci, h⟩).state.isConnected = false then (s.send .dm dlci, [.dlci dlci])
    else if dlci = 0 then ((s.handleMcc r).1, .dlci dlci :: (s.handleMcc r).2)
    else if r.len > r.mtu dlci then (s, [.dlci dlci])
    else if (r.len : Int) - 1 = 0 then (s, [.dlci dlci, .peek r.dataIdx])
    else
      (s, .dlci dlci :: .peek r.dataIdx ::
        ttySendRbuf r (dlci2tty dlci) (r.dataIdx + 1) (r.len - 1))
  else (s.send .dm dlci, [])

/-- The entries of the table that the handlers of SABM, UA, DM and DISC access. -/
def commandAccesses (cmd : Cmd) (dlci : Nat) : List Access :=
  if validDlci dlci then [.dlci dlci]
  else if dlci = 0 ∧ (cmd = .dm ∨ cmd = .disc) then (range 17).map .dlci
  else []

/-- `ts27010_handle_frame`. -/
def handleReceived (s : Mux) (r : Reception) : Handled :=
  let dlci := ts0710Dlci r.addr
  let command (cmd : Cmd) : Handled := (s.handleFrame cmd dlci, commandAccesses cmd dlci)
  let type := r.control &&& 0xef
  if type = 0x2f then command .sabm
  else if type = 0x63 then command .ua
  else if type = 0x0f then command .dm
  else if type = 0x43 then command .disc
  else if type = 0xef then s.handleUih r dlci
  else (s, [])

end Mux

/-- What happens to the mux: the calls and commands of `channels`, and received frames. -/
inductive FrameEvent where
  | call (a : Event)
  | received (r : Reception)

/-- The mux with all the frames it can receive. -/
def frames : TransitionSystem Mux FrameEvent where
  init s := s = Mux.initial
  step s a s' :=
    match a with
    | .call a => s.exec a = some s'
    | .received r => (s.handleReceived r).1 = some s'

variable {s s' : Mux} {r : Reception}

/-- An access that stays in the table of 17 channels and in the payload of the frame, or that
gives the tty layer the payload without the tag. -/
def Access.InBounds (r : Reception) : Access → Prop
  | dlci index => index < 17
  | peek index => r.dataIdx ≤ index ∧ index < r.dataIdx + r.len
  | ttySend _ len => 0 ≤ len ∧ len = r.len - 1

/-- A UIH frame on a connected channel has a payload. -/
def Tagged (s : Mux) (r : Reception) : Prop :=
  ∀ h : ts0710Dlci r.addr < 17, r.control &&& 0xef = 0xef → r.control >>> 4 &&& 0x1 = 0 →
    (s.dlci ⟨ts0710Dlci r.addr, h⟩).state.isConnected = true → 0 < r.len

/-! ## The control channel -/

/-- The control channel is not connected. -/
def ControlClosed (s : Mux) : Prop := (s.dlci 0).state.isConnected = false

theorem ControlClosed.update {j : Fin 17} {d : Dlci} (h : ControlClosed s) (hj : 0 ≠ j)
    (hdlci : s'.dlci = update s.dlci j d) : ControlClosed s' := by
  rw [ControlClosed, hdlci, update_of_ne hj]
  exact h

theorem ControlClosed.line {line : Line} {d : Dlci} (h : ControlClosed s)
    (hdlci : s'.dlci = Function.update s.dlci (tty2dlci line) d) : ControlClosed s' :=
  h.update (Fin.succ_ne_zero line).symm hdlci

theorem ControlClosed.setState (h : ControlClosed s) {dlci : Nat} (hvalid : validDlci dlci = true)
    (state : DlciState) : ControlClosed (s.setState ⟨dlci, validDlci_lt hvalid⟩ state) := by
  refine h.update ?_ rfl
  intro heq
  have hzero : 0 = dlci := congrArg Fin.val heq
  subst hzero
  cases hvalid

theorem ControlClosed.handleFrame (h : ControlClosed s) (cmd : Cmd) (dlci : Nat) :
    ControlClosed (s.handleFrame cmd dlci) := by
  unfold Mux.handleFrame
  split
  · rename_i hvalid
    have hsent : ControlClosed (s.send .ua dlci) := h
    cases cmd with
    | sabm | disc => exact hsent.setState hvalid _
    | dm => exact h.setState hvalid _
    | ua =>
      dsimp only
      split_ifs
      · exact h.setState hvalid _
      · exact h.setState hvalid _
      · exact h
  · cases cmd with
    | sabm | ua => exact h
    | dm | disc =>
      split_ifs <;> first | exact h | rfl

theorem ControlClosed.exec (h : ControlClosed s) {a : Event} (hexec : s.exec a = some s') :
    ControlClosed s' := by
  cases a with
  | ttyOpen line active =>
    cases hexec
    cases active with
    | false => exact h
    | true => exact h.line rfl
  | ttyClose i =>
    have hclose (line : Line) : ControlClosed (s.ttyClose i line) := by
      unfold Mux.ttyClose
      split_ifs
      · exact h.line rfl
      · exact h
    simp only [Mux.exec] at hexec
    split at hexec
    · cases hexec
      exact hclose _
    · cases hexec
      exact hclose _
    · cases hexec
  | waitReturn i ret =>
    simp only [Mux.exec] at hexec
    split at hexec
    case h_4 => cases hexec
    all_goals
      split_ifs at hexec
      cases hexec
      exact h
  | resume i =>
    simp only [Mux.exec] at hexec
    split at hexec
    case h_4 => cases hexec
    all_goals
      cases hexec
      exact h.line rfl
  | frame cmd dlci =>
    cases hexec
    exact h.handleFrame cmd dlci

/-! ## The handlers -/

theorem commandAccesses_inBounds (cmd : Cmd) (dlci : Nat) :
    ∀ a ∈ Mux.commandAccesses cmd dlci, a.InBounds r := by
  intro a ha
  unfold Mux.commandAccesses at ha
  split_ifs at ha with hvalid
  · rw [mem_singleton.mp ha]
    exact validDlci_lt hvalid
  · rcases mem_map.mp ha with ⟨i, hi, rfl⟩
    exact mem_range.mp hi
  · cases ha

theorem ttySendRbuf_inBounds (line : Nat) (hlen : 0 < r.len) :
    ∀ a ∈ ttySendRbuf r line (r.dataIdx + 1) (r.len - 1), a.InBounds r := by
  intro a ha
  rcases mem_cons.mp ha with rfl | ha
  · exact ⟨by omega, rfl⟩
  · split_ifs at ha
    · rcases mem_map.mp ha with ⟨i, hi, rfl⟩
      rw [mem_range] at hi
      constructor <;> omega
    · cases ha

/-- A frame is handled and leaves the control channel closed, and under a condition all the
accesses are in bounds. -/
def Handles (r : Reception) (condition : Prop) (result : Handled) : Prop :=
  ∃ s', result.1 = some s' ∧ ControlClosed s' ∧ (condition → ∀ a ∈ result.2, a.InBounds r)

theorem handleUih_handles (h : ControlClosed s) (dlci : Nat) :
    Handles r (∀ h : dlci < 17, r.control >>> 4 &&& 0x1 = 0 →
      (s.dlci ⟨dlci, h⟩).state.isConnected = true → 0 < r.len) (s.handleUih r dlci) := by
  unfold Mux.handleUih
  split_ifs with hlt hpf hstate hzero hmtu hone
  · exact ⟨s, rfl, h, by simp⟩
  · exact ⟨_, rfl, h, fun _ => by simpa [Access.InBounds] using hlt⟩
  · subst hzero
    exact absurd h hstate
  · exact ⟨s, rfl, h, fun _ => by simpa [Access.InBounds] using hlt⟩
  · refine ⟨s, rfl, h, fun _ a ha => ?_⟩
    simp only [mem_cons, not_mem_nil, or_false] at ha
    rcases ha with rfl | rfl
    · exact hlt
    · exact ⟨le_rfl, by omega⟩
  · refine ⟨s, rfl, h, fun hlen a ha => ?_⟩
    have hpos := hlen hlt (not_not.mp hpf) (Bool.eq_true_of_not_eq_false hstate)
    simp only [mem_cons] at ha
    rcases ha with rfl | rfl | ha
    · exact hlt
    · exact ⟨le_rfl, by omega⟩
    · exact ttySendRbuf_inBounds _ hpos a ha
  · exact ⟨_, rfl, h, by simp⟩

theorem handleReceived_handles (h : ControlClosed s) (r : Reception) :
    Handles r (Tagged s r) (s.handleReceived r) := by
  have hcommand (cmd : Cmd) (dlci : Nat) : Handles r (Tagged s r)
      (some (s.handleFrame cmd dlci), Mux.commandAccesses cmd dlci) :=
    ⟨_, rfl, h.handleFrame cmd dlci, fun _ => commandAccesses_inBounds cmd dlci⟩
  unfold Mux.handleReceived
  dsimp only
  split_ifs with h₁ h₂ h₃ h₄ huih
  · exact hcommand .sabm _
  · exact hcommand .ua _
  · exact hcommand .dm _
  · exact hcommand .disc _
  · rcases handleUih_handles h (ts0710Dlci r.addr) with ⟨s', hrun, hclosed, hbounds⟩
    exact ⟨s', hrun, hclosed, fun htag => hbounds fun hlt => htag hlt huih⟩
  · exact ⟨s, rfl, h, by simp⟩

/-- The control channel is not connected in any run. -/
theorem control_closed (hs : frames.Reachable s) : ControlClosed s := by
  apply hs.invariant
  · rintro _ rfl
    rfl
  · intro s a s' h hstep
    cases a with
    | call a => exact h.exec hstep
    | received r =>
      rcases handleReceived_handles h r with ⟨s'', hrun, hclosed, _⟩
      cases hrun.symm.trans hstep
      exact hclosed

/-- In every run, a frame that has a tag where one is read is handled within the bounds. -/
theorem handleReceived_inBounds (hs : frames.Reachable s) (htag : Tagged s r) :
    ∀ a ∈ (s.handleReceived r).2, a.InBounds r := by
  rcases handleReceived_handles (control_closed hs) r with ⟨_, _, _, hbounds⟩
  exact hbounds htag

/-- A frame on DLCI 1 in a buffer with the bytes `U`, `A` and zeros. -/
def exampleFrame (control : UInt8) (len : Nat) : Reception where
  rbuf := ⟨8, 0, 0, fun i => if i = 0 then 0x55 else if i = 1 then 0x41 else 0, by simp, by simp⟩
  addr := 0x05
  control := control
  dataIdx := 0
  len := len
  mtu _ := 512
  hasTty _ := true

/-- After a SABM frame, the data byte of a UIH frame is given to the first tty. -/
theorem handleReceived_inBounds_uih :
    ∃ s, frames.Reachable s ∧ (s.handleReceived (exampleFrame 0xef 2)).2 =
        [.dlci 1, .peek 0, .ttySend 0 1, .peek 1] ∧
      ∀ a ∈ (s.handleReceived (exampleFrame 0xef 2)).2, a.InBounds (exampleFrame 0xef 2) := by
  have h0 : frames.Reachable Mux.initial := Reachable.start rfl
  have h1 := h0.next (a := FrameEvent.received (exampleFrame 0x2f 0)) rfl
  exact ⟨_, h1, rfl, handleReceived_inBounds h1 fun _ _ _ _ => by decide⟩

/-- Of an empty UIH frame on a connected channel the byte behind the payload is read as the tag,
and the tty layer is given -1 bytes. -/
theorem handleReceived_outOfBounds :
    ∃ s, frames.Reachable s ∧ (s.handleReceived (exampleFrame 0xef 0)).2.take 3 =
        [.dlci 1, .peek 0, .ttySend 0 (-1)] ∧
      ¬∀ a ∈ (s.handleReceived (exampleFrame 0xef 0)).2, a.InBounds (exampleFrame 0xef 0) := by
  have h0 : frames.Reachable Mux.initial := Reachable.start rfl
  have h1 := h0.next (a := FrameEvent.received (exampleFrame 0x2f 0)) rfl
  refine ⟨_, h1, rfl, fun h => ?_⟩
  have hpeek := h (.peek 0) (by exact mem_cons_of_mem _ mem_cons_self)
  exact absurd hpeek.2 (by decide)

end LteModemKernel.Ts27010
