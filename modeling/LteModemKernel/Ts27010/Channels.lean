import LteModemKernel.Lib.Runs

/-!
# Opening and closing TS 27.010 channels

Each mux tty line has its own channel (DLCI).  The tty layer counts the open attempts
of a line in `ref_count`, and the mux counts the successful opens of a channel in
`clients`.  An open sends SABM and waits for an answer, the close of the last
client sends DISC and waits.

A step of the model runs from a call, or from the end of a wait, to the next point
where the code sleeps or returns.  The tty core makes these calls under the big kernel
lock and the mux holds the channel's own lock during them, so that a step is not
interrupted by another open or close.  A wait ends in two steps: first it returns with
its result, later the caller gets the lock again and goes on.

Main definitions:

- `openChannel`, `openResume`, `waitForOpenResume`,
  `closeChannel`, `closeResume`: the sections of the channel routines.
- `handleFrame`: the received SABM, UA, DM and DISC frames.
- `channels`: the transition system of all lines.
-/

namespace LteModemKernel.Ts27010

open Lib

/-! ## Data -/

/-- A mux tty line; there are `NR_MUXS = 16`. -/
abbrev Line : Type := Fin 16

scoped instance neZeroDlcis : NeZero 17 := ⟨by decide⟩

/-- The states of a channel. -/
inductive DlciState where
  | rejected
  | disconnected
  | connecting
  | negotiating
  | connected
  | disconnecting
  | flowStopped
  deriving DecidableEq, Repr

/-- The part of `struct dlci_struct` that opens and closes use. -/
structure Dlci where
  state : DlciState
  clients : Int
  deriving DecidableEq, Repr

/-- The control frames of a channel. -/
inductive Cmd where
  | sabm
  | ua
  | dm
  | disc
  deriving DecidableEq, Repr

/-- How `wait_event_interruptible_timeout` returns: 0, -ERESTARTSYS or positive. -/
inductive WaitResult where
  | timeout
  | signal
  | woken
  deriving DecidableEq, Repr

/-- Where the life of an open file stands.  The waits carry the value of `try` and
the result once the wait has returned. -/
inductive FilePhase where
  | firstWait (tries : Nat) (ret : Option WaitResult)
  | joinWait (tries : Nat) (ret : Option WaitResult)
  | opened
  | failed
  | closeWait (tries : Nat) (ret : Option WaitResult)
  | closed
  deriving DecidableEq, Repr

/-- A file, by the line it was opened on. -/
structure File where
  line : Line
  phase : FilePhase
  deriving DecidableEq, Repr

/-- The tty driver and the mux. -/
structure Mux where
  refCount : Line → Int
  dlci : Fin 17 → Dlci
  files : List File
  sent : List (Cmd × Nat)

/-- `tty2dlci`. -/
def tty2dlci (line : Line) : Fin 17 := line.succ

/-- `ts0710_valid_dlci`. -/
def validDlci (dlci : Nat) : Bool := decide (dlci < 17) && decide (dlci > 0)

theorem validDlci_lt {dlci : Nat} (h : validDlci dlci = true) : dlci < 17 := by
  simp only [validDlci, Bool.and_eq_true, decide_eq_true_eq] at h
  exact h.1

/-! ## The channel routines -/

/-- `ts0710_open_channel` up to its first wait: the channel, where the caller
stands, and the frames sent. -/
def openChannel (d : Dlci) : Dlci × FilePhase × List Cmd :=
  if d.clients > 0 then
    if d.state = .connected then ({ d with clients := d.clients + 1 }, .opened, [])
    else if d.state ≠ .connecting then (d, .failed, [])
    else (d, .joinWait 7 none, [])
  else if d.state ≠ .disconnected ∧ d.state ≠ .rejected then (d, .failed, [])
  else ({ d with state := .connecting }, .firstWait 2 none, [.sabm])

/-- The end of `ts0710_open_channel`: a channel still connecting is given up. -/
def openExit (d : Dlci) (phase : FilePhase) : Dlci × FilePhase × List Cmd :=
  (if d.state = .connecting then { d with state := .disconnected } else d, phase, [])

/-- `ts0710_open_channel` after a wait of the first opener. -/
def openResume (d : Dlci) (tries : Nat) : WaitResult → Dlci × FilePhase × List Cmd
  | .timeout =>
    if tries = 0 then openExit d .failed else (d, .firstWait (tries - 1) none, [.sabm])
  | .signal => openExit d .failed
  | .woken =>
    if d.state = .rejected then openExit d .failed
    else if d.state ≠ .connected then openExit d .failed
    else openExit { d with clients := d.clients + 1 } .opened

/-- `ts0710_wait_for_open` after a wait, and the rest of
`ts0710_open_channel` behind it, which counts the client in any case. -/
def waitForOpenResume (d : Dlci) (tries : Nat) : WaitResult → Dlci × FilePhase × List Cmd
  | .timeout =>
    if tries = 0 then ({ d with clients := d.clients + 1 }, .failed, [])
    else (d, .joinWait (tries - 1) none, [])
  | .signal => ({ d with clients := d.clients + 1 }, .failed, [])
  | .woken =>
    if d.state = .rejected then ({ d with clients := d.clients + 1 }, .failed, [])
    else if d.state ≠ .connected then ({ d with clients := d.clients + 1 }, .failed, [])
    else ({ d with clients := d.clients + 1 }, .opened, [])

/-- `ts0710_close_channel` up to its first wait. -/
def closeChannel (d : Dlci) : Dlci × FilePhase × List Cmd :=
  if d.clients > 1 then ({ d with clients := d.clients - 1 }, .closed, [])
  else if d.state = .disconnected ∨ d.state = .rejected ∨ d.state = .disconnecting then
    ({ d with clients := d.clients - 1 }, .closed, [])
  else ({ d with state := .disconnecting }, .closeWait 2 none, [.disc])

/-- The end of `ts0710_close_channel`: the channel is disconnected in any case. -/
def closeExit (d : Dlci) : Dlci × FilePhase × List Cmd :=
  (⟨.disconnected, d.clients - 1⟩, .closed, [])

/-- `ts0710_close_channel` after a wait. -/
def closeResume (d : Dlci) (tries : Nat) : WaitResult → Dlci × FilePhase × List Cmd
  | .timeout => if tries = 0 then closeExit d else (d, .closeWait (tries - 1) none, [.disc])
  | .signal => closeExit d
  | .woken => closeExit d

/-! ## The steps of the system -/

namespace Mux

/-- Run a section of a channel routine for a line: store the channel and log the frames. -/
def onDlci (s : Mux) (dlci : Fin 17) (result : Dlci × FilePhase × List Cmd) : Mux :=
  { s with
    dlci := Function.update s.dlci dlci result.1
    sent := s.sent ++ result.2.2.map fun cmd => (cmd, (dlci : Nat)) }

/-- Set the state of a channel. -/
def setState (s : Mux) (dlci : Fin 17) (state : DlciState) : Mux :=
  { s with dlci := Function.update s.dlci dlci { s.dlci dlci with state := state } }

def send (s : Mux) (cmd : Cmd) (dlci : Nat) : Mux :=
  { s with sent := s.sent ++ [(cmd, dlci)] }

/-- `ts0710_upon_disconnect`. -/
def uponDisconnect (s : Mux) : Mux :=
  { s with dlci := fun j => { s.dlci j with state := .disconnected } }

/-- `ts27010_handle_sabm`, `_ua`, `_dm` and `_disc`.  Where a
handler sets a state and then resets the channel, the state after the reset counts. -/
def handleFrame (s : Mux) (cmd : Cmd) (dlci : Nat) : Mux :=
  if h : validDlci dlci = true then
    let d : Fin 17 := ⟨dlci, validDlci_lt h⟩
    match cmd with
    | .sabm => (s.send .ua dlci).setState d .connected
    | .ua =>
      if (s.dlci d).state = .connecting then s.setState d .connected
      else if (s.dlci d).state = .disconnecting then s.setState d .disconnected
      else s
    | .dm => s.setState d .disconnected
    | .disc => (s.send .ua dlci).setState d .disconnected
  else
    match cmd with
    | .sabm => s.send .dm dlci
    | .ua => s
    | .dm =>
      if dlci = 0 then
        if (s.dlci 0).state = .connecting then s.uponDisconnect.setState 0 .rejected
        else s.uponDisconnect
      else s
    | .disc => if dlci = 0 then (s.send .ua dlci).uponDisconnect else s

/-- `ts27010_tty_open` of a new file.  Without an active line discipline it fails
before the reference is counted. -/
def ttyOpen (s : Mux) (line : Line) (active : Bool) : Mux :=
  if active then
    let counted := { s with
      refCount := Function.update s.refCount line (s.refCount line + 1) }
    let result := openChannel (s.dlci (tty2dlci line))
    { counted.onDlci (tty2dlci line) result with files := s.files ++ [⟨line, result.2.1⟩] }
  else { s with files := s.files ++ [⟨line, .failed⟩] }

/-- `ts27010_tty_close`: only the last reference closes the channel. -/
def ttyClose (s : Mux) (i : Nat) (line : Line) : Mux :=
  let counted := { s with
    refCount := Function.update s.refCount line (s.refCount line - 1) }
  if s.refCount line - 1 = 0 then
    let result := closeChannel (s.dlci (tty2dlci line))
    { counted.onDlci (tty2dlci line) result with
      files := s.files.set i ⟨line, result.2.1⟩ }
  else { counted with files := s.files.set i ⟨line, .closed⟩ }

/-- A section after a wait: its caller goes on with the channel of its line. -/
def resume (s : Mux) (i : Nat) (line : Line) (result : Dlci × FilePhase × List Cmd) : Mux :=
  { s.onDlci (tty2dlci line) result with files := s.files.set i ⟨line, result.2.1⟩ }

/-- The result of a wait as its condition on the channel's state allows it. -/
def waitAllowed (waitedFor : DlciState) (state : DlciState) : WaitResult → Bool
  | .woken => state ≠ waitedFor
  | _ => state = waitedFor

end Mux

/-- What can happen to the system. -/
inductive Event where
  | ttyOpen (line : Line) (active : Bool)
  | ttyClose (file : Nat)
  | waitReturn (file : Nat) (ret : WaitResult)
  | resume (file : Nat)
  | frame (cmd : Cmd) (dlci : Nat)
  deriving DecidableEq, Repr

/-- One event, if it can happen. -/
def Mux.exec (s : Mux) : Event → Option Mux
  | .ttyOpen line active => some (s.ttyOpen line active)
  | .ttyClose i =>
    match s.files[i]? with
    | some ⟨line, .opened⟩ | some ⟨line, .failed⟩ => some (s.ttyClose i line)
    | _ => none
  | .waitReturn i ret =>
    match s.files[i]? with
    | some ⟨line, .firstWait tries none⟩ =>
      if waitAllowed .connecting (s.dlci (tty2dlci line)).state ret then
        some { s with files := s.files.set i ⟨line, .firstWait tries (some ret)⟩ }
      else none
    | some ⟨line, .joinWait tries none⟩ =>
      if waitAllowed .connecting (s.dlci (tty2dlci line)).state ret then
        some { s with files := s.files.set i ⟨line, .joinWait tries (some ret)⟩ }
      else none
    | some ⟨line, .closeWait tries none⟩ =>
      if waitAllowed .disconnecting (s.dlci (tty2dlci line)).state ret then
        some { s with files := s.files.set i ⟨line, .closeWait tries (some ret)⟩ }
      else none
    | _ => none
  | .resume i =>
    match s.files[i]? with
    | some ⟨line, .firstWait tries (some ret)⟩ =>
      some (s.resume i line (openResume (s.dlci (tty2dlci line)) tries ret))
    | some ⟨line, .joinWait tries (some ret)⟩ =>
      some (s.resume i line (waitForOpenResume (s.dlci (tty2dlci line)) tries ret))
    | some ⟨line, .closeWait tries (some ret)⟩ =>
      some (s.resume i line (closeResume (s.dlci (tty2dlci line)) tries ret))
    | _ => none
  | .frame cmd dlci => some (s.handleFrame cmd dlci)

/-- The state after module initialisation. -/
def Mux.initial : Mux := ⟨fun _ => 0, fun _ => ⟨.disconnected, 0⟩, [], []⟩

/-- The tty lines and their channels. -/
def channels : TransitionSystem Mux Event where
  init s := s = Mux.initial
  step s a s' := s.exec a = some s'

end LteModemKernel.Ts27010
