import LteModemKernel.NetMux.Handshake

/-!
# The direct and the tty interface

A channel of the NetMUX is a device file in user space: `direct.c` makes it a
character device, `tty.c` a terminal.  Both keep a `CHANNELDATA` object for each
of their channels, with a reference count that the informs of the MUX raise and lower and
that decides whether the file can be opened.

The model is one such channel over its MUX.  Opening and closing the file are cut where
they call the MUX or sleep, so that informs come in between.  A terminal differs in two
points: `TTYClose` looks at the reference count, and `tty_open` closes the file
again after an open that failed.

Main definitions:

- `ChannelData`, `Interface.inform`: the object of the channel and what
  `DirectInform` and `TTYInform` do to it.
- `Interface.exec`: the steps of `DirectOpen`, `DirectClose`,
  `TTYOpen`, `TTYClose`, of the other side and of the MUX.
- `Interface.system`: the runs.
-/

namespace LteModemKernel.NetMux

/-! ## The object of a channel -/

/-- `DIRECT_CHANNELDATA` and `TTY_CHANNELDATA`; the three bits of the member
`state` are flags. -/
structure ChannelData where
  refcount : UInt32
  ready : Bool
  event : Bool
  eventSuccess : Bool
  clientInterface : UInt8
  burstsize : UInt32
  maxdata : UInt32
  hostByteCredit : UInt32
  hostSendCredit : UInt32
  deriving DecidableEq, Repr

/-- Why an open is refused before it asks the MUX. -/
inductive OpenError where
  | addrNotAvail
  | busy
  deriving DecidableEq, Repr

namespace ChannelData

/-- The object after `memset`. -/
def zero : ChannelData :=
  ⟨0, false, false, false, 0, 0, 0, 0, 0⟩

/-- Store `STATE_DEFAULT`. -/
def setDefault (d : ChannelData) : ChannelData :=
  { d with ready := false, event := false, eventSuccess := false }

/-- Store `STATE_READY`. -/
def setReady (d : ChannelData) : ChannelData :=
  { d with ready := true, event := false, eventSuccess := false }

/-- The checks at the start of `DirectOpen` and `TTYOpen`. -/
def openCheck (d : ChannelData) : Option OpenError :=
  if d.ready = false then some .addrNotAvail
  else if 0 < d.refcount then some .busy
  else none

/-- The inform about a configuration packet.  `created` is false if the device file
could not be made. -/
def configure (d : ChannelData) (clientInterface : UInt8)
    (burstsize maxdata hostByteCredit hostSendCredit : UInt32) (created : Bool) : ChannelData :=
  let d := { d with
    clientInterface := clientInterface
    burstsize := burstsize
    maxdata := maxdata
    hostByteCredit := hostByteCredit
    hostSendCredit := hostSendCredit }
  if created = true ∧ d.refcount = 0 then d.setReady else d

end ChannelData

/-! ## The informs -/

/-- The two interfaces with device files. -/
inductive InterfaceKind where
  | direct
  | tty
  deriving DecidableEq, Repr

/-- An interface, one of its channels, and the MUX it was registered at. -/
structure Interface where
  kind : InterfaceKind
  hostInterface : UInt8
  channel : Nat
  config : Config
  maxSendBuffers : UInt32
  registered : config.connects hostInterface = true
  channel_lt : channel < config.maxchannels
  channel_byte : channel < 256

/-- The channel that an inform about the opening or closing of a channel names. -/
def Inform.channel : Inform → Option Nat
  | .enableChannel _ (.enableChannel _ channel ..) => some channel.toNat
  | .disableChannel _ (.disableChannel _ channel ..) => some channel.toNat
  | _ => none

namespace Interface

/-- `DirectInform` and `TTYInform` for the object of the channel.  The inform
about a remote open only makes the interface reject it, see `Message.op`. -/
def inform (i : Interface) (d : ChannelData) : Inform → ChannelData
  | .disableMux _ => d.setDefault
  | .enableChannel index (.enableChannel acktype channel ..) =>
    if index = i.hostInterface ∧ channel.toNat = i.channel then
      match acktype with
      | .hostEnd .success | .clientEnd .success =>
        { d with refcount := d.refcount + 1, event := true, eventSuccess := true }
      | .hostEnd .failure | .clientEnd .failure => { d with event := true }
      | _ => d
    else d
  | .disableChannel index (.disableChannel _ channel ..) =>
    if index = i.hostInterface ∧ channel.toNat = i.channel then
      { d with refcount := d.refcount - 1 }
    else d
  | _ => d

/-! ## The states and steps -/

/-- The MUX, the object of the channel, and the calls in progress: opens that passed the
checks, opens that wait for the response, closes the file system still has to make (one
for each open file, for a terminal also one for each failed open), closes before their
`DisableChannel` without and with a reference count, and closes of a terminal before
they store the ready state. -/
structure State where
  mux : Mux
  chdat : ChannelData
  opening : Nat
  waiting : Nat
  due : Nat
  closing : Nat
  closingBusy : Nat
  settling : Nat

/-- The state after `CreateDirectInterface` or `CreateTTYInterface`. -/
def start (i : Interface) : State where
  mux := createMux i.config i.maxSendBuffers
  chdat := ChannelData.zero
  opening := 0
  waiting := 0
  due := 0
  closing := 0
  closingBusy := 0
  settling := 0

/-- The steps.  The packets of the other side are those for this channel; `mux` is
any other operation. -/
inductive Label where
  | config (clientInterface : UInt8) (burstsize maxdata hostByteCredit hostSendCredit : UInt32)
      (created : Bool)
  | openCheck
  | openEnable
  | openWake (signal : Bool)
  | close
  | closeCommand
  | closeBusy
  | closeReady
  | openResponse (success : Bool) (hostInterface clientInterface : UInt8)
      (bytecredit sendcredit : UInt32)
  | remoteClose (hostInterface clientInterface : UInt8)
  | closeResponse (hostInterface clientInterface : UInt8)
  | disableMux (acktype : AckType)
  | mux (op : Op)
  | send (result : LinkResult)

/-- An operation of the MUX that neither opens nor closes the channel.  The rejection of
a remote open does not touch it. -/
def foreign (i : Interface) : Op → Bool
  | .enableChannel (.clientEnd .failure) .. => true
  | .enableChannel _ channel .. => decide (channel % 256 ≠ i.channel)
  | .disableChannel _ channel .. => decide (channel % 256 ≠ i.channel)
  | .disableMux _ => false
  | _ => true

/-- A new state of the MUX, and the interface gets the informs. -/
def told (i : Interface) (s : State) (m : Mux) (informs : List Inform) : State :=
  { s with mux := m, chdat := informs.foldl i.inform s.chdat }

/-- An open failed: `tty_open` calls `tty_release_dev` then. -/
def openFailed (i : Interface) (s : State) : State :=
  match i.kind with
  | .direct => s
  | .tty => { s with due := s.due + 1 }

/-- `DisableChannel` as a close calls it. -/
def disable (i : Interface) (s : State) : Outcome :=
  s.mux.disableChannel (.hostEnd .command) i.channel i.hostInterface s.chdat.clientInterface

/-- The call of `EnableChannel` in an open. -/
def openEnable (i : Interface) (s : State) : State :=
  let out := s.mux.enableChannel (.hostEnd .command) i.channel s.chdat.burstsize
    s.chdat.maxdata i.hostInterface s.chdat.clientInterface s.chdat.hostByteCredit
    s.chdat.hostSendCredit 0 0
  let s := i.told s out.mux out.informs
  if out.result = .noError then { s with waiting := s.waiting + 1 } else i.openFailed s

/-- The end of an open after its wait. -/
def openEnd (i : Interface) (s : State) : State :=
  if s.chdat.eventSuccess = true then
    { s with
      chdat := { s.chdat with event := false, eventSuccess := false }
      due := s.due + 1 }
  else i.openFailed { s with chdat := { s.chdat with event := false } }

/-- `DirectClose` and `TTYClose` until they call `DisableChannel`. -/
def closeStart (i : Interface) (s : State) : State :=
  match i.kind with
  | .direct => { s with chdat := s.chdat.setReady, closing := s.closing + 1 }
  | .tty =>
    if s.chdat.refcount = 0 then { s with closing := s.closing + 1 }
    else { s with closingBusy := s.closingBusy + 1 }

/-- `TTYClose` of a channel with a reference count. -/
def closeBusy (i : Interface) (s : State) : State :=
  let out := i.disable s
  let s := i.told s out.mux out.informs
  if out.result = .noError then { s with settling := s.settling + 1 } else s

/-- A received packet for the channel or another operation of the MUX. -/
def operate (i : Interface) (s : State) (op : Op) : Option State :=
  (s.mux.exec op).map fun out => i.told s out.mux out.informs

/-- Run one step. -/
def exec (i : Interface) (s : State) : Label → Option State
  | .config client burst maxdata hb hs created =>
    some { s with chdat := s.chdat.configure client burst maxdata hb hs created }
  | .openCheck =>
    some (if s.chdat.openCheck = none then { s with opening := s.opening + 1 }
      else i.openFailed s)
  | .openEnable =>
    if 0 < s.opening then some (i.openEnable { s with opening := s.opening - 1 }) else none
  | .openWake signal =>
    if 0 < s.waiting ∧ (s.chdat.event = true ∨ s.chdat.ready = false ∨ signal = true) then
      some (i.openEnd { s with waiting := s.waiting - 1 })
    else none
  | .close => if 0 < s.due then some (i.closeStart { s with due := s.due - 1 }) else none
  | .closeCommand =>
    if 0 < s.closing then
      some (i.told { s with closing := s.closing - 1 } (i.disable s).mux (i.disable s).informs)
    else none
  | .closeBusy =>
    if 0 < s.closingBusy then some (i.closeBusy { s with closingBusy := s.closingBusy - 1 })
    else none
  | .closeReady =>
    if 0 < s.settling then
      some { s with chdat := s.chdat.setReady, settling := s.settling - 1 }
    else none
  | .openResponse success host client bytecredit sendcredit =>
    i.operate s (.enableChannel (.hostEnd (if success then .success else .failure)) i.channel
      0 0 host client 0 0 bytecredit sendcredit)
  | .remoteClose host client =>
    i.operate s (.disableChannel (.clientEnd .command) i.channel host client)
  | .closeResponse host client =>
    i.operate s (.disableChannel (.hostEnd .success) i.channel host client)
  | .disableMux acktype => i.operate s (.disableMux acktype)
  | .mux op => if i.foreign op = true then i.operate s op else none
  | .send result =>
    (s.mux.sendStep result).map fun out => i.told s out.1 out.2.2

/-- The runs of the interface. -/
def system (i : Interface) : Lib.TransitionSystem State Label where
  init s := s = i.start
  step s label s' := i.exec s label = some s'

end Interface

end LteModemKernel.NetMux
