import LteModemKernel.NetMux.Packet

/-!
# The NetMUX object and its operations

The state of one MUX object and the functions of `mux.c` and `protocol.c` that
change it: opening and closing channels, queueing data and control packets, credit, and
handling what the peer sends.  The send loop and the reassembly of received fragments have
modules of their own.

An operation runs under the MUX lock and is one step.  Its result is the new state, the
error code and the informs given to the interfaces.  Where the code would leave an array
or dereference a null pointer there is no result.

Main definitions:

- `Mux`, `Channel`, `ChannelCredit`: the state.
- `Mux.executeStateTransition`, `Mux.enableChannel`, `Mux.disableChannel`:
  the channel state machine.
- `Mux.exec`: one operation, `Message.op`: the operation a received message
  leads to.
-/

namespace LteModemKernel.NetMux

open Lib

/-! ## Data -/

/-- The codes of `errorcodes.h`. -/
inductive ErrorCode where
  | noError
  | invalidParameter
  | memory
  | operationFailed
  | operationRestricted
  | incomplete
  deriving DecidableEq, Repr

/-- The states of an existing channel; a closed channel has no object. -/
inductive ChannelState where
  | opening
  | opened
  | sending
  | flushing
  | localClosing
  | remoteClosing
  deriving DecidableEq, Repr

/-- The events of the channel state machine. -/
inductive Event where
  | localOpen
  | openResponse
  | remoteOpen
  | localClose
  | closeResponse
  | remoteClose
  | localData
  | sendComplete
  | remoteData
  deriving DecidableEq, Repr

/-- The status of a MUX: `STATUS_DEFAULT`, `STATUS_ENABLE`,
`STATUS_ACTIVE`. -/
inductive Status where
  | default
  | enable
  | active
  deriving DecidableEq, Repr

/-- What `tag_commbuff` keeps for a received buffer: its channel and the size it had
with its header. -/
structure Tag where
  channel : Nat
  size : UInt32
  deriving DecidableEq, Repr

/-- A received buffer; `tag` is what its destructor will find. -/
structure Commbuff where
  data : List UInt8
  tag : Option Tag
  deriving DecidableEq, Repr

/-- The `CHANNEL` object of a channel that is not closed. -/
structure Channel where
  connectedInterface : UInt8
  sendQueue : List DataPacket
  receiveQueue : List Commbuff
  burstSize : UInt32
  maxDataAmount : UInt32
  qedDataAmount : UInt32
  qedTotlAmount : UInt32
  state : ChannelState
  clientInterface : UInt8
  hostInterface : UInt8
  deriving DecidableEq, Repr

/-- The credit of a channel; it outlives the channel object. -/
structure ChannelCredit where
  initialized : Bool
  maxHostByteCredit : UInt32
  maxHostSendCredit : UInt32
  clientByteCredit : UInt32
  clientSendCredit : UInt32
  replenishedByteCredit : UInt32
  replenishedSendCredit : UInt32
  deriving DecidableEq, Repr

/-- The credit of a new MUX. -/
def ChannelCredit.zero : ChannelCredit :=
  ⟨false, 0, 0, 0, 0, 0, 0⟩

/-- The parameters `CreateMUX` is given and the interface library: the names of the
registered interfaces at their indices. -/
structure Config where
  maxchannels : Nat
  localRcvBufferSize : UInt32
  remoteRcvBufferSize : UInt32
  interfaces : List (Option (List UInt8))
  maxchannels_pos : 0 < maxchannels
  localRcvBufferSize_pos : 0 < localRcvBufferSize
  remoteRcvBufferSize_pos : 0 < remoteRcvBufferSize

/-- A configuration with two channels and one interface, for runs on fixed inputs. -/
def Config.small : Config where
  maxchannels := 2
  localRcvBufferSize := 1024
  remoteRcvBufferSize := 1024
  interfaces := [some [100]]
  maxchannels_pos := by decide
  localRcvBufferSize_pos := by decide
  remoteRcvBufferSize_pos := by decide

/-- `ConnectInterface` finds an interface at the index. -/
def Config.connects (cfg : Config) (index : UInt8) : Bool :=
  (cfg.interfaces.getD index.toNat none).isSome

/-- `QueryInterfaceIndex`: the first index with the given name. -/
def Config.queryInterfaceIndex (cfg : Config) (name : List UInt8) : Option Nat :=
  cfg.interfaces.findIdx? fun entry => entry == some name

/-- The local variables a run of `ProcessSendQueues` carries from one round of its
loop to the next. -/
structure SendCursor where
  startChanlNum : Nat
  ignoreAmount : UInt32
  deriving DecidableEq, Repr

/-- A MUX object without its receive side.  `chanlNum` is the scan position that
`ProcessSendQueues` keeps between its runs and `sendRun` the state of a run in
progress, `held` are the received buffers the interfaces own and
`releasedTags` the tags of freed buffers that wait for
`ProcessReleasedCommBuffs`. -/
structure Mux where
  config : Config
  channels : Nat → Option Channel
  channelcredit : Nat → ChannelCredit
  status : Status
  totalQueuedAmount : UInt32
  sendBuffersAvailable : UInt32
  sendQueue : List ControlPacket
  chanlNum : Nat
  sendRun : Option SendCursor
  held : List Commbuff
  releasedTags : List Tag

/-- `CreateMUX`. -/
def createMux (config : Config) (maxSendBuffers : UInt32) : Mux where
  config := config
  channels := fun _ => none
  channelcredit := fun _ => ChannelCredit.zero
  status := .default
  totalQueuedAmount := 0
  sendBuffersAvailable := maxSendBuffers
  sendQueue := []
  chanlNum := 0
  sendRun := none
  held := []
  releasedTags := []

/-- What an interface is told. -/
inductive Inform where
  | enableMux (acktype : AckType)
  | disableMux (acktype : AckType)
  | enableChannel (index : UInt8) (packet : ControlPacket)
  | disableChannel (index : UInt8) (packet : ControlPacket)
  | queryInterface (index : UInt8) (acktype : AckType) (hostInterface result : UInt8)
      (name : Option (List UInt8))
  | channelSignal (index : UInt8) (packet : ControlPacket)
  | data (index : UInt8) (channel : Nat)
  deriving DecidableEq, Repr

/-- What an operation gives: the new state, the error code and the informs. -/
structure Outcome where
  mux : Mux
  result : ErrorCode
  informs : List Inform

namespace Mux

/-! ## Small updates -/

/-- Store a channel object. -/
def setChannel (m : Mux) (channel : Nat) (ch : Channel) : Mux :=
  { m with channels := Function.update m.channels channel (some ch) }

/-- Store the credit of a channel. -/
def setCredit (m : Mux) (channel : Nat) (credit : ChannelCredit) : Mux :=
  { m with channelcredit := Function.update m.channelcredit channel credit }

/-- An operation that ends with an error code and tells nobody. -/
def returns (m : Mux) (result : ErrorCode) : Outcome :=
  ⟨m, result, []⟩

/-- Queue a control packet: the common part of the `Transmit*` functions. -/
def transmit (m : Mux) (p : ControlPacket) : Mux :=
  { m with
    sendQueue := m.sendQueue ++ [p]
    totalQueuedAmount := m.totalQueuedAmount + UInt32.ofNat p.size }

/-- `TransmitCredit`. -/
def transmitCredit (m : Mux) (acktype : AckType) (channel : Nat)
    (bytecredit sendcredit : UInt32) : Mux :=
  m.transmit (.credit acktype (UInt8.ofNat channel) bytecredit sendcredit)

/-- `TransmitEnableMUX`. -/
def transmitEnableMux (m : Mux) (acktype : AckType) : Mux :=
  m.transmit (.enableMux acktype)

/-- `TransmitDisableMUX`. -/
def transmitDisableMux (m : Mux) (acktype : AckType) : Mux :=
  m.transmit (.disableMux acktype)

/-- `TransmitEnableChannel`. -/
def transmitEnableChannel (m : Mux) (acktype : AckType) (channel : Nat)
    (hostInterface clientInterface : UInt8) (bytecredit sendcredit : UInt32) : Mux :=
  m.transmit (.enableChannel acktype (UInt8.ofNat channel) hostInterface clientInterface
    bytecredit sendcredit)

/-- `TransmitDisableChannel`. -/
def transmitDisableChannel (m : Mux) (acktype : AckType) (channel : Nat)
    (hostInterface clientInterface : UInt8) : Mux :=
  m.transmit (.disableChannel acktype (UInt8.ofNat channel) hostInterface clientInterface)

/-- The `name` member for a C string; a string that does not fit with its
terminator is refused. -/
def nameField (name : Option (List UInt8)) : Option Name :=
  let text := name.getD []
  if h : text.length < packetMaxNameLength then
    some ⟨text ++ List.replicate (packetMaxNameLength - text.length) 0, by
      rw [List.length_append, List.length_replicate]
      omega⟩
  else none

/-- `TransmitQueryInterface`. -/
def transmitQueryInterface (m : Mux) (acktype : AckType) (hostInterface result : UInt8)
    (name : Option (List UInt8)) : Mux :=
  match nameField name with
  | none => m
  | some field => m.transmit (.queryInterface acktype hostInterface result field)

/-- `TransmitChannelSignal`. -/
def transmitChannelSignal (m : Mux) (acktype : AckType) (channel : Nat) (signal : UInt32) : Mux :=
  m.transmit (.channelSignal acktype (UInt8.ofNat channel) signal)

/-- The tags that freeing the buffers of a queue leaves, last freed first. -/
def queueTags (queue : List Commbuff) : List Tag :=
  (queue.filterMap Commbuff.tag).reverse

/-- `CloseChannel`: drop the channel object and free the buffers of its queues. -/
def closeChannel (m : Mux) (channel : Nat) : Mux :=
  match m.channels channel with
  | none => m
  | some ch =>
    { m with
      channels := Function.update m.channels channel none
      totalQueuedAmount := m.totalQueuedAmount - ch.qedTotlAmount
      releasedTags := queueTags ch.receiveQueue ++ m.releasedTags }

/-! ## The channel state machine -/

/-- `ExecuteStateTransition` on the channel object `ch` of a channel. -/
def executeStateTransition (m : Mux) (event : Event) (channel : Nat) (ch : Channel) :
    Mux × ErrorCode :=
  match ch.state, event with
  | .opening, .localClose | .opened, .localClose =>
    -- send client close and wait for ack
    ((m.transmitDisableChannel (.clientEnd .command) channel ch.hostInterface
        ch.clientInterface).setChannel channel { ch with state := .localClosing }, .noError)
  | .opened, .localData => (m.setChannel channel { ch with state := .sending }, .noError)
  | .opened, .remoteClose =>
    (m.setChannel channel { ch with state := .remoteClosing }, .noError)
  | .sending, .localClose => (m.setChannel channel { ch with state := .flushing }, .noError)
  | .sending, .remoteClose =>
    -- the send queue is purged, its counters are left as they are
    (m.setChannel channel { ch with sendQueue := [], state := .remoteClosing }, .noError)
  | .sending, .sendComplete => (m.setChannel channel { ch with state := .opened }, .noError)
  | .sending, .localData => (m, .noError)
  | .flushing, .remoteClose =>
    ((m.transmitDisableChannel (.hostEnd .success) channel ch.hostInterface
        ch.clientInterface).setChannel channel { ch with sendQueue := [] }, .noError)
  | .flushing, .sendComplete =>
    -- now that the data is flushed we can send a close
    ((m.transmitDisableChannel (.clientEnd .command) channel ch.hostInterface
        ch.clientInterface).setChannel channel { ch with state := .localClosing }, .noError)
  | .localClosing, .remoteClose =>
    (m.transmitDisableChannel (.hostEnd .success) channel ch.hostInterface
      ch.clientInterface, .noError)
  | .localClosing, .closeResponse => (m.closeChannel channel, .noError)
  | .remoteClosing, .localClose =>
    ((m.transmitDisableChannel (.hostEnd .success) channel ch.hostInterface
        ch.clientInterface).closeChannel channel, .noError)
  | _, _ => (m, .operationFailed)

/-- A new channel object of `EnableChannel`. -/
def newChannel (index : UInt8) (burstSize maxDataAmount : UInt32) (state : ChannelState) :
    Channel where
  connectedInterface := index
  sendQueue := []
  receiveQueue := []
  burstSize := burstSize
  maxDataAmount := maxDataAmount
  qedDataAmount := 0
  qedTotlAmount := 0
  state := state
  clientInterface := 0
  hostInterface := 0

/-- The credit limits a local open stores while the credit is not initialized. -/
def openCredit (credit : ChannelCredit) (hostByteCredit hostSendCredit : UInt32) : ChannelCredit :=
  if credit.initialized then credit
  else { credit with
    maxHostByteCredit := hostByteCredit
    maxHostSendCredit := hostSendCredit }

/-- What the response to an open stores while the credit is not initialized. -/
def responseCredit (credit : ChannelCredit) (clientByteCredit clientSendCredit : UInt32) :
    ChannelCredit :=
  if credit.initialized then credit
  else { credit with
    clientByteCredit := clientByteCredit
    clientSendCredit := clientSendCredit
    replenishedByteCredit := 0
    replenishedSendCredit := 0
    initialized := true }

/-- What a remote open stores while the credit is not initialized. -/
def acceptCredit (credit : ChannelCredit)
    (hostByteCredit hostSendCredit clientByteCredit clientSendCredit : UInt32) :
    ChannelCredit :=
  if credit.initialized then credit
  else
    { initialized := true
      maxHostByteCredit := hostByteCredit
      maxHostSendCredit := hostSendCredit
      clientByteCredit := clientByteCredit
      clientSendCredit := clientSendCredit
      replenishedByteCredit := 0
      replenishedSendCredit := 0 }

/-- `EnableChannel`. -/
def enableChannel (m : Mux) (acktype : AckType) (channel : Nat)
    (burstSize maxDataAmount : UInt32) (hostInterface clientInterface : UInt8)
    (hostByteCredit hostSendCredit clientByteCredit clientSendCredit : UInt32) : Outcome :=
  match acktype with
  | .hostEnd .command =>
    -- this is a LOCAL_OPEN event in the state machine
    if m.config.maxchannels ≤ channel then m.returns .operationFailed
    else match m.channels channel with
    | some _ => m.returns .operationRestricted
    | none =>
      if m.config.connects hostInterface then
        let credit := openCredit (m.channelcredit channel) hostByteCredit hostSendCredit
        let ch := newChannel hostInterface burstSize maxDataAmount .opening
        (((m.setCredit channel credit).setChannel channel ch).transmitEnableChannel
          (.clientEnd .command) channel hostInterface clientInterface hostByteCredit
          hostSendCredit).returns .noError
      else m.returns .operationFailed
  | .hostEnd .success =>
    -- this is a OPEN_RESPONSE event in the state machine
    if m.config.maxchannels ≤ channel then m.returns .operationFailed
    else match m.channels channel with
    | none => m.returns .operationFailed
    | some ch =>
      if ch.state = .opening then
        let credit := responseCredit (m.channelcredit channel) clientByteCredit
          clientSendCredit
        ⟨(m.setCredit channel credit).setChannel channel { ch with state := .opened },
          .noError,
          [.enableChannel hostInterface (.enableChannel (.hostEnd .success)
            (UInt8.ofNat channel) hostInterface clientInterface clientByteCredit
            clientSendCredit)]⟩
      else m.returns .operationRestricted
  | .hostEnd .failure =>
    -- this is a OPEN_RESPONSE event in the state machine
    if m.config.maxchannels ≤ channel then m.returns .operationFailed
    else match m.channels channel with
    | none => m.returns .operationFailed
    | some ch =>
      if ch.state = .opening then
        ⟨m.closeChannel channel, .noError,
          [.enableChannel hostInterface (.enableChannel (.hostEnd .failure)
            (UInt8.ofNat channel) hostInterface clientInterface clientByteCredit
            clientSendCredit)]⟩
      else m.returns .operationFailed
  | .clientEnd .command =>
    -- this is a REMOTE_OPEN event in the state machine
    if m.config.maxchannels ≤ channel then m.returns .operationFailed
    else match m.channels channel with
    | some _ => m.returns .operationRestricted
    | none =>
      if m.config.connects clientInterface then
        let credit := acceptCredit (m.channelcredit channel) hostByteCredit
          hostSendCredit clientByteCredit clientSendCredit
        let ch := newChannel clientInterface burstSize maxDataAmount .opened
        (((m.setCredit channel credit).setChannel channel ch).transmitEnableChannel
          (.hostEnd .success) channel hostInterface clientInterface hostByteCredit
          hostSendCredit).returns .noError
      else m.returns .operationFailed
  | .clientEnd .failure =>
    (m.transmitEnableChannel (.hostEnd .failure) channel hostInterface clientInterface
      hostByteCredit hostSendCredit).returns .noError
  | .clientEnd .success => m.returns .noError

/-- The inform of a closed channel: its packet has `client_end(COMMAND)` in every
case. -/
def closeInform (channel : Nat) (hostInterface clientInterface : UInt8) : Inform :=
  .disableChannel clientInterface
    (.disableChannel (.clientEnd .command) (UInt8.ofNat channel) hostInterface clientInterface)

/-- `DisableChannel`. -/
def disableChannel (m : Mux) (acktype : AckType) (channel : Nat)
    (hostInterface clientInterface : UInt8) : Outcome :=
  match acktype with
  | .hostEnd .command =>
    -- this is a LOCAL_CLOSE event in the state machine
    if m.config.maxchannels ≤ channel then m.returns .operationFailed
    else match m.channels channel with
    | none => m.returns .operationFailed
    | some ch =>
      let ch := { ch with
        clientInterface := clientInterface
        hostInterface := hostInterface }
      let m := m.setChannel channel ch
      if ch.state ∈ [.opening, .opened, .sending, .remoteClosing] then
        let (m, result) := m.executeStateTransition .localClose channel ch
        if result = .noError then m.returns .noError else m.returns .operationFailed
      else m.returns .operationFailed
  | .hostEnd .success =>
    -- this is a CLOSE_RESPONSE event in the state machine
    if m.config.maxchannels ≤ channel then m.returns .operationFailed
    else match m.channels channel with
    | none => m.returns .operationFailed
    | some ch =>
      let ch := { ch with
        clientInterface := clientInterface
        hostInterface := hostInterface }
      let m := m.setChannel channel ch
      if ch.state = .localClosing then
        let (m, result) := m.executeStateTransition .closeResponse channel ch
        if result = .noError then
          ⟨m, .noError, [closeInform channel hostInterface clientInterface]⟩
        else m.returns .operationFailed
      else m.returns .operationFailed
  | .clientEnd .command =>
    -- this is a REMOTE_CLOSE event in the state machine
    if m.config.maxchannels ≤ channel then m.returns .operationFailed
    else match m.channels channel with
    | none =>
      -- we are closed here but we need to respond anyway
      (m.transmitDisableChannel (.hostEnd .success) channel hostInterface
        clientInterface).returns .operationFailed
    | some ch =>
      let ch := { ch with
        clientInterface := clientInterface
        hostInterface := hostInterface }
      let m := m.setChannel channel ch
      if ch.state ∈ [.opened, .sending, .flushing, .localClosing] then
        let (m, result) := m.executeStateTransition .remoteClose channel ch
        if result = .noError then
          match (m.channels channel).map Channel.state with
          | some .flushing => (m.closeChannel channel).returns .noError
          | some .remoteClosing =>
            ⟨m, .noError, [closeInform channel hostInterface clientInterface]⟩
          | _ => m.returns .noError
        else m.returns .operationFailed
      else m.returns .operationFailed
  | _ => m.returns .operationFailed

/-! ## The MUX itself -/

/-- `EnableMUX`. -/
def enableMux (m : Mux) (acktype : AckType) : Outcome :=
  match acktype with
  | .hostEnd .command =>
    if m.status = .default then
      ({ m with status := .enable }.transmitEnableMux (.clientEnd .command)).returns .noError
    else m.returns .operationFailed
  | .hostEnd .success =>
    if m.status = .enable then
      ⟨{ m with status := .active }, .noError, [.enableMux (.hostEnd .success)]⟩
    else m.returns .operationFailed
  | .hostEnd .failure =>
    if m.status = .enable then
      ⟨{ m with status := .default }, .noError, [.enableMux (.hostEnd .failure)]⟩
    else m.returns .operationFailed
  | .clientEnd .command =>
    if m.status = .default then
      ⟨{ m with status := .active }.transmitEnableMux (.hostEnd .success), .noError,
        [.enableMux (.clientEnd .success)]⟩
    else m.returns .operationFailed
  | _ => m.returns .invalidParameter

/-- The loop of `DisableMUX` over all channels. -/
def closeChannels (m : Mux) : Mux :=
  (List.range m.config.maxchannels).foldl closeChannel m

/-- `DisableMUX`. -/
def disableMux (m : Mux) (acktype : AckType) : Outcome :=
  match acktype with
  | .hostEnd .command =>
    if m.status = .active then
      ⟨{ m.transmitDisableMux (.clientEnd .command) with status := .default }.closeChannels,
        .noError, [.disableMux (.hostEnd .command)]⟩
    else m.returns .operationFailed
  | .clientEnd .command =>
    if m.status = .active then
      -- the total is set to zero before the channels subtract their amounts from it
      ⟨{ m with status := .default, totalQueuedAmount := 0, sendQueue := [] }.closeChannels,
        .noError, [.disableMux (.clientEnd .command)]⟩
    else m.returns .operationFailed
  | _ => m.returns .invalidParameter

/-! ## Credit and received buffers -/

/-- `AdjustCredit`. -/
def adjustCredit (m : Mux) (acktype : AckType) (channel : Nat)
    (bytecredit sendcredit : UInt32) : Option Outcome :=
  match acktype with
  | .hostEnd .command =>
    some ((m.transmitCredit (.clientEnd .command) channel bytecredit sendcredit).returns
      .noError)
  | .clientEnd .command =>
    if channel < m.config.maxchannels then
      let credit := m.channelcredit channel
      some (({ m with sendBuffersAvailable := m.sendBuffersAvailable + sendcredit }.setCredit
        channel
        { credit with
          clientByteCredit := credit.clientByteCredit + bytecredit
          clientSendCredit := credit.clientSendCredit + sendcredit }).returns .noError)
    else none
  | _ => some (m.returns .operationFailed)

/-- The number of receive buffers a message takes. -/
def buffersUsed (length bufferSize : UInt32) : UInt32 :=
  if length % bufferSize = 0 then length / bufferSize else length / bufferSize + 1

/-- `CommBuffReleased`: a tagged buffer of the given size is gone. -/
def commBuffReleased (m : Mux) (tag : Tag) : Option Mux :=
  if tag.channel < m.config.maxchannels then
    let credit := m.channelcredit tag.channel
    let byteCredit := credit.replenishedByteCredit + (tag.size - UInt32.ofNat dataPacketHdrSize)
    let sendCredit := credit.replenishedSendCredit +
      buffersUsed tag.size m.config.localRcvBufferSize
    if credit.maxHostSendCredit / 2 ≤ sendCredit ∨ credit.maxHostByteCredit / 4 ≤ byteCredit then
      some ((m.transmitCredit (.clientEnd .command) tag.channel byteCredit sendCredit).setCredit
        tag.channel { credit with replenishedByteCredit := 0, replenishedSendCredit := 0 })
    else
      some (m.setCredit tag.channel
        { credit with
          replenishedByteCredit := byteCredit
          replenishedSendCredit := sendCredit })
  else none

/-- `ReceiveData`: tag the buffer, strip its header and queue it, or free it if the
channel is closed. -/
def receiveData (m : Mux) (d : DataPacket) : Option Mux :=
  let channel := d.channel.toNat
  if channel < m.config.maxchannels then
    match m.channels channel with
    | none => some m
    | some ch =>
      let buffer : Commbuff := ⟨d.payload, some ⟨channel, UInt32.ofNat d.size⟩⟩
      some (m.setChannel channel { ch with receiveQueue := ch.receiveQueue ++ [buffer] })
  else none

/-- `ReadData`: take the first buffer of a channel's queue, or its first
`count` bytes.  The part that stays is a clone and has no tag. -/
def readData (m : Mux) (channel count : Nat) : Option Mux :=
  if channel < m.config.maxchannels then
    match m.channels channel with
    | none => some m
    | some ch =>
      match ch.receiveQueue with
      | [] => some m
      | buffer :: rest =>
        if count < buffer.data.length then
          if count = 0 then none
          else
            some { m.setChannel channel
                { ch with receiveQueue := ⟨buffer.data.drop count, none⟩ :: rest } with
              held := m.held ++ [{ buffer with data := buffer.data.take count }] }
        else
          some { m.setChannel channel { ch with receiveQueue := rest } with
            held := m.held ++ [buffer] }
  else none

/-- One buffer of the second loop of `ProcessReceiveQueues`: it is freed if the
channel cannot forward data, given to the interface if that takes it, or put back. -/
def forwardData (m : Mux) (channel : Nat) (taken : Bool) : Mux :=
  match m.channels channel with
  | none => m
  | some ch =>
    match ch.receiveQueue with
    | [] => m
    | buffer :: rest =>
      if ch.state ∈ [.opened, .sending] then
        if taken then
          { m.setChannel channel { ch with receiveQueue := rest } with
            held := m.held ++ [buffer] }
        else m
      else
        { m.setChannel channel { ch with receiveQueue := rest } with
          releasedTags := buffer.tag.toList ++ m.releasedTags }

/-- An interface frees (or detags) a buffer it holds: `FreeCommBuffData` moves the
buffer's tag to the released ones. -/
def freeHeld (m : Mux) (index : Nat) : Mux :=
  match m.held[index]? with
  | none => m
  | some buffer =>
    { m with
      held := m.held.eraseIdx index
      releasedTags := buffer.tag.toList ++ m.releasedTags }

/-- `ProcessReleasedCommBuffs` handles one of the released tags. -/
def processReleased (m : Mux) (index : Nat) : Option Mux :=
  match m.releasedTags[index]? with
  | none => some m
  | some tag =>
    { m with releasedTags := m.releasedTags.eraseIdx index }.commBuffReleased tag

/-! ## Queries and signals -/

/-- `QueryExternalInterface`. -/
def queryExternalInterface (m : Mux) (acktype : AckType) (hostInterface result : UInt8)
    (name : Option (List UInt8)) : Outcome :=
  match acktype with
  | .hostEnd .command =>
    (m.transmitQueryInterface (.clientEnd .command) hostInterface result name).returns .noError
  | .hostEnd kind =>
    ⟨m, .noError, [.queryInterface hostInterface (.hostEnd kind) hostInterface result name]⟩
  | .clientEnd .command =>
    match name with
    | none => m.returns .invalidParameter
    | some text =>
      match m.config.queryInterfaceIndex text with
      | none =>
        (m.transmitQueryInterface (.hostEnd .failure) hostInterface 0 name).returns .noError
      | some index =>
        (m.transmitQueryInterface (.hostEnd .success) hostInterface (UInt8.ofNat index)
          name).returns .noError
  | _ => m.returns .noError

/-- `ChannelSignal`, with its parameters in the order of its declaration. -/
def channelSignal (m : Mux) (acktype : AckType) (signal : UInt32) (channel : Nat) :
    Option Outcome :=
  match acktype with
  | .hostEnd .command =>
    some ((m.transmitChannelSignal (.clientEnd .command) channel signal).returns .noError)
  | .clientEnd .command =>
    if channel < m.config.maxchannels then
      match m.channels channel with
      | none => some (m.returns .operationFailed)
      | some ch =>
        some ⟨m, .noError, [.channelSignal ch.connectedInterface
          (.channelSignal acktype (UInt8.ofNat channel) signal)]⟩
    else none
  | _ => some (m.returns .noError)

/-! ## Sending data -/

/-- The bytes a channel takes in one call of `SendData`: what is left of its limit,
at most the burst size. -/
def sendRoom (ch : Channel) : UInt32 :=
  if ch.burstSize < ch.maxDataAmount - ch.qedDataAmount then ch.burstSize
  else ch.maxDataAmount - ch.qedDataAmount

/-- What `SendData` takes of a buffer, with the channel object: the piece it queues
and the rest it gives back through `split`. -/
def sendPiece (m : Mux) (channel : Nat) (buffer : List UInt8) (split : Bool) :
    Except ErrorCode (Channel × List UInt8 × List UInt8) :=
  if buffer = [] then .error .invalidParameter
  else match m.channels channel with
  | none => .error .operationFailed
  | some ch =>
    if ch.state ∈ [.opened, .sending] then
      let room := (sendRoom ch).toNat
      if room < buffer.length then
        if split = false ∨ room = 0 then .error .operationRestricted
        else .ok (ch, buffer.take room, buffer.drop room)
      else .ok (ch, buffer, [])
    else .error .operationFailed

/-- `ApplyDataHdr`: the buffer with its header; the length is cast to 16 bits. -/
def applyDataHdr (channel : Nat) (piece : List UInt8) : DataPacket :=
  ⟨UInt8.ofNat channel, UInt16.ofNat piece.length, piece⟩

/-- The counters, the header and the queue for an accepted piece. -/
def queuePiece (m : Mux) (channel : Nat) (ch : Channel) (piece : List UInt8) : Mux :=
  let length := UInt32.ofNat piece.length
  let header := UInt32.ofNat dataPacketHdrSize
  let ch := { ch with
    qedDataAmount := ch.qedDataAmount + length
    qedTotlAmount := ch.qedTotlAmount + length + header
    sendQueue := ch.sendQueue ++ [applyDataHdr channel piece] }
  let m := { m with totalQueuedAmount := m.totalQueuedAmount + length + header }
  ((m.setChannel channel ch).executeStateTransition .localData channel ch).1

/-- `SendData`. -/
def sendData (m : Mux) (channel : Nat) (buffer : List UInt8) (split : Bool) : Option Outcome :=
  if buffer = [] ∨ channel < m.config.maxchannels then
    match m.sendPiece channel buffer split with
    | .error e => some (m.returns e)
    | .ok (ch, piece, rest) =>
      some ((m.queuePiece channel ch piece).returns
        (if rest = [] then .noError else .incomplete))
  else none

end Mux

/-! ## Operations and received messages -/

/-- The operations on a MUX apart from the send loop. -/
inductive Op where
  | enableMux (acktype : AckType)
  | disableMux (acktype : AckType)
  | enableChannel (acktype : AckType) (channel : Nat) (burstSize maxDataAmount : UInt32)
      (hostInterface clientInterface : UInt8)
      (hostByteCredit hostSendCredit clientByteCredit clientSendCredit : UInt32)
  | disableChannel (acktype : AckType) (channel : Nat) (hostInterface clientInterface : UInt8)
  | adjustCredit (acktype : AckType) (channel : Nat) (bytecredit sendcredit : UInt32)
  | queryExternalInterface (acktype : AckType) (hostInterface result : UInt8)
      (name : Option (List UInt8))
  | channelSignal (acktype : AckType) (signal : UInt32) (channel : Nat)
  | transmit (packet : ControlPacket)
  | sendData (channel : Nat) (buffer : List UInt8) (split : Bool)
  | receiveData (packet : DataPacket)
  | readData (channel count : Nat)
  | forwardData (channel : Nat) (taken : Bool)
  | freeHeld (index : Nat)
  | processReleased (index : Nat)
  deriving DecidableEq, Repr

/-- Run one operation. -/
def Mux.exec (m : Mux) : Op → Option Outcome
  | .enableMux acktype => some (m.enableMux acktype)
  | .disableMux acktype => some (m.disableMux acktype)
  | .enableChannel acktype channel burst maxData host client hb hs cb cs =>
    some (m.enableChannel acktype channel burst maxData host client hb hs cb cs)
  | .disableChannel acktype channel host client =>
    some (m.disableChannel acktype channel host client)
  | .adjustCredit acktype channel bytecredit sendcredit =>
    m.adjustCredit acktype channel bytecredit sendcredit
  | .queryExternalInterface acktype host result name =>
    some (m.queryExternalInterface acktype host result name)
  | .channelSignal acktype signal channel => m.channelSignal acktype signal channel
  | .transmit packet => some ((m.transmit packet).returns .noError)
  | .sendData channel buffer split => m.sendData channel buffer split
  | .receiveData packet => (m.receiveData packet).map fun m' => m'.returns .noError
  | .readData channel count => (m.readData channel count).map fun m' => m'.returns .noError
  | .forwardData channel taken => some ((m.forwardData channel taken).returns .noError)
  | .freeHeld index => some ((m.freeHeld index).returns .noError)
  | .processReleased index => (m.processReleased index).map fun m' => m'.returns .noError

/-- How an interface answers the inform about a remote open. -/
inductive Decision where
  | reject
  | accept (burstSize maxDataAmount hostByteCredit hostSendCredit : UInt32)
  deriving DecidableEq, Repr

/-- The text of the name member: the bytes before the first zero. -/
def Name.text (name : Name) : List UInt8 :=
  name.bytes.takeWhile fun b => b ≠ 0

/-- The operation that `ReceiveData` or `ReceiveCommand` starts for a complete
message.  A remote open goes to the interface, which rejects or accepts it.  The
arguments of `ChannelSignal` are passed in the order of the packet, not in the order
of the parameters. -/
def Message.op (decision : Decision) : Message → Op
  | .data d => .receiveData d
  | .control (.credit _ channel bytecredit sendcredit) =>
    .adjustCredit (.clientEnd .command) channel.toNat bytecredit sendcredit
  | .control (.enableMux acktype) => .enableMux acktype
  | .control (.disableMux acktype) => .disableMux acktype
  | .control (.enableChannel (.clientEnd .command) channel host client bytecredit sendcredit) =>
    match decision with
    | .reject => .enableChannel (.clientEnd .failure) channel.toNat 0 0 host client 0 0 0 0
    | .accept burst maxData hb hs =>
      .enableChannel (.clientEnd .command) channel.toNat burst maxData host client hb hs
        bytecredit sendcredit
  | .control (.enableChannel acktype channel host client bytecredit sendcredit) =>
    .enableChannel acktype channel.toNat 0 0 host client 0 0 bytecredit sendcredit
  | .control (.disableChannel acktype channel host client) =>
    .disableChannel acktype channel.toNat host client
  | .control (.queryInterface acktype host result name) =>
    .queryExternalInterface acktype host result (some name.text)
  | .control (.channelSignal acktype channel signal) =>
    .channelSignal acktype (UInt32.ofNat channel.toNat) signal.toNat

end LteModemKernel.NetMux
