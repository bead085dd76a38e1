import LteModemKernel.Buddy.Ownership
import LteModemKernel.Ghif.Fifo

/-!
# The 4GHIF driver

The application processor (AP) and the base processor (BP) exchange frames through a shared
memory: `FIFO_UL` and `FIFO_DL` hold descriptions of frames, `FIFO_ACK_DL` and
`FIFO_ACK_UL` the addresses of frames that are done.  The bytes of a frame are moved by
the sDMA controller.

This module models the driver of the AP with the interrupts, callbacks and tasklets it is
made of, and the BP as far as it touches the shared memory.  One event of the system is one
step of one of them:

- `IPC_4GHIF_submit_ul` can be interrupted, so a call of it is a sequence of events;
- the loop over the ACK messages and the one over the DL messages run with interrupts
  disabled and are one event each;
- `dl_complete_tasklet_function` calls the data driver in its middle, so it is two events.

A panic of the driver is an error with the text of the panic.
-/

namespace LteModemKernel.Ghif

open Lib

/-! ## Messages and packets -/

/-- `tIPC_MSG_TYPE`. -/
inductive MsgType where
  | initReq | initCnf
  | dlData | dlMgmt | dlMon | dlAck
  | ulData | ulMgmt | ulAck
  deriving DecidableEq, Repr

/-- `fifo_msg`: the description of a frame in the shared memory. -/
structure FifoMsg where
  type : MsgType
  tag : UInt8
  length : UInt16
  startAddress : UInt32
  deriving DecidableEq, Repr

instance : Inhabited FifoMsg := ⟨⟨.initReq, 0, 0, 0⟩⟩

/-- `IPC_4GHIF_PKT_TYPE`. -/
inductive PktType where
  | none | dlData | dlMgmt | dlMon | ulData | ulMgmt
  deriving DecidableEq, Repr

/-- `sdma_packet`: a buffer of the data driver.  A `pbuf` of 0 is `NULL`. -/
structure SdmaPacket where
  packetType : PktType
  pbuf : Nat
  bufSize : Nat
  bearerId : UInt8
  deriving DecidableEq, Repr

/-- `IPC_4GHIF_STATUS`. -/
inductive Status where
  | ok | invalidParam | busy | closed | alreadyOpen | resourcesFull | noFrame
  | bpNotReady | apNotReady | noTransOnGoing
  deriving DecidableEq, Repr

/-- `IPC_4GHIF_MAX_NB_UL_FRAMES` and `IPC_4GHIF_MAX_NB_DL_FRAMES`. -/
def maxNbFrames : Nat := 31

/-- `DATA_UL_PACKET_MAX_SIZE` and `DATA_DL_PACKET_MAX_SIZE`. -/
def dataPacketMaxSize : Nat := 8188

/-! ## The uplink -/

/-- Where a call of `IPC_4GHIF_submit_ul` is.  The addresses are those reserved so far,
so their number is the loop index and `processing_packet_nb`. -/
inductive UlCall where
  /-- No call. -/
  | idle
  /-- Before the test for room in `FIFO_UL`, or at the end of the loop. -/
  | room (packets : List SdmaPacket) (adr : List UInt32)
  /-- There is room; before the allocation. -/
  | alloc (packets : List SdmaPacket) (adr : List UInt32)
  /-- The allocation failed; `b_ul_pause` is not yet set. -/
  | pause (packets : List SdmaPacket) (adr : List UInt32)
  /-- After the loop, with the status that will be returned. -/
  | start (packets : List SdmaPacket) (adr : List UInt32) (status : Status)
  deriving DecidableEq, Repr

/-- The state of the uplink. -/
structure Uplink where
  fifoUl : Fifo FifoMsg
  fifoAckDl : Fifo UInt32
  /-- The memory manager, with the blocks that are handed out. -/
  mm : Buddy.World
  /-- `fifo_data_ul_msg_table`. -/
  msgTable : Nat → FifoMsg
  sdmaUlPacketNb : Nat
  bSdmaUlTransferOnGoing : Bool
  bUlPause : Bool
  call : UlCall
  /-- What the last call of `IPC_4GHIF_submit_ul` returned. -/
  result : Option (Status × Nat)
  /-- The sDMA transfer is started, its callback not yet called. -/
  dmaUl : Bool
  ulCompleteTasklet : Bool
  ulResumeTasklet : Bool
  /-- The frames that the BP has read and not yet acknowledged. -/
  bpHeld : List FifoMsg
  /-- The packets accepted so far, with the addresses of their blocks. -/
  accepted : List (SdmaPacket × UInt32)
  /-- The messages put in `FIFO_UL` so far. -/
  added : List FifoMsg
  /-- The messages read from it so far. -/
  taken : List FifoMsg
  /-- The addresses freed so far. -/
  freed : List UInt32
  /-- A call that ran short of room or memory has ended, and no resume was scheduled since. -/
  starved : Bool

/-- The uplink before the first call: `fifo_4ghif_init`, `fifo_ack_4ghif_init` and
`IPC_4GHIF_data_ul_mm_init`. -/
def Uplink.init : Uplink where
  fifoUl := Fifo.empty default
  fifoAckDl := Fifo.empty 0
  mm := ⟨Buddy.dataUlMmBuddyInit, []⟩
  msgTable := fun _ => default
  sdmaUlPacketNb := 0
  bSdmaUlTransferOnGoing := false
  bUlPause := false
  call := .idle
  result := none
  dmaUl := false
  ulCompleteTasklet := false
  ulResumeTasklet := false
  bpHeld := []
  accepted := []
  added := []
  taken := []
  freed := []
  starved := false

/-- The checks of the packets at the start of `IPC_4GHIF_submit_ul`. -/
def SdmaPacket.validUl (p : SdmaPacket) : Bool :=
  p.pbuf ≠ 0 && p.bufSize ≠ 0 && p.bufSize ≤ dataPacketMaxSize &&
    (p.packetType = .ulData || p.packetType = .ulMgmt)

/-- The message that describes an accepted packet. -/
def SdmaPacket.ulMsg (p : SdmaPacket) (adr : UInt32) : FifoMsg where
  type := if p.packetType = .ulMgmt then .ulMgmt else .ulData
  tag := if p.packetType = .ulMgmt then 0 else p.bearerId
  length := UInt16.ofNat p.bufSize
  startAddress := adr

/-- The messages of the packets whose blocks are reserved. -/
def ulMsgs (packets : List SdmaPacket) (adr : List UInt32) : List FifoMsg :=
  (packets.zip adr).map fun pa => pa.1.ulMsg pa.2

/-- A table of messages after its first entries are filled in. -/
def fill (table : Nat → FifoMsg) (msgs : List FifoMsg) : Nat → FifoMsg :=
  fun i => msgs.getD i (table i)

namespace Uplink

/-- A call of `IPC_4GHIF_submit_ul` ends. -/
def ulReturn (u : Uplink) (status : Status) (nb : Nat) : Uplink :=
  { u with
    call := .idle
    result := some (status, nb)
    starved := u.starved || status = .resourcesFull }

/-- The entry of `IPC_4GHIF_submit_ul`: the checks in front of the loop. -/
def submitUl (u : Uplink) (isOpen bpReady apReady : Bool) (packets : List SdmaPacket) : Uplink :=
  if !isOpen then u.ulReturn .closed 0
  else if !bpReady then u.ulReturn .bpNotReady 0
  else if !apReady then u.ulReturn .apNotReady 0
  else if u.bSdmaUlTransferOnGoing then u.ulReturn .busy 0
  else if packets = [] ∨ packets.length > maxNbFrames then u.ulReturn .invalidParam 0
  else if packets.any (fun p => !p.validUl) then u.ulReturn .invalidParam 0
  else { u with call := .room packets [], result := none }

/-- The test for room in `FIFO_UL`, with its lock held: if there is none the pause flag
is set under the same lock. -/
def testRoom (u : Uplink) (packets : List SdmaPacket) (adr : List UInt32) : Uplink :=
  if adr.length = packets.length then { u with call := .start packets adr .ok }
  else if u.fifoUl.spaceLeft ≤ adr.length then
    { u with bUlPause := true, call := .start packets adr .resourcesFull }
  else { u with call := .alloc packets adr }

/-- The allocation of a block for the next packet. -/
def allocBlock (u : Uplink) (packets : List SdmaPacket) (adr : List UInt32) :
    Except String Uplink :=
  match packets[adr.length]? with
  | none => .ok u
  | some p =>
    match Buddy.dataUlMmBuddyAlloc u.mm.mm (BitVec.ofNat 16 p.bufSize) with
    | .error text => .error text
    | .ok (mm, none) =>
      .ok { u with mm := ⟨mm, u.mm.live⟩, call := .pause packets adr }
    | .ok (mm, some a) =>
      .ok { u with
        mm := ⟨mm, ⟨a, BitVec.ofNat 16 p.bufSize⟩ :: u.mm.live⟩
        accepted := u.accepted ++ [(p, UInt32.ofNat a)]
        call := .room packets (adr ++ [UInt32.ofNat a]) }

/-- The rest of the call: the message table is filled and the transfer started, if a packet
was accepted. -/
def startTransfer (u : Uplink) (packets : List SdmaPacket) (adr : List UInt32)
    (status : Status) : Uplink :=
  if adr = [] then u.ulReturn .resourcesFull 0
  else
    { u.ulReturn status adr.length with
      sdmaUlPacketNb := adr.length
      msgTable := fill u.msgTable (ulMsgs packets adr)
      bSdmaUlTransferOnGoing := true
      dmaUl := true }

/-- The next step of a call of `IPC_4GHIF_submit_ul`. -/
def submitUlStep (u : Uplink) : Except String Uplink :=
  match u.call with
  | .idle => .ok u
  | .room packets adr => .ok (u.testRoom packets adr)
  | .alloc packets adr => u.allocBlock packets adr
  | .pause packets adr =>
    .ok { u with bUlPause := true, call := .start packets adr .resourcesFull }
  | .start packets adr status => .ok (u.startTransfer packets adr status)

/-- Messages are put in `FIFO_UL` one after the other. -/
def addMsgs (text : String) : List FifoMsg → Uplink → Except String Uplink
  | [], u => .ok u
  | msg :: rest, u =>
    match u.fifoUl.addMsg msg with
    | none => .error text
    | some fifoUl => addMsgs text rest { u with fifoUl := fifoUl, added := u.added ++ [msg] }

/-- The entries of the message table that belong to the transfer. -/
def transferMsgs (u : Uplink) : List FifoMsg :=
  (List.range u.sdmaUlPacketNb).map u.msgTable

/-- `sdma_4ghif_ul_callback`. -/
def sdmaUlCallback (u : Uplink) : Except String Uplink := do
  let u ← u.addMsgs "4GHIF ERROR in sdma_4ghif_ul_callback: no space in FIFO for DATA UL msg\n"
    u.transferMsgs
  .ok { u with dmaUl := false, ulCompleteTasklet := true }

/-- `ul_complete_tasklet_function`, up to the callback of the data driver. -/
def ulCompleteTaskletFunction (u : Uplink) : Uplink :=
  { u with bSdmaUlTransferOnGoing := false, ulCompleteTasklet := false }

/-- `ul_resume_tasklet_function`, up to the callback of the data driver. -/
def ulResumeTaskletFunction (u : Uplink) : Uplink :=
  { u with ulResumeTasklet := false }

/-- If the uplink is paused and there is room in `FIFO_UL`, its resume is scheduled. -/
def tryResume (u : Uplink) : Uplink :=
  if u.bUlPause ∧ u.fifoUl.spaceLeft > 0 then
    { u with bUlPause := false, ulResumeTasklet := true, starved := false }
  else u

/-- One round of the loop of `fifo_ack_4ghif_process_dl_msg`. -/
def processAck (u : Uplink) (adr : UInt32) : Except String Uplink :=
  match u.mm.exec (.free adr.toNat) with
  | .error text => .error text
  | .ok mm =>
    let u := { u with mm := mm, freed := u.freed ++ [adr] }.tryResume
    .ok { u with fifoAckDl := u.fifoAckDl.incrementReadInd 1 }

/-- The loop of `fifo_ack_4ghif_process_dl_msg`. -/
def processAcks : Nat → Uplink → Except String Uplink
  | 0, u => .ok u
  | fuel + 1, u =>
    match u.fifoAckDl.getMsg 0 with
    | none => .ok u
    | some adr => u.processAck adr >>= processAcks fuel

/-- `fifo_ack_4ghif_process_dl_msg`: the FIFO holds less than 256 messages. -/
def fifoAckProcessDlMsg (u : Uplink) : Except String Uplink :=
  processAcks 256 u

/-- The BP reads a message of `FIFO_UL`; it keeps the frames for an ACK. -/
def bpReadUl (u : Uplink) (msg : FifoMsg) : Uplink :=
  { u with
    fifoUl := u.fifoUl.incrementReadInd 1
    taken := u.taken ++ [msg]
    bpHeld := if msg.type = .initCnf then u.bpHeld else u.bpHeld ++ [msg] }

/-- The BP puts the ACK of a frame it has read in `FIFO_ACK_DL`. -/
def bpAckUl (u : Uplink) (i : Nat) : Option Uplink :=
  match u.bpHeld[i]? with
  | none => none
  | some msg => (u.fifoAckDl.addMsg msg.startAddress).map fun fifoAckDl =>
    { u with fifoAckDl := fifoAckDl, bpHeld := u.bpHeld.eraseIdx i }

end Uplink

/-! ## The downlink -/

/-- The state of the downlink. -/
structure Downlink where
  fifoDl : Fifo FifoMsg
  fifoAckUl : Fifo UInt32
  /-- `fifo_data_dl_msg_table`. -/
  msgTable : Nat → FifoMsg
  incomingDlPacketNb : Nat
  sdmaDlPacketNb : Nat
  bSdmaDlTransferOnGoing : Bool
  bProcessDlMsgOnGoing : Bool
  /-- The sDMA transfer is started, its callback not yet called. -/
  dmaDl : Bool
  dlCompleteTasklet : Bool
  bpReadyTasklet : Bool
  receiveDlTasklet : Bool
  /-- `dl_complete_tasklet_function` is in the callback of the data driver. -/
  dlCompleting : Bool
  /-- The BP has sent `INIT_REQ`. -/
  bpStarted : Bool
  /-- The frames put in `FIFO_DL` so far. -/
  written : List FifoMsg
  /-- The frames whose slots `IPC_4GHIF_submit_dl` has released so far. -/
  released : List FifoMsg
  /-- The addresses put in `FIFO_ACK_UL` so far. -/
  acked : List UInt32
  /-- The addresses read from it so far. -/
  ackTaken : List UInt32

/-- The downlink before the first message of the BP. -/
def Downlink.init : Downlink where
  fifoDl := Fifo.empty default
  fifoAckUl := Fifo.empty 0
  msgTable := fun _ => default
  incomingDlPacketNb := 0
  sdmaDlPacketNb := 0
  bSdmaDlTransferOnGoing := false
  bProcessDlMsgOnGoing := false
  dmaDl := false
  dlCompleteTasklet := false
  bpReadyTasklet := false
  receiveDlTasklet := false
  dlCompleting := false
  bpStarted := false
  written := []
  released := []
  acked := []
  ackTaken := []

/-- The type is one of a DL frame. -/
def MsgType.isDl (t : MsgType) : Bool := t = .dlData || t = .dlMgmt || t = .dlMon

/-- `packet_info`: what the data driver is told about a frame. -/
structure PacketInfo where
  packetType : PktType
  bufSize : Nat
  deriving DecidableEq, Repr

/-- The entry of `frames_info` for a message. -/
def FifoMsg.info (msg : FifoMsg) : PacketInfo where
  packetType :=
    if msg.type = .dlMgmt then .dlMgmt else if msg.type = .dlMon then .dlMon else .dlData
  bufSize := msg.length.toNat

/-- The buffer can take the frame. -/
def SdmaPacket.takes (p : SdmaPacket) (msg : FifoMsg) : Bool :=
  p.bufSize ≠ 0 && msg.length.toNat ≤ p.bufSize && p.pbuf ≠ 0

/-- A packet of the data driver with the fields of the frame that is moved into it. -/
def SdmaPacket.filled (p : SdmaPacket) (msg : FifoMsg) : SdmaPacket :=
  { p with
    packetType := msg.info.packetType
    bufSize := msg.length.toNat
    bearerId := msg.tag }

/-- The errors of `fifo_4ghif_get_frame_info`. -/
inductive FrameError where
  | invalidMsgType | invalidMsgLength
  deriving DecidableEq, Repr

/-- The text with which the callers of `fifo_4ghif_get_frame_info` panic. -/
def FrameError.text (func : String) : FrameError → String
  | .invalidMsgType => "4GHIF ERROR in " ++ func ++
      ": Expected IDL_DATA/MGMT/MON but received other message type"
  | .invalidMsgLength => "4GHIF ERROR in " ++ func ++ ": Incorrect data length"

/-- The loop of `fifo_4ghif_get_frame_info`: the messages from `index` on, as long as
there is one, the table has an entry and the ACK FIFO has room for it. -/
def frameInfo (fifoDl : Fifo FifoMsg) (ackUlSpaceLeft : Nat) :
    Nat → Nat → Except FrameError (List FifoMsg)
  | 0, _ => .ok []
  | fuel + 1, index =>
    match fifoDl.getMsg (Fin.ofNat 256 index) with
    | none => .ok []
    | some msg =>
      if !msg.type.isDl then .error .invalidMsgType
      else if msg.length = 0 ∨ msg.length.toNat > dataPacketMaxSize then
        .error .invalidMsgLength
      else if ackUlSpaceLeft ≤ index then .ok []
      else (frameInfo fifoDl ackUlSpaceLeft fuel (index + 1)).map (msg :: ·)

namespace Downlink

/-- `fifo_4ghif_get_frame_info`: the message table and the number of frames. -/
def getFrameInfo (d : Downlink) (func : String) : Except String Downlink :=
  match frameInfo d.fifoDl d.fifoAckUl.spaceLeft maxNbFrames 0 with
  | .error e => .error (e.text func)
  | .ok msgs => .ok { d with msgTable := fill d.msgTable msgs, incomingDlPacketNb := msgs.length }

/-- `fifo_4ghif_process_dl_msg`, with `b_bp_ready`. -/
def fifoProcessDlMsg (d : Downlink) (bpReady : Bool) : Except String (Downlink × Bool) :=
  if d.bProcessDlMsgOnGoing then .ok (d, bpReady)
  else if !bpReady then
    match d.fifoDl.getMsg 0 with
    | none => .ok (d, bpReady)
    | some msg =>
      if msg.type ≠ .initReq then
        .error "4GHIF ERROR in fifo_4ghif_process_dl_msg: Expected INIT_REQ but received %d message"
      else
        .ok ({ d with
          fifoDl := d.fifoDl.incrementReadInd 1
          bProcessDlMsgOnGoing := true
          bpReadyTasklet := true }, true)
  else do
    let d ← d.getFrameInfo "fifo_4ghif_process_dl_msg"
    if d.incomingDlPacketNb > 0 then
      .ok ({ d with bProcessDlMsgOnGoing := true, receiveDlTasklet := true }, bpReady)
    else .ok (d, bpReady)

/-- The entries of the message table for the frames that are available. -/
def incomingMsgs (d : Downlink) : List FifoMsg :=
  (List.range d.incomingDlPacketNb).map d.msgTable

/-- `IPC_4GHIF_get_dl_frames_nb`: the status and the available frames. -/
def getDlFramesNb (d : Downlink) : Except String (Downlink × Status × List PacketInfo) :=
  if d.bSdmaDlTransferOnGoing then .ok (d, .busy, [])
  else do
    let d ← d.getFrameInfo "IPC_4GHIF_get_dl_frames_nb"
    let infos := d.incomingMsgs.map FifoMsg.info
    if d.incomingDlPacketNb > 0 then .ok ({ d with bProcessDlMsgOnGoing := true }, .ok, infos)
    else .ok (d, .ok, infos)

/-- The entries of the message table that belong to the transfer. -/
def transferMsgs (d : Downlink) : List FifoMsg :=
  (List.range d.sdmaDlPacketNb).map d.msgTable

/-- The number of frames is known: their slots are released and the transfer is started. -/
def startTransfer (d : Downlink) : Downlink :=
  { d with
    bSdmaDlTransferOnGoing := true
    fifoDl := d.fifoDl.incrementReadInd (Fin.ofNat 256 d.sdmaDlPacketNb)
    released := d.released ++ d.fifoDl.contents.take d.sdmaDlPacketNb
    dmaDl := true }

/-- `IPC_4GHIF_submit_dl`: the status and the packets that the transfer fills. -/
def submitDl (d : Downlink) (isOpen bpReady apReady : Bool) (packets : List SdmaPacket) :
    Downlink × Status × List SdmaPacket :=
  if !isOpen then (d, .closed, [])
  else if !bpReady then (d, .bpNotReady, [])
  else if !apReady then (d, .apNotReady, [])
  else if d.bSdmaDlTransferOnGoing then (d, .busy, [])
  else if !d.bProcessDlMsgOnGoing then (d, .noFrame, [])
  else if packets = [] ∨ packets.length > maxNbFrames then (d, .invalidParam, [])
  else
    let d := { d with sdmaDlPacketNb := min packets.length d.incomingDlPacketNb }
    let transfers := packets.zip d.transferMsgs
    if transfers.any (fun pm => !pm.1.takes pm.2) then (d, .invalidParam, [])
    else (d.startTransfer, .ok, transfers.map fun pm => pm.1.filled pm.2)

/-- ACKs are put in `FIFO_ACK_UL` one after the other. -/
def addAcks (text : String) : List UInt32 → Downlink → Except String Downlink
  | [], d => .ok d
  | adr :: rest, d =>
    match d.fifoAckUl.addMsg adr with
    | none => .error text
    | some fifoAckUl =>
      addAcks text rest { d with fifoAckUl := fifoAckUl, acked := d.acked ++ [adr] }

/-- `sdma_4ghif_dl_callback`. -/
def sdmaDlCallback (d : Downlink) : Except String Downlink := do
  let d ← d.addAcks "4GHIF ERROR in sdma_4ghif_dl_callback: no space in FIFO for ACK DL msg\n"
    (d.transferMsgs.map FifoMsg.startAddress)
  .ok { d with dmaDl := false, dlCompleteTasklet := true }

/-- The BP puts a message in `FIFO_DL`. -/
def bpWriteDl (d : Downlink) (msg : FifoMsg) : Option Downlink :=
  (d.fifoDl.addMsg msg).map fun fifoDl =>
    { d with
      fifoDl := fifoDl
      bpStarted := true
      written := if msg.type = .initReq then d.written else d.written ++ [msg] }

/-- The BP reads an ACK of `FIFO_ACK_UL`. -/
def bpReadAck (d : Downlink) (adr : UInt32) : Downlink :=
  { d with
    fifoAckUl := d.fifoAckUl.incrementReadInd 1
    ackTaken := d.ackTaken ++ [adr] }

end Downlink

/-! ## The driver -/

/-- The state of the driver and of the BP. -/
structure State where
  bIpc4ghifOpen : Bool
  bBpReady : Bool
  bApReady : Bool
  ul : Uplink
  dl : Downlink

/-- The state before the first `IPC_4GHIF_open`. -/
def State.init : State := ⟨false, false, false, Uplink.init, Downlink.init⟩

/-- A step of the driver or of the BP. -/
inductive Event where
  /-- `IPC_4GHIF_open`. -/
  | openIpc
  /-- `IPC_4GHIF_close`. -/
  | closeIpc
  /-- `IPC_4GHIF_ready`. -/
  | ready
  /-- A call of `IPC_4GHIF_submit_ul` enters. -/
  | submitUl (packets : List SdmaPacket)
  /-- The call goes on. -/
  | submitUlStep
  /-- The callback of the sDMA controller for the uplink. -/
  | sdmaUl
  /-- `ul_complete_tasklet`. -/
  | ulComplete
  /-- `ul_resume_tasklet`. -/
  | ulResume
  /-- The mailbox interrupt. -/
  | mailbox
  /-- `bp_ready_tasklet`. -/
  | bpReady
  /-- `receive_dl_tasklet`. -/
  | receiveDl
  /-- `IPC_4GHIF_get_dl_frames_nb`. -/
  | getDlFramesNb
  /-- `IPC_4GHIF_submit_dl`. -/
  | submitDl (packets : List SdmaPacket)
  /-- The callback of the sDMA controller for the downlink. -/
  | sdmaDl
  /-- `dl_complete_tasklet` up to the callback of the data driver. -/
  | dlComplete
  /-- The rest of `dl_complete_tasklet`. -/
  | dlCompleted
  /-- The BP reads a message of `FIFO_UL`. -/
  | bpReadUl
  /-- The BP acknowledges the UL frame at an index of those it has read. -/
  | bpAckUl (i : Nat)
  /-- The BP puts a message in `FIFO_DL`. -/
  | bpWriteDl (msg : FifoMsg)
  /-- The BP reads an ACK of `FIFO_ACK_UL`. -/
  | bpReadAck
  deriving DecidableEq

/-- A DL message that the BP may write: `INIT_REQ` first, then frames of a valid type and
length. -/
def FifoMsg.validDl (msg : FifoMsg) (started : Bool) : Bool :=
  if started then
    msg.type.isDl && msg.length ≠ 0 && msg.length.toNat ≤ dataPacketMaxSize
  else msg.type = .initReq

namespace State

/-- `fifo_ack_4ghif_process_dl_msg` and `fifo_4ghif_process_dl_msg`, as the mailbox
interrupt and two of the tasklets call them. -/
def processMsgs (s : State) : Except String State := do
  let ul ← s.ul.fifoAckProcessDlMsg
  let (dl, bpReady) ← s.dl.fifoProcessDlMsg s.bBpReady
  .ok { s with ul := ul, dl := dl, bBpReady := bpReady }

/-- `IPC_4GHIF_open`: the FIFOs and the memory manager are initialised as long as the BP
is not ready. -/
def openIpc (s : State) : State × Status :=
  if s.bIpc4ghifOpen then (s, .alreadyOpen)
  else
    let s :=
      if s.bBpReady then s
      else
        { s with
          ul := { s.ul with
            fifoUl := { s.ul.fifoUl with readInd := 0, writeInd := 0 }
            fifoAckDl := { s.ul.fifoAckDl with readInd := 0 }
            mm := ⟨Buddy.dataUlMmBuddyInit, []⟩ }
          dl := { s.dl with
            fifoDl := { s.dl.fifoDl with readInd := 0 }
            fifoAckUl := { s.dl.fifoAckUl with readInd := 0, writeInd := 0 } } }
    ({ s with
      bIpc4ghifOpen := true
      dl := { s.dl with bpReadyTasklet := s.dl.bpReadyTasklet || s.bBpReady } }, .ok)

/-- `IPC_4GHIF_close`. -/
def closeIpc (s : State) : State × Status :=
  if !s.bIpc4ghifOpen then (s, .closed) else ({ s with bIpc4ghifOpen := false }, .ok)

/-- `INIT_CNF`. -/
def initCnfMsg : FifoMsg := ⟨.initCnf, 0, 0, 0⟩

/-- `IPC_4GHIF_ready`. -/
def ready (s : State) : Except String (State × Status) :=
  if !s.bIpc4ghifOpen then .ok (s, .closed)
  else if !s.bBpReady then .ok (s, .bpNotReady)
  else if s.bApReady then .ok (s, .ok)
  else do
    let ul ← s.ul.addMsgs "4GHIF ERROR in IPC_4GHIF_ready: no space in FIFO for INIT CNF MSG\n"
      [initCnfMsg]
    .ok ({ s with ul := ul, bApReady := true }, .ok)

/-- The effect of an event; no result where it cannot happen. -/
def exec (s : State) : Event → Option (Except String State)
  | .openIpc => some (.ok s.openIpc.1)
  | .closeIpc => some (.ok s.closeIpc.1)
  | .ready => some (s.ready.map Prod.fst)
  | .submitUl packets =>
    if s.ul.call = .idle then
      some (.ok { s with
        ul := s.ul.submitUl s.bIpc4ghifOpen s.bBpReady s.bApReady packets })
    else none
  | .submitUlStep =>
    if s.ul.call = .idle then none
    else some (s.ul.submitUlStep.map fun ul => { s with ul := ul })
  | .sdmaUl =>
    if s.ul.dmaUl then some (s.ul.sdmaUlCallback.map fun ul => { s with ul := ul }) else none
  | .ulComplete =>
    if s.ul.ulCompleteTasklet then some (.ok { s with ul := s.ul.ulCompleteTaskletFunction })
    else none
  | .ulResume =>
    if s.ul.ulResumeTasklet then some (.ok { s with ul := s.ul.ulResumeTaskletFunction })
    else none
  | .mailbox => if s.bIpc4ghifOpen then some s.processMsgs else none
  | .bpReady =>
    if s.dl.bpReadyTasklet then
      some { s with dl := { s.dl with
        bpReadyTasklet := false, bProcessDlMsgOnGoing := false } }.processMsgs
    else none
  | .receiveDl =>
    if s.dl.receiveDlTasklet then
      some (.ok { s with dl := { s.dl with receiveDlTasklet := false } })
    else none
  | .getDlFramesNb => some (s.dl.getDlFramesNb.map fun r => { s with dl := r.1 })
  | .submitDl packets =>
    some (.ok { s with
      dl := (s.dl.submitDl s.bIpc4ghifOpen s.bBpReady s.bApReady packets).1 })
  | .sdmaDl =>
    if s.dl.dmaDl then some (s.dl.sdmaDlCallback.map fun dl => { s with dl := dl }) else none
  | .dlComplete =>
    if s.dl.dlCompleteTasklet ∧ !s.dl.dlCompleting then
      some (.ok { s with dl := { s.dl with
        dlCompleteTasklet := false, bSdmaDlTransferOnGoing := false, dlCompleting := true } })
    else none
  | .dlCompleted =>
    if s.dl.dlCompleting then
      some { s with dl := { s.dl with
        dlCompleting := false, bProcessDlMsgOnGoing := false } }.processMsgs
    else none
  | .bpReadUl => (s.ul.fifoUl.getMsg 0).map fun msg => .ok { s with ul := s.ul.bpReadUl msg }
  | .bpAckUl i => (s.ul.bpAckUl i).map fun ul => .ok { s with ul := ul }
  | .bpWriteDl msg =>
    if msg.validDl s.dl.bpStarted then (s.dl.bpWriteDl msg).map fun dl => .ok { s with dl := dl }
    else none
  | .bpReadAck => (s.dl.fifoAckUl.getMsg 0).map fun adr => .ok { s with dl := s.dl.bpReadAck adr }

/-- The state after an event that happens without a panic. -/
def act (s : State) (e : Event) : Option State :=
  (s.exec e).bind Except.toOption

end State

/-- The driver and the BP, from the loading of the driver on. -/
def system : TransitionSystem State Event where
  init s := s = State.init
  step s e s' := s.act e = some s'

end LteModemKernel.Ghif
