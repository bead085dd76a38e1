import LteModemKernel.Lib.Runs

/-!
# The uplink of the NetMUX link driver

The model of the sending side of `drivers/misc/netmux_linkdriver/usb/netmux_usb_linkdriver.c`
and of the IPC driver below it, `ipc_api.c` and `ipc_dma.c` in
`drivers/usb/ipchost`.  `USBQueue` puts packets in `send_queue`.
`USBTransmit` cuts packets from the head of the queue into frames and gives them to
`hw_ctrl_ipc_write_ex2`.  The frames are copied to shared memory by DMA, one after another, or
by the processor if there is no DMA channel.  A message tells the BP; with its acknowledgement
the tasklet `MUXTransmitComplete` is scheduled, which takes the packets off the queue.

Every part of a function that runs under `ild_lock` is a step of its own, and so is every
interrupt.  A call that is between two of its parts is counted in the state.

Main definitions:
- `gather`, the loop of `USBTransmit` over the queue.
- `scanNodes`, the loop over a list of nodes in `ipc_dma_memcpy_node2buf`.
- `State`, `Label` and `State.exec`, the system.
-/

namespace LteModemKernel.LinkDriver

open Lib

/-! ## Nodes -/

/-- `MAX_FRAME_SIZE`, the value of `remMaxRcvSiz`. -/
def maxFrameSize : Nat := 1552

/-- `MAX_FRAME_NUM`. -/
def maxFrameNum : Nat := 10

/-- `MAX_IPC_EX2_NODE_NUM`, the `max_node_num` of the channel. -/
def maxNodeNum : Nat := 50

/-- `SEND_QUEUE_MAX_SIZE`, the length of `send_queue` and of `write_buff`. -/
def sendQueueMaxSize : Nat := 10

/-- `SEND_QUEUE_LOW_MARK`. -/
def sendQueueLowMark : Nat := sendQueueMaxSize / 2 + 1

/-- The size of `IPC_DATA_HEADER_INDEX` with some `IPC_FRAME_DESCRIPTOR`s behind it. -/
def headerSize (nbFrame : Nat) : Nat := 8 + 2 * nbFrame

/-- `max_temp_buff_size`. -/
def maxTempBuffSize : Nat := maxFrameSize * maxFrameNum + headerSize maxFrameNum

/-- The data of an `sk_buff`. -/
abbrev Packet := List UInt8

/-- `HW_CTRL_IPC_DATA_NODE_DESCRIPTOR_T`, with the bits of `comand`. -/
structure Node where
  length : Nat
  /-- `LAST_BIT`. -/
  last : Bool
  /-- `END_BIT`. -/
  fin : Bool
  /-- `DONE_BIT`. -/
  done : Bool
  /-- The memory from `data_ptr` to the end of its buffer. -/
  dataPtr : List UInt8
deriving DecidableEq, Repr

namespace Node

/-- The bytes that a node describes. -/
def bytes (x : Node) : List UInt8 := x.dataPtr.take x.length

/-- A node of one frame. -/
def frame (length : Nat) (dataPtr : List UInt8) : Node := ⟨length, true, false, false, dataPtr⟩

/-- A node without its `DONE_BIT`. -/
def undone (x : Node) : Node := { x with done := false }

end Node

/-! ## Cutting packets -/

/-- `frame_num`, of a 32-bit length. -/
def frameNum (len : Nat) : Nat := (len + 2 ^ 32 - 1) % 2 ^ 32 / maxFrameSize + 1

/-- The inner loop of `USBTransmit`, on what is left of a packet; the first argument bounds
its passes. -/
def cutLoop : Nat → List UInt8 → List Node
  | 0, data => [.frame data.length data]
  | fuel + 1, data =>
    if maxFrameSize < data.length then
      .frame maxFrameSize data :: cutLoop fuel (data.drop maxFrameSize)
    else [.frame data.length data]

/-- The nodes of a packet. -/
def cut (p : Packet) : List Node := cutLoop p.length p

/-- The loop of `USBTransmit` over the queue, from `buff_index` on: the nodes and the
number of packets they are from.  A packet of more than ten frames is not left out. -/
def gather : Nat → List Packet → List Node × Nat
  | _, [] => ([], 0)
  | buffIndex, p :: rest =>
    if frameNum p.length ≤ sendQueueMaxSize ∧
        sendQueueMaxSize < buffIndex + frameNum p.length then ([], 0)
    else
      let r := gather (buffIndex + (cut p).length) rest
      (cut p ++ r.1, r.2 + 1)

/-- `END_BIT` is set in the last node. -/
def markEnd : List Node → List Node
  | [] => []
  | [x] => [{ x with fin := true }]
  | x :: y :: rest => x :: markEnd (y :: rest)

/-- The array after nodes were written from its start on. -/
def overlay (nodes old : List Node) : List Node := nodes ++ old.drop nodes.length

/-! ## Lists of nodes in the IPC driver -/

/-- The `node_num` that `hw_ctrl_ipc_write_ex2` finds. -/
def nodeNum (nodes : List Node) : Nat := (nodes.take maxNodeNum).findIdx Node.fin + 1

/-- The `nb_frame` that `hw_ctrl_ipc_write_ex2` counts. -/
def countFrames (nodes : List Node) : Nat :=
  min maxFrameNum ((nodes.take (nodeNum nodes)).countP Node.last)

/-- The loop over the nodes in `ipc_dma_memcpy_node2buf`, with the passes that are left and
the values of `len` and `frame_size`: the lengths of the frames and the number of nodes
that were taken.  `check` is a condition on a node. -/
def scanNodes (check : Node → Bool) : Nat → List Node → Nat → Nat → List Nat × Nat
  | 0, _, _, _ => ([], 0)
  | _ + 1, [], _, _ => ([], 0)
  | fuel + 1, x :: rest, len, frameSize =>
    if maxTempBuffSize < len + x.length ∨ check x = false then ([], 0)
    else
      let r :=
        if x.fin then ([], 0)
        else scanNodes check fuel rest (len + x.length)
          (if x.last then 0 else frameSize + x.length)
      (if x.last then (frameSize + x.length) :: r.1 else r.1, r.2 + 1)

/-- The condition on the length of a node before it is copied by DMA. -/
def lengthOk (x : Node) : Bool := decide (0 < x.length ∧ x.length ≤ maxFrameSize)

/-- `DONE_BIT` is set in the first nodes. -/
def markDone (n : Nat) (nodes : List Node) : List Node :=
  (nodes.take n).map (fun x => { x with done := true }) ++ nodes.drop n

/-! ## The state -/

/-- `ipc_memcpy_node2buf`. -/
structure Dma where
  nodeIndex : Nat
  frameIndex : Nat
  totalSize : Nat
deriving DecidableEq, Repr

/-- The status that `hw_ctrl_ipc_write_ex2` returns. -/
inductive IpcStatus where
  | ok
  | writeOnGoing
  | error
deriving DecidableEq, Repr

/-- The link driver and the data channel of the IPC driver. -/
structure State where
  sendQueue : List Packet
  processedQueueLength : Nat
  muxDeferred : Bool
  writeBuff : List Node
  /-- The wake lock `netmux_to_usb` is held. -/
  netmuxToUsb : Bool
  /-- `MUXTransmitComplete` is scheduled. -/
  writeCallback : Bool
  writeFlag : Bool
  endFlag : Bool
  totalNum : Nat
  sentSequenceNumber : UInt8
  /-- `sequence_number`, `nb_frame` and `frames` of the header in shared memory. -/
  sequenceNumber : UInt8
  nbFrame : Nat
  frames : List Nat
  /-- The DMA transfer that is going on. -/
  dma : Option Dma
  /-- The messages to the BP that are not acknowledged. -/
  mailbox : List Nat
  /-- The calls of `USBTransmit` that have not begun. -/
  transmits : Nat
  /-- The calls of `USBTransmit` that are about to call `hw_ctrl_ipc_write_ex2`. -/
  writes : Nat
  /-- The runs of `MUXTransmitComplete` that are about to release the wake lock. -/
  unlocks : Nat
  /-- The times that `LDP_INFORM_RECOVERED` was sent. -/
  recovered : Nat
  /-- The packets that `USBQueue` accepted. -/
  accepted : List Packet
  /-- The packets that `MUXTransmitComplete` took off the queue. -/
  removed : List Packet
  /-- The transfers given to `hw_ctrl_ipc_write_ex2`. -/
  given : List (List Node)
  /-- The transfers for which `USBWriteCallback` was called. -/
  completed : Nat
deriving DecidableEq

/-- The steps. -/
inductive Label where
  /-- `USBQueue` with its locked part. -/
  | usbQueue (p : Packet)
  /-- The locked part of `USBTransmit`. -/
  | usbTransmit
  /-- The call of `hw_ctrl_ipc_write_ex2`; there is a DMA channel or not, and the message is
  written to the mailbox or not. -/
  | writeEx2 (dmaOk mboxOk : Bool)
  /-- The interrupt at the end of a DMA transfer. -/
  | dmaDone (mboxOk : Bool)
  /-- The interrupt for an acknowledgement of the BP. -/
  | bpAck (transSize : Nat)
  /-- The locked part of `MUXTransmitComplete`. -/
  | muxTransmitComplete
  /-- The end of `MUXTransmitComplete` for an empty queue. -/
  | wakeUnlock
deriving DecidableEq, Repr

namespace State

/-- After `LDInit`. -/
def init : State where
  sendQueue := []
  processedQueueLength := 0
  muxDeferred := false
  writeBuff := List.replicate sendQueueMaxSize ⟨0, false, false, false, []⟩
  netmuxToUsb := false
  writeCallback := false
  writeFlag := false
  endFlag := false
  totalNum := 0
  sentSequenceNumber := 0
  sequenceNumber := 0
  nbFrame := 0
  frames := []
  dma := none
  mailbox := []
  transmits := 0
  writes := 0
  unlocks := 0
  recovered := 0
  accepted := []
  removed := []
  given := []
  completed := 0

/-! ## The link driver -/

/-- `USBQueue`. -/
def usbQueue (s : State) (p : Packet) : State :=
  let s := { s with netmuxToUsb := true }
  if s.sendQueue.length = sendQueueMaxSize then { s with muxDeferred := true }
  else
    let s := { s with sendQueue := s.sendQueue ++ [p], accepted := s.accepted ++ [p] }
    if s.sendQueue.length - 1 = 0 then { s with transmits := s.transmits + 1 } else s

/-- `USBTransmit` up to the call of `hw_ctrl_ipc_write_ex2`. -/
def usbTransmit (s : State) : State :=
  let r := gather 0 s.sendQueue
  { s with
    writeBuff := overlay (markEnd r.1) s.writeBuff
    processedQueueLength := s.processedQueueLength + r.2
    transmits := s.transmits - 1
    writes := s.writes + 1 }

/-- A deferred NetMUX is told that it may send, once the queue is short. -/
def informRecovered (s : State) : State :=
  if s.muxDeferred ∧ s.sendQueue.length ≤ sendQueueLowMark then
    { s with muxDeferred := false, recovered := s.recovered + 1 }
  else s

/-- The packets of a transfer are taken off the queue. -/
def removeProcessed (s : State) : State :=
  { s with
    removed := s.removed ++ s.sendQueue.take s.processedQueueLength
    sendQueue := s.sendQueue.drop s.processedQueueLength
    processedQueueLength := 0 }

/-- `MUXTransmitComplete` up to the end of its locked part. -/
def muxTransmitComplete (s : State) : State :=
  let s := { s with writeCallback := false }.removeProcessed.informRecovered
  if s.sendQueue ≠ [] then { s with transmits := s.transmits + 1 }
  else { s with unlocks := s.unlocks + 1 }

/-- The end of `MUXTransmitComplete` for an empty queue. -/
def wakeUnlock (s : State) : State :=
  { s with netmuxToUsb := false, unlocks := s.unlocks - 1 }

/-- `USBWriteCallback`. -/
def usbWriteCallback (s : State) : State :=
  { s with writeCallback := true, completed := s.completed + 1 }

/-! ## The IPC driver -/

/-- `mailbox_write` and the check of its result. -/
def mailboxWrite (s : State) (length : Nat) (ok : Bool) : State :=
  if ok then { s with mailbox := s.mailbox ++ [length % 2 ^ 16] }
  else { s with writeFlag := false }

/-- `ipc_dma_memcpy_node2buf` without a DMA channel. -/
def memcpyNodes (s : State) (mboxOk : Bool) : State :=
  let r := scanNodes (fun _ => true) maxNodeNum s.writeBuff (headerSize s.nbFrame) 0
  let s := { s with
    writeBuff := markDone r.2 s.writeBuff
    totalNum := s.totalNum + ((s.writeBuff.take r.2).map Node.length).sum
    nbFrame := r.1.length
    frames := r.1
    endFlag := true }
  s.mailboxWrite (headerSize r.1.length + r.1.sum) mboxOk

/-- `ipc_dma_memcpy_node2buf` with a DMA channel; a list whose first node is refused has no
frame, and no transfer is started. -/
def startDma (s : State) : State × IpcStatus :=
  let r := scanNodes lengthOk maxNodeNum s.writeBuff (headerSize s.nbFrame) 0
  let s := { s with nbFrame := r.1.length, frames := r.1 }
  if r.1 = [] then ({ s with endFlag := true, writeFlag := false }, .error)
  else ({ s with dma := some ⟨0, 0, headerSize r.1.length⟩ }, .ok)

/-- `hw_ctrl_ipc_write_ex2` for `write_buff`. -/
def hwCtrlIpcWriteEx2 (s : State) (dmaOk mboxOk : Bool) : State × IpcStatus :=
  if s.writeFlag then (s, .writeOnGoing)
  else
    let s := { s with
      writeFlag := true
      totalNum := 0
      endFlag := false
      nbFrame := countFrames s.writeBuff
      sequenceNumber := s.sentSequenceNumber }
    if dmaOk then s.startDma else (s.memcpyNodes mboxOk, .ok)

/-- The rest of `USBTransmit`, which only prints the status. -/
def writeEx2 (s : State) (dmaOk mboxOk : Bool) : State :=
  let s := { s with
    writes := s.writes - 1
    given := s.given ++ [s.writeBuff.take (nodeNum s.writeBuff)] }
  (s.hwCtrlIpcWriteEx2 dmaOk mboxOk).1

/-- `ipc_dma_node2buf_callback` for the transfer of a node. -/
def node2bufCallback (s : State) (d : Dma) (x : Node) (mboxOk : Bool) : State :=
  let s := { s with
    writeBuff := s.writeBuff.set d.nodeIndex { x with done := true }
    totalNum := s.totalNum + x.length }
  let d := { d with
    totalSize := d.totalSize + x.length
    frameIndex := if x.last then d.frameIndex + 1 else d.frameIndex }
  if x.fin ∨ maxNodeNum ≤ d.nodeIndex ∨ s.nbFrame ≤ d.frameIndex then
    mailboxWrite { s with dma := none, endFlag := true } d.totalSize mboxOk
  else { s with dma := some { d with nodeIndex := d.nodeIndex + 1 } }

/-- `usb_ipc_api_write_callback`, which `mailbox_ISR` calls for an acknowledgement. -/
def usbIpcApiWriteCallback (s : State) (transSize : Nat) : State :=
  let s := { s with
    sentSequenceNumber := s.sentSequenceNumber + 1
    totalNum := min s.totalNum transSize }
  if s.endFlag then usbWriteCallback { s with writeFlag := false, endFlag := false } else s

/-! ## The system -/

/-- The result of a step, if the step can be taken. -/
def exec (s : State) : Label → Option State
  | .usbQueue p => some (s.usbQueue p)
  | .usbTransmit => if 0 < s.transmits then some s.usbTransmit else none
  | .writeEx2 dmaOk mboxOk => if 0 < s.writes then some (s.writeEx2 dmaOk mboxOk) else none
  | .dmaDone mboxOk =>
    match s.dma with
    | none => none
    | some d => (s.writeBuff[d.nodeIndex]?).map fun x => s.node2bufCallback d x mboxOk
  | .bpAck transSize =>
    match s.mailbox with
    | [] => none
    | _ :: rest => some ({ s with mailbox := rest }.usbIpcApiWriteCallback transSize)
  | .muxTransmitComplete => if s.writeCallback then some s.muxTransmitComplete else none
  | .wakeUnlock => if 0 < s.unlocks then some s.wakeUnlock else none

end State

/-- The link driver from the end of `LDInit` on. -/
def system : TransitionSystem State Label where
  init s := s = State.init
  step s l s' := s.exec l = some s'

end LteModemKernel.LinkDriver
