import LteModemKernel.Lib.ByteLanes
import LteModemKernel.LinkDriver.Model

/-!
# The downlink of the NetMUX link driver

The model of the receiving side of `netmux_usb_linkdriver.c` and of the IPC driver.  The BP
puts a message of frames in shared memory and its size in mailbox 0.  The interrupt hands the
message over at once if `hw_ctrl_ipc_read_ex2` was called, and keeps it in `read_msg`
otherwise.  The frames are copied to the nodes of `ipc_readbuff`, by DMA or by the processor,
`USBReadCallback` acknowledges the message, and the tasklet `MUXReceiveComplete` passes the
buffers to NetMUX and calls `hw_ctrl_ipc_read_ex2` again.

The processors have different byte orders and the DMA turns one into the other, so the driver swaps
halves of words where it looks at the header itself.  With an odd number of frames the last length
shares its word with the first two bytes of data; this word is swapped back for every DMA transfer.

The sections with interrupts disabled are atomic, as on the single core of the system.  The memory
for new receive buffers is there.

Main definitions:
- `Message.encode`, what the BP writes.
- `State`, `Label` and `State.exec`, the system.
-/

namespace LteModemKernel.LinkDriver
namespace Downlink

open Lib

/-! ## Messages -/

/-- `IPC_FRAME_VERSION`. -/
def ipcFrameVersion : Nat := 0x0200

/-- A DATA message of the BP. -/
structure Message where
  frames : List (List UInt8)
  options : UInt8
  checksum : Nat
deriving DecidableEq, Repr

/-- The messages that the BP sends. -/
def Message.Valid (msg : Message) : Prop :=
  msg.frames.length ≤ maxFrameNum ∧ ∀ f ∈ msg.frames, 1 ≤ f.length ∧ f.length ≤ maxFrameSize

instance (msg : Message) : Decidable msg.Valid := inferInstanceAs (Decidable (_ ∧ _))

/-- The bytes of a message in the order of the BP: `IPC_DATA_HEADER_INDEX`, the lengths of the
frames and the frames. -/
def Message.encode (msg : Message) (sequenceNumber : UInt8) : List UInt8 :=
  be16 ipcFrameVersion ++ (be16 msg.frames.length ++ ([sequenceNumber, msg.options] ++
    (be16 msg.checksum ++ (msg.frames.flatMap (fun f => be16 f.length) ++ msg.frames.flatten))))

/-! ## The header in shared memory -/

/-- `ipc_header_exchange_endian32`. -/
def ipcHeaderExchangeEndian32 (m : ByteMem) (usFrameNb : Nat) : ByteMem :=
  (List.range ((usFrameNb + 1) / 2 - usFrameNb % 2)).foldl (fun m i => swapHalves (2 + i) m)
    (swapHalves 1 (swapHalves 0 m))

/-- For an odd number of frames the halves of the word with the last length are swapped. -/
def swapOdd (nbFrame : Nat) (m : ByteMem) : ByteMem :=
  if nbFrame % 2 = 1 then swapHalves ((headerSize nbFrame - 2) / 4) m else m

/-- `header->version`. -/
def version (m : ByteMem) : Nat := u16At m 0

/-- `header->nb_frame`. -/
def nbFrame (m : ByteMem) : Nat := u16At m 2

/-- `header->sequence_number`. -/
def sequenceNumber (m : ByteMem) : UInt8 := m 4

/-- `header->frames[i].length`. -/
def frameLength (m : ByteMem) (i : Nat) : Nat := u16At m (8 + 2 * i)

/-- `header->frames[i].length` is set. -/
def setFrameLength (m : ByteMem) (i v : Nat) : ByteMem := setU16 m (8 + 2 * i) v

/-- The header as `ipc_api_read_callback` leaves it. -/
def openHeader (m : ByteMem) : ByteMem :=
  let m := swapBytes 4 (ipcHeaderExchangeEndian32 m (u16At m 0))
  swapOdd (nbFrame m) m

/-! ## Nodes -/

/-- A node of `ipc_readbuff` with a new buffer. -/
def blank : Node := ⟨maxFrameSize, false, false, false, []⟩

/-- Bytes are copied to the buffer of a node. -/
def fill (x : Node) (bytes : List UInt8) : Node :=
  { x with dataPtr := bytes ++ x.dataPtr.drop bytes.length, done := true }

/-- `ipc_readbuff` before a read. -/
def posted : List Node := List.replicate (maxFrameNum - 1) blank ++ [{ blank with fin := true }]

/-- The loop of `ipc_dma_memcpy_buf2node` without a DMA channel, over the nodes that are left:
the nodes and the bytes.  The processor copies the bytes in its own order. -/
def memcpyLoop (m : ByteMem) : List Node → Nat → Nat → Nat → List Node × List UInt8
  | [], _, _, _ => ([], [])
  | x :: rest, frameIndex, size, len =>
    let num := min size x.length
    let bytes := (List.range num).map fun i => m (len + i)
    let y := fill x bytes
    if size - num = 0 then
      let y := { y with length := num, last := true }
      if frameIndex + 1 < nbFrame m ∧ nbFrame m ≤ maxFrameNum ∧ rest ≠ [] then
        let r := memcpyLoop m rest (frameIndex + 1) (frameLength m (frameIndex + 1)) (len + num)
        (y :: r.1, bytes ++ r.2)
      else ({ y with fin := true } :: rest, bytes)
    else if rest ≠ [] then
      let r := memcpyLoop m rest frameIndex (size - num) (len + num)
      (y :: r.1, bytes ++ r.2)
    else ([{ y with fin := true }], bytes)

/-- The loop of `MUXReceiveComplete`: the buffers for NetMUX and the new nodes, if there is no
panic. -/
def receiveLoop : List Node → Option (List (List UInt8) × List Node)
  | [] => some ([], [])
  | x :: rest =>
    if maxFrameSize < x.length then none
    else if x.fin then some ([x.bytes], blank :: rest)
    else (receiveLoop rest).map fun r => (x.bytes :: r.1, blank :: r.2)

/-- `comand` of the last node is set to `END_BIT`. -/
def endLast : List Node → List Node
  | [] => []
  | [x] => [{ x with last := false, fin := true, done := false }]
  | x :: y :: rest => x :: endLast (y :: rest)

/-! ## The state -/

/-- `ipc_memcpy_buf2node`. -/
structure Buf2node where
  nodeIndex : Nat
  frameIndex : Nat
  totalSize : Nat
  /-- `buf_phy`, from the start of the shared buffer on. -/
  bufPhy : Nat
deriving DecidableEq, Repr

/-- The link driver, the data channel and the BP. -/
structure State where
  readFlag : Bool
  /-- `read_ptr.node_num`. -/
  nodeNum : Nat
  enReadMsg : Bool
  rxReadMsg : Bool
  readMsg : Nat
  recvSequenceNumber : UInt8
  /-- `read_ptr.temp_buff`, the shared memory. -/
  tempBuff : ByteMem
  /-- The DMA transfer that is going on. -/
  dma : Option Buf2node
  /-- `ipc_readbuff`. -/
  readbuff : List Node
  /-- `MUXReceiveComplete` is scheduled. -/
  readCallback : Bool
  /-- The runs of `MUXReceiveComplete` that are about to call `hw_ctrl_ipc_read_ex2`. -/
  posts : Nat
  /-- The calls of `hw_ctrl_ipc_read_ex2` that are about to process `read_msg`. -/
  callbacks : Nat
  /-- Mailbox 0. -/
  mailbox : List Nat
  /-- `panic` was called. -/
  panicked : Bool
  /-- A read was refused, and the receive buffers were freed. -/
  freed : Bool
  /-- The messages of the BP. -/
  sent : List Message
  /-- The acknowledgements, with their `nb_bytes`. -/
  acks : List Nat
  /-- The bytes that were copied from the shared memory. -/
  copied : List UInt8
  /-- The buffers that were passed to NetMUX. -/
  delivered : List (List UInt8)

/-- The steps. -/
inductive Label where
  /-- The BP sends a message. -/
  | bpSend (msg : Message)
  /-- `mailbox_ISR` for a DATA message; there is a DMA channel or not. -/
  | mailboxIsr (dmaOk : Bool)
  /-- The interrupt at the end of a DMA transfer. -/
  | dmaDone
  /-- `MUXReceiveComplete` up to the call of `hw_ctrl_ipc_read_ex2`. -/
  | muxReceiveComplete
  /-- `hw_ctrl_ipc_read_ex2` up to the end of its locked part. -/
  | readEx2
  /-- `mailbox_ipc_read_callback` at the end of `hw_ctrl_ipc_read_ex2`. -/
  | readCallback (dmaOk : Bool)
deriving DecidableEq, Repr

namespace State

/-- After `LDInit`. -/
def init (m : ByteMem) : State where
  readFlag := true
  nodeNum := maxFrameNum
  enReadMsg := true
  rxReadMsg := false
  readMsg := 0
  recvSequenceNumber := 0
  tempBuff := m
  dma := none
  readbuff := posted
  readCallback := false
  posts := 0
  callbacks := 0
  mailbox := []
  panicked := false
  freed := false
  sent := []
  acks := []
  copied := []
  delivered := []

/-! ## Copying -/

/-- The end of a read: `read_flag` is cleared, and `USBReadCallback` sends the
acknowledgement and schedules the tasklet. -/
def usbReadCallback (s : State) (nbBytes : Nat) : State :=
  { s with readFlag := false, acks := s.acks ++ [nbBytes], readCallback := true }

/-- The node of the next DMA transfer gets its length, and the transfer is started. -/
def startDma (s : State) (d : Buf2node) : State :=
  let size := frameLength s.tempBuff d.frameIndex
  { s with
    readbuff := s.readbuff.modify d.nodeIndex fun x => { x with length := min size x.length }
    tempBuff := swapOdd (nbFrame s.tempBuff) s.tempBuff
    dma := some d }

/-- `ipc_dma_memcpy_buf2node`. -/
def memcpyBuf2node (s : State) (dmaOk : Bool) : State :=
  if dmaOk then s.startDma ⟨0, 0, 0, headerSize (nbFrame s.tempBuff)⟩
  else
    let r := memcpyLoop s.tempBuff (s.readbuff.take s.nodeNum) 0 (frameLength s.tempBuff 0)
      (headerSize (nbFrame s.tempBuff))
    let s := { s with
      readbuff := r.1 ++ s.readbuff.drop s.nodeNum
      copied := s.copied ++ r.2 }
    s.usbReadCallback r.2.length

/-- `ipc_api_read_callback`; a message without frames ends with
`IPC_USB_READ_ERROR`, which only clears `read_flag`. -/
def ipcApiReadCallback (s : State) (realSize : Nat) (dmaOk : Bool) : State :=
  let s := { s with tempBuff := openHeader s.tempBuff }
  if version s.tempBuff ≠ ipcFrameVersion then { s with panicked := true }
  else if sequenceNumber s.tempBuff ≠ s.recvSequenceNumber then { s with panicked := true }
  else
    let s := { s with recvSequenceNumber := s.recvSequenceNumber + 1 }
    if realSize ≤ headerSize 0 ∧ nbFrame s.tempBuff = 0 then { s with readFlag := false }
    else s.memcpyBuf2node dmaOk

/-- `ipc_dma_buf2node_callback`, for the transfer to a node. -/
def buf2nodeCallback (s : State) (d : Buf2node) (x : Node) : State :=
  let bytes := laneBytes s.tempBuff d.bufPhy x.length
  let m := swapOdd (nbFrame s.tempBuff) s.tempBuff
  let left := frameLength m d.frameIndex - x.length
  let y := if left = 0 then { fill x bytes with last := true } else fill x bytes
  let next : Buf2node :=
    ⟨d.nodeIndex + 1, if left = 0 then d.frameIndex + 1 else d.frameIndex,
      d.totalSize + x.length, d.bufPhy + x.length⟩
  let s := { s with
    tempBuff := setFrameLength m d.frameIndex left
    copied := s.copied ++ bytes }
  if s.nodeNum ≤ next.nodeIndex ∨ nbFrame s.tempBuff ≤ next.frameIndex then
    usbReadCallback { s with
      readbuff := s.readbuff.set d.nodeIndex { y with fin := true }
      dma := none } next.totalSize
  else startDma { s with readbuff := s.readbuff.set d.nodeIndex y } next

/-! ## The hand-over -/

/-- `mailbox_ISR` for a DATA message. -/
def mailboxIsr (s : State) (msg : Nat) (dmaOk : Bool) : State :=
  let s := { s with readMsg := msg, rxReadMsg := true }
  if s.enReadMsg ∧ s.rxReadMsg then
    ipcApiReadCallback { s with enReadMsg := false, rxReadMsg := false } s.readMsg dmaOk
  else s

/-- `MUXReceiveComplete` up to the call of `hw_ctrl_ipc_read_ex2`. -/
def muxReceiveComplete (s : State) : State :=
  let s := { s with readCallback := false }
  match receiveLoop s.readbuff with
  | none => { s with panicked := true }
  | some r => { s with
      delivered := s.delivered ++ r.1
      readbuff := endLast r.2
      posts := s.posts + 1 }

/-- `hw_ctrl_ipc_read_ex2` up to the end of its locked part; `MUXReceiveComplete` frees the
buffers of a read that is refused. -/
def readEx2 (s : State) : State :=
  let s := { s with posts := s.posts - 1 }
  if s.readFlag then { s with freed := true }
  else
    let s := { s with
      readFlag := true
      nodeNum := LinkDriver.nodeNum s.readbuff
      enReadMsg := true }
    if s.enReadMsg ∧ s.rxReadMsg then
      { s with enReadMsg := false, rxReadMsg := false, callbacks := s.callbacks + 1 }
    else s

/-- The BP puts a message in shared memory and its size in the mailbox. -/
def bpSend (s : State) (msg : Message) : State :=
  let bytes := msg.encode (UInt8.ofNat s.sent.length)
  { s with
    tempBuff := laneWrite s.tempBuff bytes
    mailbox := s.mailbox ++ [bytes.length % 2 ^ 16]
    sent := s.sent ++ [msg] }

/-! ## The system -/

/-- The result of a step, if the step can be taken.  The BP sends a message after the
acknowledgement of the one before. -/
def exec (s : State) (l : Label) : Option State :=
  if s.panicked then none
  else match l with
    | .bpSend msg =>
      if s.acks.length = s.sent.length ∧ msg.Valid then some (s.bpSend msg) else none
    | .mailboxIsr dmaOk =>
      match s.mailbox with
      | [] => none
      | msg :: rest => some ({ s with mailbox := rest }.mailboxIsr msg dmaOk)
    | .dmaDone =>
      match s.dma with
      | none => none
      | some d => (s.readbuff[d.nodeIndex]?).map fun x => s.buf2nodeCallback d x
    | .muxReceiveComplete => if s.readCallback then some s.muxReceiveComplete else none
    | .readEx2 => if 0 < s.posts then some s.readEx2 else none
    | .readCallback dmaOk =>
      if 0 < s.callbacks then
        some ({ s with callbacks := s.callbacks - 1 }.ipcApiReadCallback s.readMsg dmaOk)
      else none

end State

/-- The downlink from the end of `LDInit` on. -/
def system : TransitionSystem State Label where
  init s := ∃ m, s = State.init m
  step s l s' := s.exec l = some s'

end Downlink
end LteModemKernel.LinkDriver
