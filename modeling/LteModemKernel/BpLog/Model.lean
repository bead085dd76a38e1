import LteModemKernel.Lib.Linked
import LteModemKernel.Lib.Runs

/-!
# The log of the baseband processor

The model of `drivers/usb/ipchost/ipc_log.c` and of `mailbox_dlog_read_callback` in
`ipc_api.c`.  The BP puts a chunk of its log in shared memory and sends a message.  A tasklet
copies the chunk to a buffer and sends an acknowledgement; only then may the BP send the next
chunk.  The buffers form a list: full ones first, from which `mb_ipc_log_read` reads, and
then the empty ones.

`copy_to_user` succeeds.  The buffers are known by the order of their allocation.
-/

namespace LteModemKernel.BpLog

open Lib

/-- `MAX_LOG_BUF_NUM`. -/
def maxLogBufNum : Nat := 2

/-- `MAX_LOG_BUF_SIZE`, the `read_bufsize`. -/
def maxLogBufSize : Nat := 50 * 1024

abbrev BufId := Nat

/-- `IPC_LOG_DATA_BUFFER`. -/
structure Buf where
  next : Option BufId
  dataNum : Nat
  readNum : Nat
  ptr : Nat → UInt8

/-- A buffer after `ipc_log_alloc_read_buffer`. -/
def Buf.fresh : Buf := ⟨none, 0, 0, fun _ => 0⟩

/-- `ipc_log_param`, `ipc_buff_addr_param` and what belongs to them. -/
structure State where
  buf : BufId → Buf
  readBuf : BufId
  writeBuf : Option BufId
  endBuf : BufId
  bufNum : Nat
  isopen : Bool
  /-- `buff_avl_event`. -/
  buffAvlEvent : Bool
  /-- `mb_ipc_readtasklet` is scheduled. -/
  readtasklet : Bool
  /-- `buff_virt_addr`, from the start of the shared memory on. -/
  buffVirtAddr : Nat
  buffLength : Nat
  /-- The shared memory from `IPC_LOG_SHARED_MEMORY_VIRT` on. -/
  shared : Nat → UInt8
  /-- The BP has got the acknowledgement of its last chunk. -/
  acked : Bool
  /-- A byte was written outside the memory of its buffer. -/
  overrun : Bool
  /-- The messages of the BP so far, with the shared memory at their time. -/
  sent : List (BitVec 32 × (Nat → UInt8))
  /-- The bytes that reads have returned. -/
  got : List UInt8

/-! ## Chunks -/

/-- The place of a chunk in the shared memory. -/
def chunkAddr (msg : BitVec 32) : Nat := ((msg &&& 0x01FF0000#32) >>> 6).toNat

/-- `data_size`, the lower half of a message. -/
def dataSize (msg : BitVec 32) : Nat := (msg.truncate 16).toNat

/-- The byte of the source that `memcpy_w_endianess_inv` takes. -/
def invIndex (i : Nat) : Nat := (i &&& 0xfffffffc) ||| (3 - (i &&& 3))

/-- `memcpy_w_endianess_inv`. -/
def memcpyWEndianessInv (dst src : Nat → UInt8) (len : Nat) : Nat → UInt8 :=
  fun i => if i < len then src (invIndex i) else dst i

namespace State

/-- A buffer is changed. -/
def setBuf (s : State) (b : BufId) (x : Buf) : State :=
  { s with buf := Function.update s.buf b x }

/-! ## The tasklet -/

/-- `mailbox_dlog_ack`. -/
def dlogAck (s : State) : State := { s with acked := true }

/-- The chunk is copied to `write_buf`, which moves on. -/
def copyChunk (s : State) (w : BufId) : State :=
  let x := s.buf w
  let s := s.setBuf w { x with
    ptr := memcpyWEndianessInv x.ptr (fun i => s.shared (s.buffVirtAddr + i)) s.buffLength
    readNum := 0
    dataNum := s.buffLength }
  { s with
    writeBuf := x.next
    overrun := s.overrun || decide (maxLogBufSize < s.buffLength) }

/-- A new buffer from `ipc_log_alloc_read_buffer` is added to the list. -/
def addBuf (s : State) : State :=
  let temp := s.bufNum
  let s := { s.setBuf temp .fresh with bufNum := s.bufNum + 1 }
  let s := s.setBuf s.endBuf { s.buf s.endBuf with next := some temp }
  { s with endBuf := temp, writeBuf := some temp }

/-- `mb_ipc_readtasklet_function`; `alloc` tells whether there is memory. -/
def readtaskletFunction (s : State) (alloc : Bool) : State :=
  match s.writeBuf with
  | none => { s with buffAvlEvent := true }
  | some w =>
    if s.buffLength ≠ 0 then
      let s := s.copyChunk w
      if s.writeBuf = none ∧ s.bufNum < maxLogBufNum then
        -- without memory the function returns, and no acknowledgement is sent
        if alloc then s.addBuf.dlogAck else s
      else s.dlogAck
    else s.dlogAck

/-- `mailbox_dlog_read_callback` and `mb_ipc_log_readscheduler`. -/
def dlogReadCallback (s : State) (msg : BitVec 32) : State :=
  { s with buffVirtAddr := chunkAddr msg, buffLength := dataSize msg, readtasklet := true }

/-! ## Reading -/

/-- The bytes of a buffer from a place on. -/
def slice (ptr : Nat → UInt8) (off len : Nat) : List UInt8 :=
  (List.range len).map fun i => ptr (off + i)

/-- A buffer that is read to its end is moved to the end of the list. -/
def moveToTail (s : State) : State :=
  let b := s.readBuf
  let s := s.setBuf b { s.buf b with readNum := 0, dataNum := 0 }
  let s :=
    if b ≠ s.endBuf then
      match (s.buf b).next with
      | none => s
      | some n =>
        let s := { s with readBuf := n }
        let s := s.setBuf s.endBuf { s.buf s.endBuf with next := some b }
        let s := { s with endBuf := b }
        s.setBuf b { s.buf b with next := none }
    else s
  if s.writeBuf = none then { s with writeBuf := some b } else s

/-- The loop of `ipc_log_fill_user_buf`, with the passes and the count that are left and the
bytes copied so far. -/
def fillLoop : Nat → State → Nat → List UInt8 → State × List UInt8
  | 0, s, _, out => (s, out)
  | i + 1, s, count, out =>
    if some s.readBuf = s.writeBuf ∨ count = 0 then (s, out)
    else
      let x := s.buf s.readBuf
      let num := if count > x.dataNum - x.readNum then x.dataNum - x.readNum else count
      let out := out ++ slice x.ptr x.readNum num
      let s := s.setBuf s.readBuf { x with readNum := x.readNum + num }
      let s := if x.dataNum ≤ x.readNum + num then s.moveToTail else s
      fillLoop i s (count - num) out

/-- `ipc_log_fill_user_buf`. -/
def fillUserBuf (s : State) (count : Nat) : State × List UInt8 :=
  let r := fillLoop s.bufNum s count []
  if r.1.buffAvlEvent then ({ r.1 with buffAvlEvent := false, readtasklet := true }, r.2) else r

/-- `mb_ipc_log_read`; the count becomes an `int`, and nothing is read if it is
negative. -/
def logRead (s : State) (count : BitVec 32) : State × List UInt8 :=
  if s.isopen = false then (s, [])
  else if count = 0 then (s, [])
  else s.fillUserBuf count.toInt.toNat

/-- `mb_ipc_log_init`. -/
def init (shared : Nat → UInt8) : State where
  buf := fun _ => .fresh
  readBuf := 0
  writeBuf := some 0
  endBuf := 0
  bufNum := 1
  isopen := false
  buffAvlEvent := false
  readtasklet := false
  buffVirtAddr := 0
  buffLength := 0
  shared := shared
  acked := true
  overrun := false
  sent := []
  got := []

end State

/-! ## The system -/

/-- A step of the log. -/
inductive Label where
  /-- The BP has put a chunk in the shared memory and sends a message. -/
  | notify (msg : BitVec 32) (shared : Nat → UInt8)
  /-- The tasklet runs, with memory or without. -/
  | tasklet (alloc : Bool)
  | read (count : BitVec 32)
  | open
  | release

namespace State

/-- The effect of a step. -/
def exec (s : State) : Label → Option State
  | .notify msg shared =>
    if s.acked then
      some ({ s with
        acked := false
        shared := shared
        sent := s.sent ++ [(msg, shared)] }.dlogReadCallback msg)
    else none
  | .tasklet alloc =>
    if s.readtasklet then some ({ s with readtasklet := false }.readtaskletFunction alloc)
    else none
  | .read count =>
    some { (s.logRead count).1 with got := s.got ++ (s.logRead count).2 }
  | .open => some { s with isopen := true }
  | .release => some { s with isopen := false }

end State

/-- The log from `mb_ipc_log_init` on. -/
def system : TransitionSystem State Label where
  init s := ∃ shared, s = State.init shared
  step s l s' := s.exec l = some s'

end LteModemKernel.BpLog
