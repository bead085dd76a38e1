import LteModemKernel.Lib.LittleEndian
import LteModemKernel.Lib.RingWrite
import LteModemKernel.Lib.Runs

/-!
# The Android logger

The model of `drivers/staging/android/logger.c`.  A log is a ring buffer of entries, each a
`struct logger_entry` with its payload.  Writers append entries and overwrite the oldest
ones.  Each reader has an offset of its own; a writer first moves the offsets that it is about to
overwrite.  A write that fails, or that the filter for `MOT_` tags drops, sets the write
offset back.

A log has the size of one of the three devices.  Offsets are natural numbers, as none comes near
the range of `size_t`.
-/

namespace LteModemKernel.Logger

open Lib

/-! ## Logs -/

/-- The logs `log_main`, `log_events` and `log_radio`. -/
inductive Device where
  | main | events | radio
  deriving DecidableEq, Repr

/-- The size of the buffer of a log. -/
def Device.size : Device → Nat
  | .main => 64 * 1024
  | .events => 64 * 1024
  | .radio => 256 * 1024

/-- A `struct logger_reader`. -/
abbrev ReaderId := Nat

/-- `struct logger_log`, with the `r_off` of its readers. -/
structure Log where
  size : Nat
  buffer : Nat → UInt8
  wOff : Nat
  head : Nat
  readers : ReaderId → Option Nat

/-- `sizeof(struct logger_entry)`. -/
def headerSize : Nat := 20

/-- `LOGGER_ENTRY_MAX_PAYLOAD`. -/
def entryMaxPayload : Nat := 4 * 1024 - headerSize

namespace Log

/-- `logger_offset`. -/
def loggerOffset (log : Log) (n : Nat) : Nat := n &&& (log.size - 1)

/-- `get_entry_len`. -/
def getEntryLen (log : Log) (off : Nat) : Nat :=
  if log.size - off = 1 then headerSize + ofLeBytes [log.buffer off, log.buffer 0]
  else headerSize + ofLeBytes [log.buffer off, log.buffer (off + 1)]

/-! ## Reading -/

/-- The bytes of a buffer from an offset on. -/
def slice (buffer : Nat → UInt8) (off len : Nat) : List UInt8 :=
  (List.range len).map fun i => buffer (off + i)

/-- The bytes that `do_read_log_to_user` copies. -/
def doReadLogToUser (log : Log) (rOff count : Nat) : List UInt8 :=
  let len := min count (log.size - rOff)
  slice log.buffer rOff len ++ if count ≠ len then slice log.buffer 0 (count - len) else []

end Log

/-- The result of `logger_read`. -/
inductive ReadResult where
  /-- Nothing to read: the call waits, or returns `-EAGAIN`. -/
  | empty
  /-- `-EINVAL`. -/
  | invalid
  /-- `-EFAULT`. -/
  | fault
  | data (bytes : List UInt8)
  deriving DecidableEq, Repr

namespace Log

/-- `logger_read` of a reader at `rOff`, with a buffer of `count` bytes that can be
written or not: the result and the new `r_off`. -/
def loggerRead (log : Log) (rOff count : Nat) (accessible : Bool) : Nat × ReadResult :=
  if log.wOff = rOff then (rOff, .empty)
  else
    let len := log.getEntryLen rOff
    if count < len then (rOff, .invalid)
    else if accessible then (log.loggerOffset (rOff + len), .data (log.doReadLogToUser rOff len))
    else (rOff, .fault)

/-! ## Making room -/

/-- The loop of `get_next_entry`; the first argument bounds the passes, of which each adds to
`count`. -/
def getNextEntryLoop (log : Log) (len : Nat) : Nat → Nat → Nat → Nat
  | 0, off, _ => off
  | passes + 1, off, count =>
    let nr := log.getEntryLen off
    let off := log.loggerOffset (off + nr)
    let count := count + nr
    if count < len then getNextEntryLoop log len passes off count else off

/-- `get_next_entry`. -/
def getNextEntry (log : Log) (off len : Nat) : Nat := log.getNextEntryLoop len (len + 1) off 0

/-- `clock_interval`. -/
def clockInterval (a b c : Nat) : Bool :=
  if b < a then a < c || b ≥ c else a < c && b ≥ c

/-- What `fix_up_readers` does with the start head and with each reader. -/
def fixUp (log : Log) (len off : Nat) : Nat :=
  if clockInterval log.wOff (log.loggerOffset (log.wOff + len)) off then log.getNextEntry off len
  else off

/-- `fix_up_readers`. -/
def fixUpReaders (log : Log) (len : Nat) : Log :=
  { log with
    head := log.fixUp len log.head
    readers := fun r => (log.readers r).map (log.fixUp len) }

/-! ## Writing -/

/-- `do_write_log`. -/
def doWriteLog (log : Log) (buf : List UInt8) : Log :=
  let count := buf.length
  let len := min count (log.size - log.wOff)
  let buffer := blit log.buffer log.wOff (buf.take len)
  let buffer := if count ≠ len then blit buffer 0 (buf.drop len) else buffer
  { log with buffer := buffer, wOff := log.loggerOffset (log.wOff + count) }

end Log

/-- A `struct iovec`: the bytes it covers, of which only the first ones can be read. -/
structure Seg where
  bytes : List UInt8
  accessible : Nat
  deriving DecidableEq, Repr

/-- `copy_from_user` of a part of a segment: what is written to the kernel, and whether the
copy succeeds.  What cannot be read is filled with zeros. -/
def Seg.copyFromUser (seg : Seg) (first count : Nat) : List UInt8 × Bool :=
  let src := (seg.bytes.drop first).take count
  if first + count ≤ seg.accessible then (src, true)
  else
    let read := src.take (seg.accessible - first)
    (read ++ List.replicate (count - read.length) 0, false)

namespace Log

/-- `do_write_log_from_user`, and whether it succeeds; otherwise it returns `-EFAULT`. -/
def doWriteLogFromUser (log : Log) (seg : Seg) (count : Nat) : Log × Bool :=
  let len := min count (log.size - log.wOff)
  let first := seg.copyFromUser 0 len
  let log1 := if len ≠ 0 then { log with buffer := blit log.buffer log.wOff first.1 } else log
  if len ≠ 0 ∧ first.2 = false then (log1, false)
  else
    let second := seg.copyFromUser len (count - len)
    let log2 := if count ≠ len then { log1 with buffer := blit log1.buffer 0 second.1 } else log1
    if count ≠ len ∧ second.2 = false then (log2, false)
    else ({ log2 with wOff := log.loggerOffset (log.wOff + count) }, true)

/-- The loop of `logger_aio_write` over the segments; `left` is
`header.len - ret`. -/
def writeSegs (log : Log) : Nat → List Seg → Log × Bool
  | _, [] => (log, true)
  | left, seg :: iov =>
    let len := min seg.bytes.length left
    let r := log.doWriteLogFromUser seg len
    if r.2 = false then (r.1, false) else writeSegs r.1 (left - len) iov

end Log

/-- The rest of the header of an entry; `__pad` is not set. -/
structure Stamp where
  pad : Nat
  pid : Nat
  tid : Nat
  sec : Nat
  nsec : Nat
  deriving DecidableEq, Repr

/-- The arguments of `logger_aio_write`. -/
structure Write where
  stamp : Stamp
  iov : List Seg
  deriving DecidableEq, Repr

namespace Write

/-- `iocb->ki_left`, the length of the whole vector. -/
def kiLeft (w : Write) : Nat := (w.iov.flatMap Seg.bytes).length

/-- `header.len`. -/
def len (w : Write) : Nat := min w.kiLeft entryMaxPayload

/-- The bytes of `header`. -/
def header (w : Write) : List UInt8 :=
  leBytes 2 w.len ++ leBytes 2 w.stamp.pad ++ leBytes 4 w.stamp.pid ++ leBytes 4 w.stamp.tid ++
    leBytes 4 w.stamp.sec ++ leBytes 4 w.stamp.nsec

/-- The part of the vector that is kept. -/
def payload (w : Write) : List UInt8 := (w.iov.flatMap Seg.bytes).take w.len

/-- The entry that a completed write leaves. -/
def entry (w : Write) : List UInt8 := w.header ++ w.payload

end Write

/-- The result of `logger_aio_write`. -/
inductive WriteResult where
  /-- Nothing to write. -/
  | empty
  /-- `-EFAULT`. -/
  | fault
  /-- Taken back by the filter. -/
  | dropped
  | written
  deriving DecidableEq, Repr

namespace Log

/-- The test of `Filter_Mot_Log_Enable`: the second to the fifth byte of the payload of the
entry at an offset are `MOT_`. -/
def isMot (log : Log) (orig : Nat) : Bool :=
  let len := headerSize + 1
  log.buffer (log.loggerOffset (orig + len)) == 77 &&
    log.buffer (log.loggerOffset (orig + len + 1)) == 79 &&
    log.buffer (log.loggerOffset (orig + len + 2)) == 84 &&
    log.buffer (log.loggerOffset (orig + len + 3)) == 95

/-- The part of `logger_aio_write` under the mutex. -/
def writeLocked (log : Log) (filter : Bool) (orig : Nat) (w : Write) : Log × WriteResult :=
  let log := log.fixUpReaders (headerSize + w.len)
  let log := log.doWriteLog w.header
  let r := log.writeSegs w.len w.iov
  if r.2 = false then ({ r.1 with wOff := orig }, .fault)
  else if filter && r.1.isMot orig then ({ r.1 with wOff := orig }, .dropped)
  else (r.1, .written)

/-- `logger_aio_write` from the mutex on, with the `w_off` read before. -/
def loggerAioWrite (log : Log) (filter : Bool) (orig : Nat) (w : Write) : Log × WriteResult :=
  if w.len = 0 then (log, .empty) else log.writeLocked filter orig w

/-! ## Opening and flushing -/

/-- `logger_open` for reading. -/
def loggerOpen (log : Log) (r : ReaderId) : Log :=
  { log with readers := Function.update log.readers r (some log.head) }

/-- `logger_release` of a reader. -/
def loggerRelease (log : Log) (r : ReaderId) : Log :=
  { log with readers := Function.update log.readers r none }

/-- `LOGGER_FLUSH_LOG`. -/
def loggerFlush (log : Log) : Log :=
  { log with
    head := log.wOff
    readers := fun r => (log.readers r).map fun _ => log.wOff }

end Log

/-! ## One operation at a time -/

/-- A log with the filter and its history. -/
structure State where
  log : Log
  /-- `Filter_Mot_Log_Enable`. -/
  filter : Bool
  /-- The entries of the completed writes that were not dropped. -/
  written : List (List UInt8)
  /-- What a reader has got since it was opened. -/
  got : ReaderId → List (List UInt8)

/-- An operation. -/
inductive Label where
  | write (w : Write)
  | open (r : ReaderId)
  | release (r : ReaderId)
  | read (r : ReaderId) (count : Nat) (accessible : Bool)
  | flush
  /-- `LOGGER_FILTER_MOT_LOG_ENABLE` and `LOGGER_FILTER_MOT_LOG_DISABLE`. -/
  | filter (enable : Bool)
  deriving DecidableEq

namespace State

/-- A call of `logger_aio_write` that has read `w_off` goes on. -/
def write (s : State) (orig : Nat) (w : Write) : State :=
  let r := s.log.loggerAioWrite s.filter orig w
  { s with
    log := r.1
    written := if r.2 = .written then s.written ++ [w.entry] else s.written }

/-- A read of a reader at `rOff`. -/
def read (s : State) (r : ReaderId) (rOff count : Nat) (accessible : Bool) : State :=
  let res := s.log.loggerRead rOff count accessible
  { s with
    log := { s.log with readers := Function.update s.log.readers r (some res.1) }
    got := match res.2 with
      | .data bytes => Function.update s.got r (s.got r ++ [bytes])
      | _ => s.got }

/-- The effect of an operation. -/
def exec (s : State) : Label → Option State
  | .write w => some (s.write s.log.wOff w)
  | .open r =>
    if s.log.readers r = none then
      some { s with log := s.log.loggerOpen r, got := Function.update s.got r [] }
    else none
  | .release r =>
    if s.log.readers r = none then none else some { s with log := s.log.loggerRelease r }
  | .read r count accessible =>
    match s.log.readers r with
    | none => none
    | some rOff => some (s.read r rOff count accessible)
  | .flush => some { s with log := s.log.loggerFlush }
  | .filter enable => some { s with filter := enable }

/-- A log at the start. -/
def init (dev : Device) : State where
  log := ⟨dev.size, fun _ => 0, 0, 0, fun _ => none⟩
  filter := true
  written := []
  got := fun _ => []

end State

/-- One log, with operations one at a time. -/
def system (dev : Device) : TransitionSystem State Label where
  init s := s = State.init dev
  step s l s' := s.exec l = some s'

end LteModemKernel.Logger
