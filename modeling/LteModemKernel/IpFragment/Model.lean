import Mathlib

/-!
# The IPv4 fragment queue

`ip_frag_queue` puts a received fragment of a datagram into the queue of the
datagram.  The queue is a list in the order of the offsets.  Where the new fragment
overlaps its predecessor it loses its head, where it overlaps its successors they lose
their heads or are dropped.  `ip_frag_reasm` glues the fragments together when the
first and the final fragment have come in and the sum of the lengths is the length of the
datagram.

Memory is available, and the queue is never reset because a peer sent too many other
datagrams in between.

Main definitions:

- `Ipq.inserted`: the queue right after a fragment was put into it.
- `ipFragQueue`, `ipFragReasm`: the functions with their results.
- `run`: the queue after a sequence of fragments.
-/

namespace LteModemKernel.IpFragment

/-- A received fragment: the `frag_off` member of its header in host byte order, the
length of the header, and the bytes behind it. -/
structure Skb where
  fragOff : UInt16
  ihl : Nat
  payload : List UInt8
  deriving DecidableEq, Repr

namespace Skb

/-- The offset in bytes: the low 13 bits count chunks of 8 bytes. -/
def offset (skb : Skb) : Nat :=
  (skb.fragOff &&& 0x1FFF).toNat * 8

/-- The fragment has no `IP_MF` flag. -/
def isFinal (skb : Skb) : Bool :=
  skb.fragOff &&& 0x2000 == 0

/-- The position behind the last byte. -/
def finish (skb : Skb) : Nat :=
  skb.offset + skb.payload.length

end Skb

/-- A queued fragment with the offset of its control block. -/
structure Frag where
  offset : Nat
  data : List UInt8
  ihl : Nat
  deriving DecidableEq, Repr

/-- The position behind the last byte. -/
def Frag.stop (f : Frag) : Nat :=
  f.offset + f.data.length

/-- The queue of a datagram; `firstIn`, `lastIn` and `complete` are the
bits of the member `last_in`. -/
structure Ipq where
  fragments : List Frag
  firstIn : Bool
  lastIn : Bool
  complete : Bool
  len : Nat
  meat : Int
  deriving DecidableEq, Repr

/-- A new queue. -/
def Ipq.empty : Ipq :=
  ⟨[], false, false, false, 0, 0⟩

/-- A glued datagram. -/
structure Datagram where
  ihl : Nat
  payload : List UInt8
  deriving DecidableEq, Repr

/-- The error codes. -/
inductive Error where
  | noEnt
  | inval
  | tooBig
  deriving DecidableEq, Repr

/-- What a call gives: an error, `-EINPROGRESS`, or the datagram. -/
inductive Result where
  | error (code : Error)
  | inProgress
  | complete (datagram : Datagram)
  deriving DecidableEq, Repr

namespace Ipq

/-- The position of the end of a fragment, and the flag and the length of the queue for
it.  Nothing if the fragment does not fit what is known of the length. -/
def position (q : Ipq) (skb : Skb) : Option (Ipq × Nat) :=
  if skb.isFinal then
    if skb.finish < q.len ∨ (q.lastIn = true ∧ skb.finish ≠ q.len) then none
    else some ({ q with lastIn := true, len := skb.finish }, skb.finish)
  else
    let finish := skb.finish - skb.finish % 8
    if q.len < finish then
      if q.lastIn then none else some ({ q with len := finish }, finish)
    else some (q, finish)

/-- The loop over the successors that the new fragment overlaps. -/
def eat (finish : Nat) : List Frag → Int → List Frag × Int
  | [], meat => ([], meat)
  | next :: rest, meat =>
    if next.offset < finish then
      let i := finish - next.offset
      if i < next.data.length then
        -- eat the head of the overlapped fragment, the next ones cannot overlap
        ({ next with offset := next.offset + i, data := next.data.drop i } :: rest, meat - i)
      else eat finish rest (meat - next.data.length)
    else (next :: rest, meat)

/-- The end of the predecessor. -/
def prevStop (before : List Frag) : Nat :=
  match before.getLast? with
  | none => 0
  | some prev => prev.stop

/-- Put a fragment that ends at `finish` into the list.  Nothing if its predecessor
covers all of it. -/
def insert (q : Ipq) (skb : Skb) (finish : Nat) : Option Ipq :=
  let before := q.fragments.takeWhile fun f => f.offset < skb.offset
  let after := q.fragments.dropWhile fun f => f.offset < skb.offset
  let data := skb.payload.take (finish - skb.offset)
  let i := prevStop before - skb.offset
  if 0 < i ∧ finish ≤ skb.offset + i then none
  else
    let new : Frag := ⟨skb.offset + i, data.drop i, skb.ihl⟩
    let (after, meat) := eat finish after q.meat
    some { q with
      fragments := before ++ new :: after
      meat := meat + new.data.length
      firstIn := q.firstIn || new.offset == 0 }

/-- The queue right after a fragment was put into it, nothing if the fragment is dropped. -/
def inserted (q : Ipq) (skb : Skb) : Option Ipq :=
  if q.complete then none
  else match q.position skb with
  | none => none
  | some (q, finish) => if finish = skb.offset then none else q.insert skb finish

/-- What a dropped fragment leaves: the flag and the length may have changed. -/
def dropped (q : Ipq) (skb : Skb) : Ipq :=
  if q.complete then q
  else match q.position skb with
  | none => q
  | some (q, _) => q

end Ipq

/-- `ip_frag_reasm`.  The head of the datagram is the first fragment; the one that was
just received takes its place in memory only. -/
def ipFragReasm (q : Ipq) : Ipq × Result :=
  let q := { q with complete := true }
  match q.fragments with
  | [] => (q, .error .noEnt)
  | head :: rest =>
    if 65535 < head.ihl + q.len then (q, .error .tooBig)
    else
      ({ q with fragments := [] }, .complete ⟨head.ihl, head.data ++ (rest.map Frag.data).flatten⟩)

/-- `ip_frag_queue`. -/
def ipFragQueue (q : Ipq) (skb : Skb) : Ipq × Result :=
  match q.inserted skb with
  | none => (q.dropped skb, .error (if q.complete then .noEnt else .inval))
  | some q =>
    if q.firstIn = true ∧ q.lastIn = true ∧ q.meat = q.len then ipFragReasm q
    else (q, .inProgress)

/-- The queue after a sequence of fragments, with the results of the calls. -/
def run (skbs : List Skb) : Ipq × List Result :=
  skbs.foldl (fun s skb => ((ipFragQueue s.1 skb).1, s.2 ++ [(ipFragQueue s.1 skb).2]))
    (Ipq.empty, [])

end LteModemKernel.IpFragment
