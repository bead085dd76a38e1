import LteModemKernel.NetMux.Model
import LteModemKernel.NetMux.Reassembly

/-!
# Control messages from end to end

The functions `Transmit*` assemble control packets, the link cuts them into fragments,
`ReceivePartial` puts them together again, and `ReceiveCommand` calls the operation they stand
for.  Every message arrives with its arguments, apart from one: `ReceiveCommand` passes the
channel and the value of a signal to `ChannelSignal` in the wrong order.

Main results:

- Theorem `control_round_trip`: a message arrives as one call with the arguments it was sent with,
  exactly if it is not a signal or its value is the number of its channel.
- Theorem `signal_misdelivered`: signal 5 for channel 1 arrives as signal 1 for channel 5.
-/

namespace LteModemKernel.NetMux

open Lib List

/-- A call of one of the functions `Transmit*`, with its arguments in the order of the source. -/
inductive Transmit where
  | credit (acktype : AckType) (channel : UInt8) (bytecredit sendcredit : UInt32)
  | enableMux (acktype : AckType)
  | disableMux (acktype : AckType)
  | enableChannel (acktype : AckType) (channel hostInterface clientInterface : UInt8)
      (bytecredit sendcredit : UInt32)
  | disableChannel (acktype : AckType) (channel hostInterface clientInterface : UInt8)
  /-- The name is a string, without its terminator. -/
  | queryInterface (acktype : AckType) (hostInterface result : UInt8) (name : List UInt8)
  | channelSignal (acktype : AckType) (channel : UInt8) (signal : UInt32)
  deriving DecidableEq, Repr

/-- The packet that a call assembles; a name that is too long is refused.  `rest` is what the new
buffer holds behind the name. -/
def Transmit.assemble (rest : Name) : Transmit → Option ControlPacket
  | .credit a channel bytecredit sendcredit => some (.credit a channel bytecredit sendcredit)
  | .enableMux a => some (.enableMux a)
  | .disableMux a => some (.disableMux a)
  | .enableChannel a channel host client bytecredit sendcredit =>
    some (.enableChannel a channel host client bytecredit sendcredit)
  | .disableChannel a channel host client => some (.disableChannel a channel host client)
  | .queryInterface a host result name =>
    if h : name.length + 1 ≤ packetMaxNameLength then
      some (.queryInterface a host result ⟨name ++ 0 :: rest.bytes.drop (name.length + 1), by
        rw [length_append, length_cons, length_drop, rest.length_eq]
        omega⟩)
    else none
  | .channelSignal a channel signal => some (.channelSignal a channel signal)

/-- The operations that some fragments lead to. -/
def received (decision : Decision) (fragments : List Fragment) : List Op :=
  (reassembler.run (some .empty) fragments).2.map (Message.op decision)

/-- The operation that a call of a function `Transmit*` asks the other side for.  The command of an
open goes to the interface; the acknowledge type of a credit is not looked at. -/
def Transmit.operation (decision : Decision) : Transmit → Op
  | .credit _ channel bytecredit sendcredit =>
    .adjustCredit (.clientEnd .command) channel.toNat bytecredit sendcredit
  | .enableMux a => .enableMux a
  | .disableMux a => .disableMux a
  | .enableChannel (.clientEnd .command) channel host client bytecredit sendcredit =>
    match decision with
    | .reject => .enableChannel (.clientEnd .failure) channel.toNat 0 0 host client 0 0 0 0
    | .accept burst maxData hb hs =>
      .enableChannel (.clientEnd .command) channel.toNat burst maxData host client hb hs
        bytecredit sendcredit
  | .enableChannel a channel host client bytecredit sendcredit =>
    .enableChannel a channel.toNat 0 0 host client 0 0 bytecredit sendcredit
  | .disableChannel a channel host client => .disableChannel a channel.toNat host client
  | .queryInterface a host result name => .queryExternalInterface a host result (some name)
  | .channelSignal a channel signal => .channelSignal a signal channel.toNat

/-- The arguments fit: a name is a string of at most 15 bytes. -/
def Transmit.Fits : Transmit → Prop
  | .queryInterface _ _ _ name => name.length < packetMaxNameLength ∧ 0 ∉ name
  | _ => True

/-- A signal has the value of its channel. -/
def Transmit.Unswapped : Transmit → Prop
  | .channelSignal _ channel signal => signal.toNat = channel.toNat
  | _ => True

theorem takeWhile_text {name rest : List UInt8} (h : 0 ∉ name) :
    (name ++ 0 :: rest).takeWhile (fun b => b ≠ 0) = name := by
  have hall : ∀ b ∈ name, decide (b ≠ 0) = true := fun b hb =>
    decide_eq_true fun hzero => h (hzero ▸ hb)
  rw [takeWhile_append_of_pos hall]
  simp

theorem cutOf_bytes (bytes : List UInt8) : CutOf bytes (bytes.map fun b => [b]) :=
  ⟨by induction bytes <;> simp_all, by simp⟩

/-- A call whose arguments fit assembles a packet, which stands for the operation unless it swaps
a signal and its channel. -/
theorem Transmit.assemble_spec (decision : Decision) {t : Transmit} (rest : Name)
    (hfits : t.Fits) : ∃ p, t.assemble rest = some p ∧
      (Message.op decision (.control p) = t.operation decision ↔ t.Unswapped) := by
  cases t with
  | queryInterface a host result name =>
    refine ⟨_, dif_pos (Nat.succ_le_of_lt hfits.1), iff_of_true ?_ trivial⟩
    rw [Message.op, operation, Name.text, takeWhile_text hfits.2]
  | enableChannel a channel host client bytecredit sendcredit =>
    refine ⟨_, rfl, iff_of_true ?_ trivial⟩
    cases a with
    | hostEnd kind | clientEnd kind => cases kind <;> rfl
  | channelSignal a channel signal =>
    refine ⟨_, rfl, ?_⟩
    simp only [Message.op, operation, Unswapped, Op.channelSignal.injEq, true_and]
    exact ⟨And.right, fun h => ⟨h ▸ UInt32.ofNat_toNat, h⟩⟩
  | _ => exact ⟨_, rfl, iff_of_true rfl trivial⟩

/-- A control message, cut into any non-empty fragments, arrives as one call of its operation with
the arguments it was sent with, exactly if it is no signal or has the value of its channel. -/
theorem control_round_trip (decision : Decision) (t : Transmit) (rest : Name) (hfits : t.Fits) :
    ∃ p, t.assemble rest = some p ∧
      ((∀ cut, CutOf p.encode cut → received decision cut = [t.operation decision]) ↔
        t.Unswapped) := by
  obtain ⟨p, hp, hoperation⟩ := Transmit.assemble_spec decision rest hfits
  have hreceived : ∀ cut, CutOf p.encode cut →
      received decision cut = [Message.op decision (.control p)] := by
    intro cut hcut
    rw [received, reassembler_cut (m := .control p) trivial hcut]
    rfl
  refine ⟨p, hp, ?_⟩
  constructor
  · intro h
    have hbytes := h _ (cutOf_bytes p.encode)
    rw [hreceived _ (cutOf_bytes p.encode)] at hbytes
    exact hoperation.mp (singleton_inj.mp hbytes)
  · intro h cut hcut
    rw [hreceived cut hcut, hoperation.mpr h]

theorem control_round_trip_query : ∃ p,
    (Transmit.queryInterface (.clientEnd .command) 3 0 [0x6C, 0x74, 0x65]).assemble
        ⟨replicate 16 0xFF, rfl⟩ = some p ∧
      received .reject (p.encode.map fun b => [b]) =
        [.queryExternalInterface (.clientEnd .command) 3 0 (some [0x6C, 0x74, 0x65])] := by
  obtain ⟨p, hp, hreceived⟩ := control_round_trip .reject
    (.queryInterface (.clientEnd .command) 3 0 [0x6C, 0x74, 0x65]) ⟨replicate 16 0xFF, rfl⟩
    ⟨by decide, by decide⟩
  exact ⟨p, hp, hreceived.mpr trivial _ (cutOf_bytes p.encode)⟩

/-- Signal 5 for channel 1. -/
theorem signal_misdelivered : ∃ p,
    (Transmit.channelSignal (.clientEnd .command) 1 5).assemble ⟨replicate 16 0, rfl⟩ = some p ∧
      received .reject [p.encode] = [.channelSignal (.clientEnd .command) 1 5] ∧
      (Transmit.channelSignal (.clientEnd .command) 1 5).operation .reject =
        .channelSignal (.clientEnd .command) 5 1 := by
  decide +kernel

end LteModemKernel.NetMux
