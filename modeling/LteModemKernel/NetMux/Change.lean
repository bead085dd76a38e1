import LteModemKernel.NetMux.Model

/-!
# What an operation can do to a MUX

Every operation has one of a few effects on the state.  The relation `Change` lists
them with their conditions, the tables `Moves` and `Closes` list the transitions
of the channel state machine that an operation can cause.  The invariants of the later
modules are proved by cases on this relation and never unfold the operations again.

Main results:

- Theorem `Mux.exec_change`: an operation that returns made one of the changes.
-/

namespace LteModemKernel.NetMux

open Lib Function Option Mux Nat Channel

variable {c : Nat} {op : Op} {ch ch' : Channel} {m' m : Mux} {split : Bool} {buffer : List UInt8}

namespace Mux

/-! ## Field lemmas of the small updates -/

section Fields

variable (m : Mux) (c : Nat) (ch : Channel) (credit : ChannelCredit) (p : ControlPacket)

@[simp] theorem setChannel_config : (m.setChannel c ch).config = m.config := rfl
@[simp] theorem setChannel_sendQueue : (m.setChannel c ch).sendQueue = m.sendQueue := rfl

@[simp]
theorem setChannel_channelcredit : (m.setChannel c ch).channelcredit = m.channelcredit := rfl

@[simp]
theorem setChannel_total : (m.setChannel c ch).totalQueuedAmount = m.totalQueuedAmount := rfl

@[simp]
theorem setChannel_channels : (m.setChannel c ch).channels = update m.channels c (some ch) := rfl

@[simp]
theorem setChannel_setChannel (ch' : Channel) :
    (m.setChannel c ch).setChannel c ch' = m.setChannel c ch' := by
  simp [setChannel]

@[simp] theorem setCredit_channels : (m.setCredit c credit).channels = m.channels := rfl

@[simp]
theorem setCredit_channelcredit :
    (m.setCredit c credit).channelcredit = update m.channelcredit c credit := rfl

@[simp] theorem transmit_config : (m.transmit p).config = m.config := rfl
@[simp] theorem transmit_channels : (m.transmit p).channels = m.channels := rfl
@[simp] theorem transmit_sendQueue : (m.transmit p).sendQueue = m.sendQueue ++ [p] := rfl

@[simp]
theorem transmit_total :
    (m.transmit p).totalQueuedAmount = m.totalQueuedAmount + UInt32.ofNat p.size := rfl

@[simp]
theorem setChannel_transmit : (m.setChannel c ch).transmit p = (m.transmit p).setChannel c ch :=
  rfl

@[simp] theorem returns_mux (result : ErrorCode) : (m.returns result).mux = m := rfl

end Fields

/-- Queue several control packets. -/
def transmitAll (m : Mux) (ps : List ControlPacket) : Mux :=
  ps.foldl transmit m

@[simp] theorem transmitAll_nil (m : Mux) : m.transmitAll [] = m := rfl

@[simp]
theorem transmitAll_singleton (m : Mux) (p : ControlPacket) :
    m.transmitAll [p] = m.transmit p := rfl

section TransmitAll

variable (m : Mux) (ps : List ControlPacket)

/-- Only the queue and the total change. -/
theorem transmitAll_eq : m.transmitAll ps =
    { m with
      sendQueue := m.sendQueue ++ ps
      totalQueuedAmount := (m.transmitAll ps).totalQueuedAmount } := by
  induction ps generalizing m with
  | nil =>
    rw [List.append_nil]
    rfl
  | cons p ps ih =>
    have hrest := ih (m.transmit p)
    rwa [transmit_sendQueue, List.append_assoc] at hrest

@[simp]
theorem transmitAll_channels : (m.transmitAll ps).channels = m.channels := by rw [transmitAll_eq]

@[simp] theorem transmitAll_config : (m.transmitAll ps).config = m.config := by rw [transmitAll_eq]

theorem setChannel_transmitAll (c : Nat) (ch : Channel) :
    (m.setChannel c ch).transmitAll ps = (m.transmitAll ps).setChannel c ch := by
  induction ps generalizing m with
  | nil => rfl
  | cons p ps ih => exact ih (m.transmit p)

end TransmitAll

/-- Dropping a channel object. -/
def dropChannel (m : Mux) (c : Nat) (ch : Channel) : Mux :=
  { m with
    channels := update m.channels c none
    totalQueuedAmount := m.totalQueuedAmount - ch.qedTotlAmount
    releasedTags := queueTags ch.receiveQueue ++ m.releasedTags }

theorem closeChannel_eq_dropChannel (hch : m.channels c = some ch) :
    m.closeChannel c = m.dropChannel c ch := by
  simp [closeChannel, hch, dropChannel]

theorem closeChannel_of_none (hch : m.channels c = none) : m.closeChannel c = m := by
  simp [closeChannel, hch]

@[simp]
theorem closeChannel_setChannel (m : Mux) (c : Nat) (ch : Channel) :
    (m.setChannel c ch).closeChannel c = m.dropChannel c ch := by
  simp [closeChannel, setChannel, dropChannel]

end Mux

/-! ## The transitions of a channel -/

/-- The object of a channel with other interface numbers and another state. -/
def Channel.moved (ch : Channel) (hostInterface clientInterface : UInt8)
    (state : ChannelState) : Channel :=
  { ch with
    clientInterface := clientInterface
    hostInterface := hostInterface
    state := state }

/-- The states in which `DisableChannel` refuses an existing channel. -/
def refusesClose : AckType → ChannelState → Prop
  | .hostEnd .command, s => s = .flushing ∨ s = .localClosing
  | .hostEnd .success, s => s ≠ .localClosing
  | .clientEnd .command, s => s = .opening ∨ s = .remoteClosing
  | _, _ => False

/-- The transitions between two states of a channel that `DisableChannel` causes
without touching the queues, with the packets it queues. -/
inductive Moves (c : Nat) (hi ci : UInt8) :
    AckType → ChannelState → ChannelState → List ControlPacket → Prop where
  | closeOpening :
      Moves c hi ci (.hostEnd .command) .opening .localClosing
        [.disableChannel (.clientEnd .command) (UInt8.ofNat c) hi ci]
  | closeOpened :
      Moves c hi ci (.hostEnd .command) .opened .localClosing
        [.disableChannel (.clientEnd .command) (UInt8.ofNat c) hi ci]
  | flush : Moves c hi ci (.hostEnd .command) .sending .flushing []
  | remoteClose : Moves c hi ci (.clientEnd .command) .opened .remoteClosing []
  | remoteCrossed :
      Moves c hi ci (.clientEnd .command) .localClosing .localClosing
        [.disableChannel (.hostEnd .success) (UInt8.ofNat c) hi ci]
  | refused {acktype s} (h : refusesClose acktype s) :
      Moves c hi ci acktype s s []

/-- The states a channel is closed from, with the operation that closes it and the packets
it queues. -/
inductive Closes (c : Nat) : Op → ChannelState → List ControlPacket → Prop where
  | openFailure {burst maxData hb hs cb cs hi ci} :
      Closes c (.enableChannel (.hostEnd .failure) c burst maxData hi ci hb hs cb cs)
        .opening []
  | closeAnswered {hi ci} :
      Closes c (.disableChannel (.hostEnd .command) c hi ci) .remoteClosing
        [.disableChannel (.hostEnd .success) (UInt8.ofNat c) hi ci]
  | closeConfirmed {hi ci} :
      Closes c (.disableChannel (.hostEnd .success) c hi ci) .localClosing []
  | remoteFlushed {hi ci} :
      Closes c (.disableChannel (.clientEnd .command) c hi ci) .flushing
        [.disableChannel (.hostEnd .success) (UInt8.ofNat c) hi ci]

/-- The operations that queue one control packet and touch no channel. -/
inductive Queues (m : Mux) : Op → ControlPacket → Prop where
  | enableMux {a a'} : Queues m (.enableMux a) (.enableMux a')
  | credit {c : Nat} {b s} :
      Queues m (.adjustCredit (.hostEnd .command) c b s)
        (.credit (.clientEnd .command) (UInt8.ofNat c) b s)
  | query {a a' h r r' name field} :
      Queues m (.queryExternalInterface a h r name) (.queryInterface a' h r' field)
  | signal {c : Nat} {s} :
      Queues m (.channelSignal (.hostEnd .command) s c)
        (.channelSignal (.clientEnd .command) (UInt8.ofNat c) s)
  | transmit {p : ControlPacket} : Queues m (.transmit p) p
  | rejected {c : Nat} {burst maxData hb hs cb cs hi ci} :
      Queues m (.enableChannel (.clientEnd .failure) c burst maxData hi ci hb hs cb cs)
        (.enableChannel (.hostEnd .failure) (UInt8.ofNat c) hi ci hb hs)
  | closedAnswer {c : Nat} {hi ci} (hc : m.channels c = none) :
      Queues m (.disableChannel (.clientEnd .command) c hi ci)
        (.disableChannel (.hostEnd .success) (UInt8.ofNat c) hi ci)

/-- When an operation may leave the state as it is. -/
def MayStutter (m : Mux) : Op → Prop
  | .receiveData d => m.channels d.channel.toNat = none
  | .sendData c buffer split => ∀ r, m.sendPiece c buffer split ≠ .ok r
  | .adjustCredit (.clientEnd .command) .. => False
  | .enableChannel (.clientEnd .command) c _ _ _ ci .. =>
    m.config.maxchannels ≤ c ∨ m.channels c ≠ none ∨ m.config.connects ci = false
  | .enableChannel (.clientEnd .failure) .. => False
  | .enableChannel (.hostEnd .success) c .. =>
    m.config.maxchannels ≤ c ∨ ∀ ch, m.channels c = some ch → ch.state ≠ .opening
  | .enableChannel (.hostEnd .failure) c .. =>
    m.config.maxchannels ≤ c ∨ ∀ ch, m.channels c = some ch → ch.state ≠ .opening
  | .disableChannel (.clientEnd .command) c .. => m.config.maxchannels ≤ c
  | .disableChannel (.hostEnd .success) c .. =>
    m.config.maxchannels ≤ c ∨ m.channels c = none
  | _ => True

/-- The effects of the operations. -/
inductive Change (m : Mux) : Op → Mux → Prop where
  | stutter {op : Op} (h : MayStutter m op) : Change m op m
  | status {a} (st : Status) : Change m (.enableMux a) { m with status := st }
  | queued {op : Op} {p : ControlPacket} (st : Status) (h : Queues m op p) :
      Change m op ({ m with status := st }.transmit p)
  | muxDisabledHost (hst : m.status = .active) :
      Change m (.disableMux (.hostEnd .command))
        { m.transmit (.disableMux (.clientEnd .command)) with status := .default }.closeChannels
  | muxDisabledClient (hst : m.status = .active) :
      Change m (.disableMux (.clientEnd .command))
        { m with status := .default, totalQueuedAmount := 0, sendQueue := [] }.closeChannels
  | creditAdded {c : Nat} {b s} (hc : c < m.config.maxchannels) :
      Change m (.adjustCredit (.clientEnd .command) c b s)
        ({ m with sendBuffersAvailable := m.sendBuffersAvailable + s }.setCredit c
          { m.channelcredit c with
            clientByteCredit := (m.channelcredit c).clientByteCredit + b
            clientSendCredit := (m.channelcredit c).clientSendCredit + s })
  | localOpen {c : Nat} {burst maxData hb hs cb cs hi ci}
      (hc : c < m.config.maxchannels) (hch : m.channels c = none) :
      Change m (.enableChannel (.hostEnd .command) c burst maxData hi ci hb hs cb cs)
        (((m.setCredit c (openCredit (m.channelcredit c) hb hs)).setChannel c
          (newChannel hi burst maxData .opening)).transmit
          (.enableChannel (.clientEnd .command) (UInt8.ofNat c) hi ci hb hs))
  | openSuccess {c : Nat} {burst maxData hb hs cb cs hi ci} {ch : Channel}
      (hc : c < m.config.maxchannels) (hch : m.channels c = some ch)
      (hst : ch.state = .opening) :
      Change m (.enableChannel (.hostEnd .success) c burst maxData hi ci hb hs cb cs)
        ((m.setCredit c (responseCredit (m.channelcredit c) cb cs)).setChannel c
          { ch with state := .opened })
  | remoteOpen {c : Nat} {burst maxData hb hs cb cs hi ci}
      (hc : c < m.config.maxchannels) (hch : m.channels c = none) :
      Change m (.enableChannel (.clientEnd .command) c burst maxData hi ci hb hs cb cs)
        (((m.setCredit c (acceptCredit (m.channelcredit c) hb hs cb cs)).setChannel c
          (newChannel ci burst maxData .opened)).transmit
          (.enableChannel (.hostEnd .success) (UInt8.ofNat c) hi ci hb hs))
  | moved {a} {c : Nat} {hi ci} {ch : Channel} {s} {ps : List ControlPacket}
      (hc : c < m.config.maxchannels)
      (hch : m.channels c = some ch) (hmove : Moves c hi ci a ch.state s ps) :
      Change m (.disableChannel a c hi ci)
        ((m.transmitAll ps).setChannel c (ch.moved hi ci s))
  | closed {op : Op} {c : Nat} {ch : Channel} {ps : List ControlPacket}
      (hc : c < m.config.maxchannels) (hch : m.channels c = some ch)
      (hclose : Closes c op ch.state ps) :
      Change m op ((m.transmitAll ps).dropChannel c ch)
  | purged {c : Nat} {hi ci} {ch : Channel} (hc : c < m.config.maxchannels)
      (hch : m.channels c = some ch) (hst : ch.state = .sending) :
      Change m (.disableChannel (.clientEnd .command) c hi ci)
        (m.setChannel c { ch.moved hi ci .remoteClosing with sendQueue := [] })
  | dataQueued {c : Nat} {buffer piece rest} {split : Bool} {ch : Channel}
      (hc : c < m.config.maxchannels)
      (hpiece : m.sendPiece c buffer split = .ok (ch, piece, rest)) :
      Change m (.sendData c buffer split) (m.queuePiece c ch piece)
  | dataReceived {d} {ch : Channel}
      (hc : d.channel.toNat < m.config.maxchannels)
      (hch : m.channels d.channel.toNat = some ch) :
      Change m (.receiveData d)
        (m.setChannel d.channel.toNat
          { ch with
            receiveQueue := ch.receiveQueue ++
              [⟨d.payload, some ⟨d.channel.toNat, UInt32.ofNat d.size⟩⟩] })
  | dataRead {c : Nat} {count} {ch : Channel} {buffer rest}
      (hch : m.channels c = some ch) (hqueue : ch.receiveQueue = buffer :: rest)
      (hcount : buffer.data.length ≤ count) :
      Change m (.readData c count)
        { m.setChannel c { ch with receiveQueue := rest } with held := m.held ++ [buffer] }
  | dataSplit {c : Nat} {count} {ch : Channel} {buffer rest}
      (hch : m.channels c = some ch) (hqueue : ch.receiveQueue = buffer :: rest)
      (hcount : count < buffer.data.length) :
      Change m (.readData c count)
        { m.setChannel c
            { ch with receiveQueue := ⟨buffer.data.drop count, none⟩ :: rest } with
          held := m.held ++ [{ buffer with data := buffer.data.take count }] }
  | dataForwarded {c : Nat} {ch : Channel} {buffer rest}
      (hch : m.channels c = some ch) (hqueue : ch.receiveQueue = buffer :: rest) :
      Change m (.forwardData c true)
        { m.setChannel c { ch with receiveQueue := rest } with held := m.held ++ [buffer] }
  | dataDiscarded {c : Nat} {taken} {ch : Channel} {buffer rest}
      (hch : m.channels c = some ch) (hqueue : ch.receiveQueue = buffer :: rest) :
      Change m (.forwardData c taken)
        { m.setChannel c { ch with receiveQueue := rest } with
          releasedTags := buffer.tag.toList ++ m.releasedTags }
  | bufferFreed {index buffer} (hheld : m.held[index]? = some buffer) :
      Change m (.freeHeld index)
        { m with
          held := m.held.eraseIdx index
          releasedTags := buffer.tag.toList ++ m.releasedTags }
  | released {index tag} {m' : Mux} (htag : m.releasedTags[index]? = some tag)
      (hm' : { m with releasedTags := m.releasedTags.eraseIdx index }.commBuffReleased tag =
        some m') :
      Change m (.processReleased index) m'

namespace Mux

variable {out : Outcome} {a : AckType} {piece : List UInt8}

theorem enableMux_change (a : AckType) : Change m (.enableMux a) (m.enableMux a).mux := by
  match a with
  | .hostEnd .command =>
    simp only [enableMux]
    split
    · exact .queued .enable .enableMux
    · exact .stutter trivial
  | .hostEnd .success =>
    simp only [enableMux]
    split
    · exact .status .active
    · exact .stutter trivial
  | .hostEnd .failure =>
    simp only [enableMux]
    split
    · exact .status .default
    · exact .stutter trivial
  | .clientEnd .command =>
    simp only [enableMux]
    split
    · exact .queued .active .enableMux
    · exact .stutter trivial
  | .clientEnd .success | .clientEnd .failure => exact .stutter trivial

theorem disableMux_change (a : AckType) : Change m (.disableMux a) (m.disableMux a).mux := by
  match a with
  | .hostEnd .command =>
    simp only [disableMux]
    split
    · next hst => exact .muxDisabledHost hst
    · exact .stutter trivial
  | .clientEnd .command =>
    simp only [disableMux]
    split
    · next hst => exact .muxDisabledClient hst
    · exact .stutter trivial
  | .hostEnd .success | .hostEnd .failure | .clientEnd .success | .clientEnd .failure =>
    exact .stutter trivial

theorem enableChannel_change (a : AckType) (c : Nat) (burst maxData : UInt32) (hi ci : UInt8)
    (hb hs cb cs : UInt32) :
    Change m (.enableChannel a c burst maxData hi ci hb hs cb cs)
      (m.enableChannel a c burst maxData hi ci hb hs cb cs).mux := by
  match a with
  | .hostEnd .command =>
    simp only [enableChannel]
    split
    · exact .stutter trivial
    · next hc =>
      split
      · exact .stutter trivial
      · next hch =>
        split
        · exact Change.localOpen (Nat.lt_of_not_le hc) hch
        · exact .stutter trivial
  | .hostEnd .success =>
    simp only [enableChannel]
    split
    · next hc => exact .stutter (.inl hc)
    · next hc =>
      split
      · next hch => exact .stutter (.inr (by simp [hch]))
      · next hch =>
        split
        · next hst => exact Change.openSuccess (Nat.lt_of_not_le hc) hch hst
        · next hst => exact .stutter (.inr (by simp [hch, hst]))
  | .hostEnd .failure =>
    simp only [enableChannel]
    split
    · next hc => exact .stutter (.inl hc)
    · next hc =>
      split
      · next hch => exact .stutter (.inr (by simp [hch]))
      · next hch =>
        split
        · next hst =>
          rw [closeChannel_eq_dropChannel hch]
          exact Change.closed (Nat.lt_of_not_le hc) hch (hst ▸ Closes.openFailure)
        · next hst => exact .stutter (.inr (by simp [hch, hst]))
  | .clientEnd .command =>
    simp only [enableChannel]
    split
    · next hc => exact .stutter (.inl hc)
    · next hc =>
      split
      · next hch => exact .stutter (.inr (.inl (by simp [hch])))
      · next hch =>
        split
        · exact Change.remoteOpen (Nat.lt_of_not_le hc) hch
        · next hcon => exact .stutter (.inr (.inr (by simpa using hcon)))
  | .clientEnd .success => exact .stutter trivial
  | .clientEnd .failure => exact .queued m.status .rejected

section DisableChannel

variable {ps : List ControlPacket} (hi ci : UInt8) (hc : c < m.config.maxchannels)
  (hch : m.channels c = some ch)

include hc hch

theorem moved_change {st : ChannelState} (hmove : Moves c hi ci a ch.state st ps)
    (heq : m' = (m.transmitAll ps).setChannel c (ch.moved hi ci st)) :
    Change m (.disableChannel a c hi ci) m' := by
  rw [heq]
  exact .moved hc hch hmove

theorem closed_change (hclose : Closes c op ch.state ps)
    (heq : m' = (m.transmitAll ps).dropChannel c ch) : Change m op m' := by
  rw [heq]
  exact .closed hc hch hclose

theorem localClose_change :
    Change m (.disableChannel (.hostEnd .command) c hi ci)
      (m.disableChannel (.hostEnd .command) c hi ci).mux := by
  simp only [disableChannel, if_neg (Nat.not_le_of_lt hc), hch]
  cases hst : ch.state with
  | opening =>
    apply moved_change hi ci hc hch (hst ▸ Moves.closeOpening)
    simp [executeStateTransition, transmitDisableChannel, moved]
  | opened =>
    apply moved_change hi ci hc hch (hst ▸ Moves.closeOpened)
    simp [executeStateTransition, transmitDisableChannel, moved]
  | sending =>
    apply moved_change hi ci hc hch (hst ▸ Moves.flush)
    simp [executeStateTransition, moved]
  | remoteClosing =>
    apply closed_change hc hch (hst ▸ Closes.closeAnswered)
    simp [executeStateTransition, transmitDisableChannel, dropChannel]
  | flushing =>
    refine moved_change hi ci hc hch (.refused (.inl hst)) ?_
    simp [hst, moved]
  | localClosing =>
    refine moved_change hi ci hc hch (.refused (.inr hst)) ?_
    simp [hst, moved]

theorem closeResponse_change :
    Change m (.disableChannel (.hostEnd .success) c hi ci)
      (m.disableChannel (.hostEnd .success) c hi ci).mux := by
  simp only [disableChannel, if_neg (Nat.not_le_of_lt hc), hch]
  by_cases hst : ch.state = .localClosing
  · apply closed_change hc hch (hst ▸ Closes.closeConfirmed)
    simp [hst, executeStateTransition, dropChannel]
  · have hrefused : refusesClose (.hostEnd .success) ch.state := hst
    apply moved_change hi ci hc hch (.refused hrefused)
    simp [hst, moved]

theorem remoteClose_change :
    Change m (.disableChannel (.clientEnd .command) c hi ci)
      (m.disableChannel (.clientEnd .command) c hi ci).mux := by
  simp only [disableChannel, if_neg (Nat.not_le_of_lt hc), hch]
  cases hst : ch.state with
  | opened =>
    apply moved_change hi ci hc hch (hst ▸ Moves.remoteClose)
    simp [executeStateTransition, moved]
  | localClosing =>
    apply moved_change hi ci hc hch (hst ▸ Moves.remoteCrossed)
    simp [hst, executeStateTransition, transmitDisableChannel, moved]
  | opening =>
    refine moved_change hi ci hc hch (.refused (.inl hst)) ?_
    simp [hst, moved]
  | remoteClosing =>
    refine moved_change hi ci hc hch (.refused (.inr hst)) ?_
    simp [hst, moved]
  | sending =>
    have hpurged : Change m (.disableChannel (.clientEnd .command) c hi ci) _ :=
      .purged hc hch hst
    simpa [hst, executeStateTransition, moved] using hpurged
  | flushing =>
    apply closed_change hc hch (hst ▸ Closes.remoteFlushed)
    simp [executeStateTransition, transmitDisableChannel, dropChannel]

end DisableChannel

theorem disableChannel_change (a : AckType) (c : Nat) (hi ci : UInt8) :
    Change m (.disableChannel a c hi ci) (m.disableChannel a c hi ci).mux := by
  by_cases hc : m.config.maxchannels ≤ c
  · match a with
    | .hostEnd .command =>
      simp only [disableChannel, if_pos hc]
      exact .stutter trivial
    | .hostEnd .success =>
      simp only [disableChannel, if_pos hc]
      exact .stutter (.inl hc)
    | .clientEnd .command =>
      simp only [disableChannel, if_pos hc]
      exact .stutter hc
    | .hostEnd .failure | .clientEnd .success | .clientEnd .failure =>
      exact .stutter trivial
  · have hlt : c < m.config.maxchannels := Nat.lt_of_not_le hc
    match a, hch : m.channels c with
    | .hostEnd .command, some ch => exact localClose_change hi ci hlt hch
    | .hostEnd .command, none =>
      simp only [disableChannel, if_neg hc, hch]
      exact .stutter trivial
    | .hostEnd .success, some ch => exact closeResponse_change hi ci hlt hch
    | .hostEnd .success, none =>
      simp only [disableChannel, if_neg hc, hch]
      exact .stutter (.inr hch)
    | .clientEnd .command, some ch => exact remoteClose_change hi ci hlt hch
    | .clientEnd .command, none =>
      simp only [disableChannel, if_neg hc, hch]
      exact .queued m.status (.closedAnswer hch)
    | .hostEnd .failure, _ | .clientEnd .success, _ | .clientEnd .failure, _ =>
      exact .stutter trivial

theorem transmitQueryInterface_change {a' : AckType} {h r r' : UInt8} {name : Option (List UInt8)} :
    Change m (.queryExternalInterface a h r name) (m.transmitQueryInterface a' h r' name) := by
  simp only [transmitQueryInterface]
  split
  · exact .stutter trivial
  · exact .queued m.status .query

theorem queryExternalInterface_change (a : AckType) (h r : UInt8) (name : Option (List UInt8)) :
    Change m (.queryExternalInterface a h r name) (m.queryExternalInterface a h r name).mux := by
  match a, name with
  | .hostEnd .command, _ => exact transmitQueryInterface_change
  | .clientEnd .command, some text =>
    simp only [queryExternalInterface]
    split <;> exact transmitQueryInterface_change
  | .hostEnd .success, _ | .hostEnd .failure, _ | .clientEnd .command, none
  | .clientEnd .success, _ | .clientEnd .failure, _ => exact .stutter trivial

theorem adjustCredit_change {b s : UInt32} (hout : m.adjustCredit a c b s = some out) :
    Change m (.adjustCredit a c b s) out.mux := by
  match a with
  | .hostEnd .command =>
    cases hout
    exact .queued m.status .credit
  | .clientEnd .command =>
    simp only [adjustCredit, ite_none_right_eq_some, some.injEq] at hout
    obtain ⟨hc, rfl⟩ := hout
    exact .creditAdded hc
  | .hostEnd .success | .hostEnd .failure | .clientEnd .success | .clientEnd .failure =>
    cases hout
    exact .stutter trivial

theorem channelSignal_change {sig : UInt32} (hout : m.channelSignal a sig c = some out) :
    Change m (.channelSignal a sig c) out.mux := by
  match a with
  | .hostEnd .command =>
    cases hout
    exact .queued m.status .signal
  | .clientEnd .command =>
    simp only [channelSignal] at hout
    split at hout
    · split at hout
      all_goals
        cases hout
        exact .stutter trivial
    · cases hout
  | .hostEnd .success | .hostEnd .failure | .clientEnd .success | .clientEnd .failure =>
    cases hout
    exact .stutter trivial

theorem sendData_change (hout : m.sendData c buffer split = some out) :
    Change m (.sendData c buffer split) out.mux := by
  simp only [sendData] at hout
  split at hout
  · next hok =>
    split at hout
    · next hpiece =>
      cases hout
      exact .stutter (by simp [MayStutter, hpiece])
    · next hpiece =>
      cases hout
      have hne : buffer ≠ [] := by
        intro hnil
        simp [sendPiece, hnil] at hpiece
      exact .dataQueued (hok.resolve_left hne) hpiece
  · cases hout

theorem receiveData_change {d : DataPacket} (hm' : m.receiveData d = some m') :
    Change m (.receiveData d) m' := by
  simp only [receiveData] at hm'
  split at hm'
  · next hc =>
    split at hm'
    · next hch =>
      cases hm'
      exact .stutter hch
    · next hch =>
      cases hm'
      exact .dataReceived hc hch
  · cases hm'

theorem readData_change {count : Nat} (hm' : m.readData c count = some m') :
    Change m (.readData c count) m' := by
  simp only [readData] at hm'
  split at hm'
  · split at hm'
    · cases hm'
      exact .stutter trivial
    · next hch =>
      split at hm'
      · cases hm'
        exact .stutter trivial
      · next hqueue =>
        split at hm'
        · next hcount =>
          split at hm'
          · cases hm'
          · cases hm'
            exact .dataSplit hch hqueue hcount
        · next hcount =>
          cases hm'
          exact Change.dataRead hch hqueue (Nat.le_of_not_lt hcount)
  · cases hm'

theorem forwardData_change (c : Nat) (taken : Bool) :
    Change m (.forwardData c taken) (m.forwardData c taken) := by
  unfold forwardData
  split
  · exact .stutter trivial
  · next hch =>
    split
    · exact .stutter trivial
    · next hqueue =>
      split
      · cases taken with
        | true => exact .dataForwarded hch hqueue
        | false => exact .stutter trivial
      · exact .dataDiscarded hch hqueue

theorem freeHeld_change (index : Nat) : Change m (.freeHeld index) (m.freeHeld index) := by
  unfold freeHeld
  split
  · exact .stutter trivial
  · next hheld => exact .bufferFreed hheld

theorem processReleased_change {index : Nat} (hm' : m.processReleased index = some m') :
    Change m (.processReleased index) m' := by
  unfold processReleased at hm'
  split at hm'
  · cases hm'
    exact .stutter trivial
  · next htag => exact .released htag hm'

/-- An operation that returns made one of the changes. -/
theorem exec_change (hout : m.exec op = some out) : Change m op out.mux := by
  cases op with
  | enableMux a => exact some.inj hout ▸ enableMux_change a
  | disableMux a => exact some.inj hout ▸ disableMux_change a
  | enableChannel a c burst maxData hi ci hb hs cb cs =>
    exact some.inj hout ▸ enableChannel_change a c burst maxData hi ci hb hs cb cs
  | disableChannel a c hi ci => exact some.inj hout ▸ disableChannel_change a c hi ci
  | adjustCredit a c b s => exact adjustCredit_change hout
  | queryExternalInterface a h r name =>
    exact some.inj hout ▸ queryExternalInterface_change a h r name
  | channelSignal a s c => exact channelSignal_change hout
  | transmit p => exact some.inj hout ▸ .queued m.status .transmit
  | sendData c buffer split => exact sendData_change hout
  | receiveData d =>
    rcases map_eq_some_iff.mp hout with ⟨m', hm', rfl⟩
    exact receiveData_change hm'
  | readData c count =>
    rcases map_eq_some_iff.mp hout with ⟨m', hm', rfl⟩
    exact readData_change hm'
  | forwardData c taken => exact some.inj hout ▸ forwardData_change c taken
  | freeHeld index => exact some.inj hout ▸ freeHeld_change index
  | processReleased index =>
    rcases map_eq_some_iff.mp hout with ⟨m', hm', rfl⟩
    exact processReleased_change hm'

/-! ## The accepted piece -/

theorem sendPiece_ok {rest : List UInt8} (h : m.sendPiece c buffer split = .ok (ch, piece, rest)) :
    m.channels c = some ch ∧ (ch.state = .opened ∨ ch.state = .sending) ∧
      buffer = piece ++ rest ∧ piece ≠ [] ∧ piece.length ≤ (sendRoom ch).toNat := by
  simp only [sendPiece] at h
  split at h
  · cases h
  · next hne =>
    split at h
    · cases h
    · next ch0 hch =>
      split at h
      · next hst =>
        have hst' : ch0.state = .opened ∨ ch0.state = .sending := by simpa using hst
        split at h
        · next hroom =>
          split at h
          · cases h
          · next hsplit =>
            cases h
            have hpos : (sendRoom ch).toNat ≠ 0 := fun hzero => hsplit (.inr hzero)
            have hlen : (buffer.take (sendRoom ch).toNat).length = (sendRoom ch).toNat := by
              rw [List.length_take]
              omega
            refine ⟨hch, hst', (List.take_append_drop _ _).symm, ?_, hlen.le⟩
            intro hnil
            rw [hnil] at hlen
            exact hpos hlen.symm
        · next hroom =>
          cases h
          exact ⟨hch, hst', by simp, hne, Nat.le_of_not_lt hroom⟩
      · cases h

/-- The channel object with an accepted piece in its queue. -/
def queuedChannel (c : Nat) (ch : Channel) (piece : List UInt8) : Channel :=
  { ch with
    qedDataAmount := ch.qedDataAmount + UInt32.ofNat piece.length
    qedTotlAmount := ch.qedTotlAmount + UInt32.ofNat piece.length + UInt32.ofNat dataPacketHdrSize
    sendQueue := ch.sendQueue ++ [applyDataHdr c piece]
    state := .sending }

/-- Queueing a piece puts an open channel into the sending state. -/
theorem queuePiece_eq (hst : ch.state = .opened ∨ ch.state = .sending) :
    m.queuePiece c ch piece =
      { m with
        totalQueuedAmount := m.totalQueuedAmount + UInt32.ofNat piece.length +
          UInt32.ofNat dataPacketHdrSize }.setChannel c (queuedChannel c ch piece) := by
  rcases hst with hst | hst <;>
    simp [queuePiece, executeStateTransition, hst, queuedChannel]

/-! ## Released buffers -/

/-- The credit of a channel with other amounts to replenish. -/
def replenished (credit : ChannelCredit) (byteCredit sendCredit : UInt32) : ChannelCredit :=
  { credit with
    replenishedByteCredit := byteCredit
    replenishedSendCredit := sendCredit }

/-- A released buffer is added to the credit to replenish, which stays there or leaves
with a credit packet. -/
theorem commBuffReleased_cases {tag : Tag} (h : m.commBuffReleased tag = some m') :
    tag.channel < m.config.maxchannels ∧ ∃ sendCredit,
      m' = m.setCredit tag.channel (replenished (m.channelcredit tag.channel)
          ((m.channelcredit tag.channel).replenishedByteCredit +
            (tag.size - UInt32.ofNat dataPacketHdrSize)) sendCredit) ∨
      m' = (m.transmit (.credit (.clientEnd .command) (UInt8.ofNat tag.channel)
          ((m.channelcredit tag.channel).replenishedByteCredit +
            (tag.size - UInt32.ofNat dataPacketHdrSize)) sendCredit)).setCredit tag.channel
          (replenished (m.channelcredit tag.channel) 0 0) := by
  simp only [commBuffReleased] at h
  split at h
  · next hc =>
    split at h
    · cases h
      exact ⟨hc, _, .inr rfl⟩
    · cases h
      exact ⟨hc, _, .inl rfl⟩
  · cases h

/-! ## The send queue of a channel -/

theorem closeChannels_induction {P : Mux → Prop} (hclose : ∀ k i, P k → P (k.closeChannel i))
    (h : P m) : P m.closeChannels := by
  unfold closeChannels
  generalize List.range m.config.maxchannels = cs
  induction cs generalizing m with
  | nil => exact h
  | cons i cs ih => exact ih (hclose m i h)

theorem closeChannels_channels (m : Mux) (c : Nat) :
    m.closeChannels.channels c = none ∨ m.closeChannels.channels c = m.channels c := by
  refine closeChannels_induction
    (P := fun k => k.channels c = none ∨ k.channels c = m.channels c) (fun k i hk => ?_) (.inr rfl)
  cases hch : k.channels i with
  | none =>
    rw [closeChannel_of_none hch]
    exact hk
  | some ch =>
    rw [closeChannel_eq_dropChannel hch]
    by_cases hi : c = i
    · subst hi
      exact .inl (update_self ..)
    · have hsame : (k.dropChannel i ch).channels c = k.channels c := update_of_ne hi ..
      rwa [hsame]

end Mux

/-- What an operation does to a channel object that exists afterwards. -/
inductive ChannelEffect (m : Mux) (op : Op) (c : Nat) (ch' : Channel) : Prop where
  | created {index burst maxData s}
      (hnone : m.channels c = none) (hlt : c < m.config.maxchannels)
      (hs : s = .opening ∨ s = .opened) (heq : ch' = newChannel index burst maxData s)
  | kept (hch : m.channels c = some ch') (hop : ∀ d, op = .receiveData d → d.channel.toNat ≠ c)
  | opened {ch : Channel} (hch : m.channels c = some ch)
      (hop : ∀ d, op ≠ .receiveData d) (hst : ch.state = .opening)
      (heq : ch' = { ch with state := .opened })
  | moved {ch : Channel} {a : AckType} {hi ci : UInt8} {s} {ps : List ControlPacket}
      (hch : m.channels c = some ch) (hop : ∀ d, op ≠ .receiveData d)
      (hmove : Moves c hi ci a ch.state s ps) (heq : ch' = ch.moved hi ci s)
  | purged {ch : Channel} {hi ci : UInt8} (hch : m.channels c = some ch)
      (hop : op = .disableChannel (.clientEnd .command) c hi ci) (hst : ch.state = .sending)
      (heq : ch' = { ch.moved hi ci .remoteClosing with sendQueue := [] })
  | appended {ch : Channel} {buffer piece rest} {split : Bool}
      (hch : m.channels c = some ch) (hop : op = .sendData c buffer split)
      (hpiece : m.sendPiece c buffer split = .ok (ch, piece, rest))
      (heq : ch' = queuedChannel c ch piece)
  | received {ch : Channel} {d} (hch : m.channels c = some ch)
      (hop : op = .receiveData d) (hc : d.channel.toNat = c)
      (heq : ch' = { ch with
        receiveQueue := ch.receiveQueue ++ [⟨d.payload, some ⟨c, UInt32.ofNat d.size⟩⟩] })
  | taken {ch : Channel} {queue} (hch : m.channels c = some ch)
      (hop : (∃ count, op = .readData c count) ∨ ∃ taken, op = .forwardData c taken)
      (hqueue : ∀ b ∈ queue, b ∈ ch.receiveQueue ∨ b.tag = none ∧
        ∃ front ∈ ch.receiveQueue.head?, ∃ count < front.data.length, op = .readData c count)
      (heq : ch' = { ch with receiveQueue := queue })

open ChannelEffect

/-- The effect on a channel when one channel object is stored. -/
theorem ChannelEffect.of_update (m : Mux) {i : Nat} {x : Option Channel}
    (hch' : m'.channels c = some ch') (hchannels : m'.channels = update m.channels i x)
    (hop : ∀ d, op = .receiveData d → d.channel.toNat = i)
    (hx : x = some ch' → ChannelEffect m op i ch') : ChannelEffect m op c ch' := by
  rw [hchannels] at hch'
  by_cases hi : c = i
  · rw [hi, update_self] at hch'
    rw [hi]
    exact hx hch'
  · rw [update_of_ne hi] at hch'
    refine .kept hch' fun d hd hc => hi ?_
    rw [← hc, hop d hd]

/-- One inversion for all the channels: whatever an operation does to a channel object, it
is one of the effects. -/
theorem Change.channelEffect (h : Change m op m') (hch' : m'.channels c = some ch') :
    ChannelEffect m op c ch' := by
  cases h with
  | stutter hstutter =>
    refine .kept hch' ?_
    rintro d rfl rfl
    rw [MayStutter, hch'] at hstutter
    cases hstutter
  | status st | creditAdded _ | bufferFreed _ => exact .kept hch' (by simp)
  | queued st hqueues =>
    refine .kept hch' ?_
    rintro d rfl
    cases hqueues
  | muxDisabledHost _ | muxDisabledClient _ =>
    rcases closeChannels_channels _ c with hnone | hsame
    · cases hnone.symm.trans hch'
    · rw [hsame] at hch'
      exact .kept hch' (by simp)
  | localOpen hc hch =>
    apply of_update m hch' rfl (by simp)
    rintro ⟨rfl⟩
    exact .created hch hc (.inl rfl) rfl
  | remoteOpen hc hch =>
    apply of_update m hch' rfl (by simp)
    rintro ⟨rfl⟩
    exact .created hch hc (.inr rfl) rfl
  | openSuccess hc hch hst =>
    apply of_update m hch' rfl (by simp)
    rintro ⟨rfl⟩
    exact .opened hch (by simp) hst rfl
  | moved hc hch hmove =>
    rw [transmitAll_eq] at hch'
    apply of_update m hch' rfl (by simp)
    rintro ⟨rfl⟩
    exact .moved hch (by simp) hmove rfl
  | closed hc hch hclose =>
    rw [transmitAll_eq] at hch'
    apply of_update m hch' rfl
    · rintro d rfl
      cases hclose
    · exact nofun
  | purged hc hch hst =>
    apply of_update m hch' rfl (by simp)
    rintro ⟨rfl⟩
    exact .purged hch rfl hst rfl
  | dataQueued hc hpiece =>
    rcases sendPiece_ok hpiece with ⟨hch, hst, -⟩
    rw [queuePiece_eq hst] at hch'
    apply of_update m hch' rfl (by simp)
    rintro ⟨rfl⟩
    exact .appended hch rfl hpiece rfl
  | dataReceived hc hch =>
    apply of_update m hch' rfl (by simp)
    rintro ⟨rfl⟩
    exact .received hch rfl rfl rfl
  | dataRead hch hqueue _ | dataForwarded hch hqueue | dataDiscarded hch hqueue =>
    apply of_update m hch' rfl (by simp)
    rintro ⟨rfl⟩
    exact .taken hch (by simp) (by simp +contextual [hqueue]) rfl
  | dataSplit hch hqueue hcount =>
    apply of_update m hch' rfl (by simp)
    rintro ⟨rfl⟩
    exact .taken hch (by simp) (by simp +contextual [hqueue, hcount]) rfl
  | released _ hm' =>
    rcases commBuffReleased_cases hm' with ⟨-, sendCredit, rfl | rfl⟩
    · exact .kept hch' (by simp)
    · exact .kept hch' (by simp)

/-- What an operation does to the send queue of a channel that exists afterwards. -/
inductive QueueEffect (m : Mux) (op : Op) (c : Nat) (ch' : Channel) : Prop where
  | created (hnone : m.channels c = none) (hlt : c < m.config.maxchannels)
      (hqueue : ch'.sendQueue = [])
  | kept {ch : Channel} (hch : m.channels c = some ch) (hqueue : ch'.sendQueue = ch.sendQueue)
  | purged {ch : Channel} (hch : m.channels c = some ch) (hqueue : ch'.sendQueue = [])
      (hstate : ch'.state = .remoteClosing)
  | appended {ch : Channel} {buffer piece rest} {split : Bool}
      (hop : op = .sendData c buffer split)
      (hpiece : m.sendPiece c buffer split = .ok (ch, piece, rest))
      (hqueue : ch'.sendQueue = ch.sendQueue ++ [applyDataHdr c piece])

/-- An operation appends one accepted piece to a send queue, purges it after a remote
close, or leaves it; a new channel has an empty queue. -/
theorem Change.queueEffect (h : Change m op m') (hch' : m'.channels c = some ch') :
    QueueEffect m op c ch' := by
  cases h.channelEffect hch' with
  | created hnone hlt _ heq => exact .created hnone hlt (heq ▸ rfl)
  | kept hch _ => exact .kept hch rfl
  | opened hch _ _ heq | moved hch _ _ heq | received hch _ _ heq | taken hch _ _ heq =>
    exact .kept hch (heq ▸ rfl)
  | purged hch _ _ heq => exact .purged hch (heq ▸ rfl) (heq ▸ rfl)
  | appended _ hop hpiece heq => exact .appended hop hpiece (heq ▸ rfl)

/-! ## The receive queue of a channel -/

/-- The receive queue of a channel. -/
def Mux.receiveQueueOf (m : Mux) (c : Nat) : List Commbuff :=
  ((m.channels c).map Channel.receiveQueue).getD []

theorem Mux.receiveQueueOf_of_some (h : m.channels c = some ch) :
    m.receiveQueueOf c = ch.receiveQueue := by
  rw [receiveQueueOf, h]
  rfl

theorem Mux.mem_receiveQueueOf {b : Commbuff} :
    b ∈ m.receiveQueueOf c ↔ ∃ ch, m.channels c = some ch ∧ b ∈ ch.receiveQueue := by
  cases hch : m.channels c with
  | none => simp [receiveQueueOf, hch]
  | some ch => simp [receiveQueueOf_of_some hch]

/-! ## More about the operations -/

/-- `SendData` queues the piece it accepts, and does nothing without one. -/
theorem Change.sendData_cases (h : Change m (.sendData c buffer split) m') :
    (∃ ch piece rest, m.sendPiece c buffer split = .ok (ch, piece, rest) ∧
        m' = m.queuePiece c ch piece) ∨
      ((∀ r, m.sendPiece c buffer split ≠ .ok r) ∧ m' = m) := by
  cases h with
  | stutter hstutter => exact .inr ⟨hstutter, rfl⟩
  | queued st hqueues => cases hqueues
  | closed _ _ hclose => cases hclose
  | dataQueued _ hpiece => exact .inl ⟨_, _, _, hpiece, rfl⟩

/-- An operation touches neither the configuration nor the scan positions. -/
theorem Change.fixed (h : Change m op m') :
    m'.config = m.config ∧ m'.chanlNum = m.chanlNum ∧ m'.sendRun = m.sendRun := by
  have hclose (k : Mux) : k.closeChannels.config = k.config ∧
      k.closeChannels.chanlNum = k.chanlNum ∧ k.closeChannels.sendRun = k.sendRun := by
    refine closeChannels_induction (P := fun k' => k'.config = k.config ∧
      k'.chanlNum = k.chanlNum ∧ k'.sendRun = k.sendRun) (fun k' i hk => ?_) ⟨rfl, rfl, rfl⟩
    rw [← hk.1, ← hk.2.1, ← hk.2.2, closeChannel]
    split <;> exact ⟨rfl, rfl, rfl⟩
  cases h with
  | muxDisabledHost _ | muxDisabledClient _ => exact hclose _
  | moved _ _ _ | closed _ _ _ =>
    rw [transmitAll_eq]
    exact ⟨rfl, rfl, rfl⟩
  | dataQueued _ hpiece =>
    rw [queuePiece_eq (sendPiece_ok hpiece).2.1]
    exact ⟨rfl, rfl, rfl⟩
  | released _ hm' =>
    rcases commBuffReleased_cases hm' with ⟨-, sendCredit, rfl | rfl⟩ <;> exact ⟨rfl, rfl, rfl⟩
  | _ => exact ⟨rfl, rfl, rfl⟩

theorem Change.config_eq (h : Change m op m') : m'.config = m.config := h.fixed.1

end LteModemKernel.NetMux
