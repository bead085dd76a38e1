import LteModemKernel.Lib.Runs
import LteModemKernel.NetMux.SendLoop

/-!
# Queue accounting

A MUX counts the bytes it has queued three times: per channel without and with the
headers, and in total together with the control packets.  The counters are 32-bit and
follow the queues only through the code of each operation.

The counters agree with the queues in every state of a run in which no remote close
meets a sending channel and no disable from the client end meets queued data.  Both
conditions are needed: a remote close purges the queue of a sending channel without its
counters, and a disable from the client end sets the total to zero before the channels
subtract their amounts.

Main results:

- Theorem `queues_accounted`: the counters in every state of a guarded run.
- Theorem `queues_miscounted`: a run after which a channel counts bytes of an empty
  queue.
-/

namespace LteModemKernel.NetMux

open Lib Function UInt32 Finset Mux TransitionSystem TransitionSystem

/-! ## The transition system of one MUX -/

/-- The steps of one MUX: an operation or a step of the send task. -/
inductive MuxAction where
  | op (op : Op)
  | send (result : LinkResult)
  deriving DecidableEq, Repr

/-- One step of a MUX. -/
def Mux.act (m : Mux) : MuxAction → Option Mux
  | .op op => (m.exec op).map Outcome.mux
  | .send result => (m.sendStep result).map Prod.fst

/-- A MUX and all it can be asked to do, with any arguments and any results of the link. -/
def muxSystem : TransitionSystem Mux MuxAction where
  init m := ∃ config maxSendBuffers, m = createMux config maxSendBuffers
  step m a m' := m.act a = some m'

/-! ## The contents of the queues -/

/-- The data bytes of a send queue. -/
def payloadBytes (queue : List DataPacket) : Nat :=
  (queue.map fun d => d.payload.length).sum

/-- The bytes of a send queue, with one header for each buffer. -/
def queueBytes (queue : List DataPacket) : Nat :=
  (queue.map DataPacket.size).sum

/-- The bytes of a control queue. -/
def controlBytes (queue : List ControlPacket) : Nat :=
  (queue.map ControlPacket.size).sum

@[simp] theorem payloadBytes_nil : payloadBytes [] = 0 := rfl
@[simp] theorem queueBytes_nil : queueBytes [] = 0 := rfl
@[simp] theorem controlBytes_nil : controlBytes [] = 0 := rfl

@[simp]
theorem payloadBytes_cons (d : DataPacket) (rest : List DataPacket) :
    payloadBytes (d :: rest) = d.payload.length + payloadBytes rest := by
  simp [payloadBytes]

@[simp]
theorem queueBytes_cons (d : DataPacket) (rest : List DataPacket) :
    queueBytes (d :: rest) = d.size + queueBytes rest := by
  simp [queueBytes]

@[simp]
theorem controlBytes_cons (p : ControlPacket) (rest : List ControlPacket) :
    controlBytes (p :: rest) = p.size + controlBytes rest := by
  simp [controlBytes]

@[simp]
theorem payloadBytes_append (q q' : List DataPacket) :
    payloadBytes (q ++ q') = payloadBytes q + payloadBytes q' := by
  simp [payloadBytes]

@[simp]
theorem queueBytes_append (q q' : List DataPacket) :
    queueBytes (q ++ q') = queueBytes q + queueBytes q' := by
  simp [queueBytes]

@[simp]
theorem controlBytes_append (q q' : List ControlPacket) :
    controlBytes (q ++ q') = controlBytes q + controlBytes q' := by
  simp [controlBytes]

theorem queueBytes_eq (queue : List DataPacket) :
    queueBytes queue = payloadBytes queue + dataPacketHdrSize * queue.length := by
  induction queue with
  | nil => rfl
  | cons d rest ih =>
    rw [queueBytes_cons, payloadBytes_cons, ih, DataPacket.size, List.length_cons]
    ring

/-- Two sums that differ in one term. -/
theorem exists_sum_range {n c : Nat} (hc : c < n) {f g : Nat → Nat} (h : ∀ i, i ≠ c → g i = f i) :
    ∃ others, ∑ i ∈ range n, f i = others + f c ∧ ∑ i ∈ range n, g i = others + g c := by
  have hmem : c ∈ range n := mem_range.mpr hc
  refine ⟨∑ i ∈ (range n).erase c, f i, (sum_erase_add _ _ hmem).symm, ?_⟩
  rw [← sum_erase_add _ _ hmem, sum_congr rfl fun i hi => h i (ne_of_mem_erase hi)]

/-! ## The invariant -/

/-- The counters of a channel agree with its queue. -/
structure ChannelAccounted (ch : Channel) : Prop where
  data : ch.qedDataAmount.toNat = payloadBytes ch.sendQueue
  totl : ch.qedTotlAmount = ofNat (queueBytes ch.sendQueue)
  limit : ch.qedDataAmount ≤ ch.maxDataAmount

/-- The bytes queued on a channel, none if it is closed. -/
def channelBytes : Option Channel → Nat
  | none => 0
  | some ch => queueBytes ch.sendQueue

/-- The bytes queued on all channels. -/
def channelsBytes (m : Mux) : Nat :=
  ∑ c ∈ range m.config.maxchannels, channelBytes (m.channels c)

/-- The counters of a MUX agree with its queues. -/
structure Accounted (m : Mux) : Prop where
  total : m.totalQueuedAmount = ofNat (controlBytes m.sendQueue + channelsBytes m)
  channel : ∀ c ch, m.channels c = some ch → ChannelAccounted ch
  bounded : ∀ c, m.config.maxchannels ≤ c → m.channels c = none

variable {ch : Channel} {piece : List UInt8} {m : Mux}

namespace Accounted

variable {m' : Mux} {c : Nat}

variable (h : Accounted m)
include h

/-- The invariant only reads the queues and the counters. -/
theorem congr (hconfig : m'.config = m.config) (hchannels : m'.channels = m.channels)
    (hqueue : m'.sendQueue = m.sendQueue) (htotal : m'.totalQueuedAmount = m.totalQueuedAmount) :
    Accounted m' where
  total := by
    rw [htotal, h.total, hqueue, channelsBytes, channelsBytes, hconfig, hchannels]
  channel := by
    intro c ch hch
    exact h.channel c ch (hchannels ▸ hch)
  bounded := by
    intro c hc
    rw [hchannels]
    exact h.bounded c (hconfig ▸ hc)

theorem setCredit (c : Nat) (credit : ChannelCredit) : Accounted (m.setCredit c credit) :=
  h.congr rfl rfl rfl rfl

theorem lt_of_some (hch : m.channels c = some ch) : c < m.config.maxchannels := by
  by_contra hc
  rw [h.bounded c (Nat.le_of_not_lt hc)] at hch
  cases hch

/-- One channel changes.  The total has to follow, whatever the other channels hold. -/
theorem store (m' : Mux) (hc : c < m.config.maxchannels) {x : Option Channel}
    (hconfig : m'.config = m.config) (hchannels : m'.channels = update m.channels c x)
    (hx : ∀ ch, x = some ch → ChannelAccounted ch) (htotal : ∀ others, m.totalQueuedAmount =
        ofNat (controlBytes m.sendQueue + (others + channelBytes (m.channels c))) →
      m'.totalQueuedAmount =
        ofNat (controlBytes m'.sendQueue + (others + channelBytes x))) :
    Accounted m' where
  total := by
    obtain ⟨others, hold, hnew⟩ := exists_sum_range hc
      (g := fun i => channelBytes (update m.channels c x i)) fun i hi => by rw [update_of_ne hi]
    rw [channelsBytes, hconfig, hchannels, hnew, update_self]
    exact htotal others (by rw [h.total, channelsBytes, hold])
  channel := by
    intro i ch hch
    rw [hchannels] at hch
    by_cases hi : i = c
    · subst hi
      rw [update_self] at hch
      exact hx ch hch
    · rw [update_of_ne hi] at hch
      exact h.channel i ch hch
  bounded := by
    intro i hi
    rw [hconfig] at hi
    have hne : i ≠ c := by omega
    rw [hchannels, update_of_ne hne]
    exact h.bounded i hi

theorem transmit (p : ControlPacket) : Accounted (m.transmit p) where
  total := by
    rw [transmit_total, transmit_sendQueue, h.total, ← ofNat_add]
    congr 1
    simp only [controlBytes_append, controlBytes_cons, controlBytes_nil, channelsBytes,
      transmit_channels, transmit_config]
    omega
  channel := h.channel
  bounded := h.bounded

theorem transmitAll (ps : List ControlPacket) : Accounted (m.transmitAll ps) := by
  induction ps generalizing m with
  | nil => exact h
  | cons p ps ih => exact ih (h.transmit p)

/-- A channel object is replaced by one with the same queue and counters. -/
theorem replace {ch' : Channel} (hch : m.channels c = some ch)
    (hqueue : ch'.sendQueue = ch.sendQueue) (hdata : ch'.qedDataAmount = ch.qedDataAmount)
    (htotl : ch'.qedTotlAmount = ch.qedTotlAmount) (hmax : ch'.maxDataAmount = ch.maxDataAmount) :
    Accounted (m.setChannel c ch') := by
  have hold := h.channel c ch hch
  apply h.store (m.setChannel c ch') (h.lt_of_some hch) rfl rfl
  · rintro x ⟨⟩
    exact ⟨by rw [hdata, hqueue, hold.data], by rw [htotl, hqueue, hold.totl],
      by rw [hdata, hmax]; exact hold.limit⟩
  · intro others htotal
    rw [hch] at htotal
    simp only [setChannel_total, setChannel_sendQueue, channelBytes, hqueue]
    exact htotal

theorem receiveQueue (hch : m.channels c = some ch) (queue : List Commbuff)
    (hconfig : m'.config = m.config)
    (hchannels : m'.channels = update m.channels c (some { ch with receiveQueue := queue }))
    (hqueue : m'.sendQueue = m.sendQueue) (htotal : m'.totalQueuedAmount = m.totalQueuedAmount) :
    Accounted m' := by
  have hreplaced : Accounted (m.setChannel c { ch with receiveQueue := queue }) :=
    h.replace hch rfl rfl rfl rfl
  exact hreplaced.congr hconfig hchannels hqueue htotal

/-- A closed channel gets an object with an empty queue. -/
theorem openChannel (hc : c < m.config.maxchannels) (hch : m.channels c = none) (index : UInt8)
    (burst maxData : UInt32) (s : ChannelState) :
    Accounted (m.setChannel c (newChannel index burst maxData s)) := by
  apply h.store (m.setChannel c (newChannel index burst maxData s)) hc rfl rfl
  · rintro x ⟨⟩
    exact ⟨rfl, rfl, UInt32.zero_le⟩
  · intro others htotal
    rw [hch] at htotal
    simpa [channelBytes, newChannel] using htotal

theorem dropChannel (hch : m.channels c = some ch) : Accounted (m.dropChannel c ch) := by
  apply h.store (m.dropChannel c ch) (h.lt_of_some hch) rfl rfl
  · exact nofun
  · intro others htotal
    rw [hch] at htotal
    have hle : queueBytes ch.sendQueue ≤
        controlBytes m.sendQueue + (others + queueBytes ch.sendQueue) := by omega
    calc m.totalQueuedAmount - ch.qedTotlAmount
        = .ofNat (controlBytes m.sendQueue + (others + queueBytes ch.sendQueue)) -
            .ofNat (queueBytes ch.sendQueue) := by
          rw [htotal, (h.channel c ch hch).totl]
          rfl
      _ = .ofNat (controlBytes m.sendQueue + (others + 0)) := by
          rw [← ofNat_sub hle]
          congr 1
          omega

theorem closeChannel (c : Nat) : Accounted (m.closeChannel c) := by
  cases hch : m.channels c with
  | none =>
    rw [closeChannel_of_none hch]
    exact h
  | some ch =>
    rw [closeChannel_eq_dropChannel hch]
    exact h.dropChannel hch

theorem closeChannels : Accounted m.closeChannels :=
  closeChannels_induction (fun _ c hk => hk.closeChannel c) h

end Accounted

/-! ## Data in and out of a channel -/

theorem sendRoom_le (ch : Channel) :
    (sendRoom ch).toNat ≤ (ch.maxDataAmount - ch.qedDataAmount).toNat := by
  simp only [sendRoom]
  split
  · next h => exact UInt32.le_iff_toNat_le.mp (UInt32.le_of_lt h)
  · exact le_rfl

/-- An accepted piece is counted with its header, and stays below the limit. -/
theorem ChannelAccounted.queued (h : ChannelAccounted ch) (c : Nat)
    (hpiece : piece.length ≤ (sendRoom ch).toNat) :
    ChannelAccounted (queuedChannel c ch piece) := by
  have hlimit : ch.qedDataAmount.toNat ≤ ch.maxDataAmount.toNat := le_iff_toNat_le.mp h.limit
  have hroom : piece.length ≤ ch.maxDataAmount.toNat - ch.qedDataAmount.toNat := by
    have hle := sendRoom_le ch
    rw [UInt32.toNat_sub_of_le _ _ h.limit] at hle
    omega
  have hmax : ch.maxDataAmount.toNat < 2 ^ 32 := ch.maxDataAmount.toNat_lt
  have hdata : (ch.qedDataAmount + .ofNat piece.length).toNat =
      ch.qedDataAmount.toNat + piece.length := by
    rw [UInt32.toNat_add, UInt32.toNat_ofNat']
    omega
  refine ⟨?_, ?_, ?_⟩
  · simp [queuedChannel, hdata, h.data, payloadBytes_append, payloadBytes_cons, payloadBytes_nil,
      applyDataHdr]
  · simp only [queuedChannel, h.totl, ← ofNat_add, queueBytes_append,
      queueBytes_cons, queueBytes_nil, DataPacket.size, applyDataHdr]
    congr 1
    omega
  · have hle : ch.qedDataAmount.toNat + piece.length ≤ ch.maxDataAmount.toNat := by omega
    exact le_iff_toNat_le.mpr (hdata ▸ hle)

/-- A sent buffer leaves the queue and the counters. -/
theorem ChannelAccounted.sent (h : ChannelAccounted ch) {front : DataPacket}
    {rest : List DataPacket} (hqueue : ch.sendQueue = front :: rest) (s : ChannelState) :
    ChannelAccounted { afterFront ch front rest with state := s } := by
  have hdata := h.data
  rw [hqueue, payloadBytes_cons] at hdata
  have hlt : ch.qedDataAmount.toNat < 2 ^ 32 := ch.qedDataAmount.toNat_lt
  have hlen : (ofNat front.payload.length).toNat = front.payload.length := by
    rw [toNat_ofNat']
    omega
  have hle : .ofNat front.payload.length ≤ ch.qedDataAmount := by
    rw [le_iff_toNat_le, hlen]
    omega
  have hqed : (ch.qedDataAmount - .ofNat front.payload.length).toNat = payloadBytes rest := by
    rw [UInt32.toNat_sub_of_le _ _ hle, hlen]
    omega
  refine ⟨?_, ?_, ?_⟩
  · simp [afterFront, dataLength_eq, hqed]
  · have hsize : front.size ≤ front.size + queueBytes rest := Nat.le_add_right _ _
    simp only [afterFront, h.totl, hqueue, queueBytes_cons, ← ofNat_sub hsize]
    congr 1
    omega
  · have hlimit := le_iff_toNat_le.mp h.limit
    simp only [afterFront, dataLength_eq]
    rw [le_iff_toNat_le, hqed]
    omega

namespace Accounted

variable {m' : Mux} {c : Nat}

theorem queuePiece (h : Accounted m) {buffer rest : List UInt8} {split : Bool}
    (hpiece : m.sendPiece c buffer split = .ok (ch, piece, rest)) :
    Accounted (m.queuePiece c ch piece) := by
  rcases sendPiece_ok hpiece with ⟨hch, hst, -, -, hlen⟩
  rw [queuePiece_eq hst]
  have hqueued := (h.channel c ch hch).queued c hlen
  refine h.store _ (h.lt_of_some hch) (x := some (queuedChannel c ch piece)) ?_ ?_ ?_ ?_
  · rfl
  · rfl
  · rintro x ⟨⟩
    exact hqueued
  · intro others htotal
    rw [hch] at htotal
    simp only [setChannel_total, setChannel_sendQueue, htotal, channelBytes,
      queuedChannel, ← ofNat_add, queueBytes_append, queueBytes_cons,
      queueBytes_nil, DataPacket.size, applyDataHdr]
    congr 1
    omega

theorem sendChange (h : Accounted m) {sent : Option Message} (hsend : SendChange m m' sent) :
    Accounted m' := by
  cases hsend with
  | idle chanlNum run => exact h.congr rfl rfl rfl rfl
  | @control p rest hqueue =>
    refine ⟨?_, h.channel, h.bounded⟩
    have htotal := h.total
    rw [hqueue, controlBytes_cons] at htotal
    have hle : p.size ≤ p.size + controlBytes rest + channelsBytes m := by omega
    have hsub : p.size + controlBytes rest + channelsBytes m - p.size =
        controlBytes rest + channelsBytes m := by omega
    calc m.totalQueuedAmount - .ofNat p.size
        = .ofNat (p.size + controlBytes rest + channelsBytes m - p.size) := by
          rw [htotal, ← ofNat_sub hle]
      _ = .ofNat (controlBytes rest + channelsBytes m) := by rw [hsub]
  | @data c ch front rest s ps run hc hch hst hqueue hfits hfinish =>
    have hbase : Accounted (({ m with sendRun := run }.chargeSent c front).setChannel c
        { afterFront ch front rest with state := s }) := by
      have hsent := (h.channel c ch hch).sent hqueue s
      refine h.store _ hc
        (x := some { afterFront ch front rest with state := s }) ?_ ?_ ?_ ?_
      · rfl
      · rfl
      · rintro x ⟨⟩
        exact hsent
      · intro others htotal
        rw [hch, channelBytes, hqueue, queueBytes_cons] at htotal
        have hle : front.size ≤
            controlBytes m.sendQueue + (others + (front.size + queueBytes rest)) := by omega
        simp only [setChannel_total, setChannel_sendQueue, chargeSent, htotal,
          channelBytes, afterFront, ← ofNat_sub hle]
        congr 1
        omega
    have hall := hbase.transmitAll ps
    rwa [setChannel_transmitAll] at hall

end Accounted

/-! ## Runs -/

/-- The steps under which the counters follow the queues: no remote close meets a sending
channel, and no disable from the client end meets queued data. -/
def QueueSafe (m : Mux) : MuxAction → Prop
  | .op (.disableChannel (.clientEnd .command) c _ _) =>
    ∀ ch, m.channels c = some ch → ch.state ≠ .sending
  | .op (.disableMux (.clientEnd .command)) =>
    m.status = .active → ∀ c ch, m.channels c = some ch → ch.sendQueue = []
  | _ => True

theorem accounted_createMux (config : Config) (maxSendBuffers : UInt32) :
    Accounted (createMux config maxSendBuffers) where
  total := by simp [createMux, channelsBytes, channelBytes]
  channel := nofun
  bounded := fun _ _ => rfl

/-- A disable from the client end forgets the control packets and the total at once. -/
theorem Accounted.clear (h : Accounted m)
    (hempty : ∀ c ch, m.channels c = some ch → ch.sendQueue = []) :
    Accounted { m with status := .default, totalQueuedAmount := 0, sendQueue := [] } where
  total := by
    have hzero (c) : channelBytes (m.channels c) = 0 := by
      cases hch : m.channels c with
      | none => rfl
      | some ch => simp [channelBytes, hempty c ch hch]
    simp [channelsBytes, hzero]
  channel := h.channel
  bounded := h.bounded

/-- Every safe operation keeps the counters and the queues together. -/
theorem Accounted.change {m' : Mux} {op : Op} (h : Accounted m) (hsafe : QueueSafe m (.op op))
    (hchange : Change m op m') : Accounted m' := by
  cases hchange with
  | stutter _ => exact h
  | status st | creditAdded _ | bufferFreed _ => exact h.congr rfl rfl rfl rfl
  | @queued op p st _ =>
    have hstatus : Accounted { m with status := st } := h.congr rfl rfl rfl rfl
    exact hstatus.transmit p
  | muxDisabledHost _ =>
    have hqueued := h.transmit (.disableMux (.clientEnd .command))
    have hstatus : Accounted
        { m.transmit (.disableMux (.clientEnd .command)) with status := .default } :=
      hqueued.congr rfl rfl rfl rfl
    exact hstatus.closeChannels
  | muxDisabledClient hst => exact (h.clear (hsafe hst)).closeChannels
  | localOpen hc hch | remoteOpen hc hch =>
    exact ((h.setCredit _ _).openChannel hc hch _ _ _ _).transmit _
  | openSuccess hc hch hst =>
    exact (h.setCredit _ _).replace hch rfl rfl rfl rfl
  | @moved a c hi ci ch s ps hc hch hmove =>
    have hmoved : Accounted (m.setChannel c (ch.moved hi ci s)) := h.replace hch rfl rfl rfl rfl
    have hall := hmoved.transmitAll ps
    rwa [setChannel_transmitAll] at hall
  | @closed op c ch ps hc hch hclose =>
    have hall := h.transmitAll ps
    have hch' : (m.transmitAll ps).channels c = some ch := by
      rw [transmitAll_channels]
      exact hch
    exact hall.dropChannel hch'
  | purged hc hch hst => exact absurd hst (hsafe _ hch)
  | dataQueued hc hpiece => exact h.queuePiece hpiece
  | dataReceived hc hch => exact h.replace hch rfl rfl rfl rfl
  | dataRead hch _ _ | dataSplit hch _ _ | dataForwarded hch _ | dataDiscarded hch _ =>
    exact h.receiveQueue hch _ rfl rfl rfl rfl
  | released _ hm' =>
    rcases commBuffReleased_cases hm' with ⟨-, sendCredit, rfl | rfl⟩
    · exact h.congr rfl rfl rfl rfl
    · exact (h.transmit _).congr rfl rfl rfl rfl

theorem Accounted.act {m' : Mux} {a : MuxAction} (h : Accounted m) (hsafe : QueueSafe m a)
    (hact : m.act a = some m') : Accounted m' := by
  cases a with
  | op op =>
    rcases Option.map_eq_some_iff.mp hact with ⟨out, hout, rfl⟩
    exact h.change hsafe (exec_change hout)
  | send result =>
    rcases Option.map_eq_some_iff.mp hact with ⟨⟨m'', sent, informs⟩, hsend, rfl⟩
    exact h.sendChange (sendStep_change hsend)

theorem accounted_of_reachable (hm : muxSystem.ReachableUnder QueueSafe m) : Accounted m := by
  apply hm.invariant
  · rintro _ ⟨config, maxSendBuffers, rfl⟩
    exact accounted_createMux config maxSendBuffers
  · intro s a s' h hsafe hstep
    exact h.act hsafe hstep

/-- The amount a channel counts, nothing if it is closed. -/
def queuedAmount : Option Channel → Nat
  | none => 0
  | some ch => ch.qedTotlAmount.toNat

/-- In every state of a run with safe steps the total is the length of the control queue
and the amounts of the channels, and the amounts of a channel are those of its queue, with
and without the headers, below its limit.  The counters are 32-bit. -/
theorem queues_accounted {m : Mux} (hm : muxSystem.ReachableUnder QueueSafe m) :
    m.totalQueuedAmount.toNat =
        (controlBytes m.sendQueue +
          ∑ c ∈ range m.config.maxchannels, queuedAmount (m.channels c)) % 2 ^ 32 ∧
      ∀ c ch, m.channels c = some ch →
        c < m.config.maxchannels ∧
        ch.qedTotlAmount.toNat = queueBytes ch.sendQueue % 2 ^ 32 ∧
        ch.qedDataAmount.toNat =
          queueBytes ch.sendQueue - dataPacketHdrSize * ch.sendQueue.length ∧
        ch.qedDataAmount ≤ ch.maxDataAmount := by
  have h := accounted_of_reachable hm
  constructor
  · have hamount (c) : queuedAmount (m.channels c) = channelBytes (m.channels c) % 2 ^ 32 := by
      cases hch : m.channels c with
      | none => rfl
      | some ch =>
        rw [queuedAmount, channelBytes, (h.channel c ch hch).totl, toNat_ofNat']
    simp only [hamount]
    rw [h.total, toNat_ofNat', channelsBytes, Nat.add_mod, sum_nat_mod, ← Nat.add_mod]
  · intro c ch hch
    have hacc := h.channel c ch hch
    refine ⟨h.lt_of_some hch, ?_, ?_, hacc.limit⟩
    · rw [hacc.totl, toNat_ofNat']
    · rw [hacc.data, queueBytes_eq]
      omega

/-- A remote open of channel 0 and three bytes of data for it. -/
def sendingRun : List MuxAction :=
  [.op (.enableChannel (.clientEnd .command) 0 8 8 0 0 100 4 100 4),
    .op (.sendData 0 [1, 2, 3] true)]

/-- The condition is met by a run that queues a response and three bytes with their
header. -/
theorem queues_accounted_sending : ∃ m : Mux,
    muxSystem.ReachableUnder QueueSafe m ∧ m.totalQueuedAmount = 23 ∧
      m.totalQueuedAmount.toNat =
        (controlBytes m.sendQueue +
          ∑ c ∈ range m.config.maxchannels, queuedAmount (m.channels c)) % 2 ^ 32 := by
  have hm (m) (hrun : runLabels act (createMux .small 4) sendingRun = some m) :
      muxSystem.ReachableUnder QueueSafe m := by
    have hguard : Guarded act QueueSafe (createMux .small 4)
        sendingRun :=
      ⟨trivial, fun _ _ => ⟨trivial, fun _ _ => trivial⟩⟩
    exact .runLabels (fun _ _ _ h => h)
      (.init ⟨.small, 4, rfl⟩) hguard hrun
  exact ⟨_, hm _ rfl, rfl, (queues_accounted (hm _ rfl)).1⟩

/-- Without the condition: a remote close of the sending channel leaves its amounts in
place and its queue empty. -/
theorem queues_miscounted : ∃ (m : Mux) (ch : Channel),
    muxSystem.Reachable m ∧ m.channels 0 = some ch ∧
      ch.qedTotlAmount.toNat ≠ queueBytes ch.sendQueue % 2 ^ 32 := by
  have hm : ∀ m, runLabels act (createMux .small 4)
      (sendingRun ++ [.op (.disableChannel (.clientEnd .command) 0 0 0)]) = some m →
      muxSystem.Reachable m := by
    intro m hrun
    exact .runLabels (fun _ _ _ h => h)
      (.start ⟨.small, 4, rfl⟩) hrun
  exact ⟨_, _, hm _ rfl, rfl, by decide⟩

end LteModemKernel.NetMux
