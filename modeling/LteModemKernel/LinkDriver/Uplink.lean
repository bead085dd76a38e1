import LteModemKernel.LinkDriver.Frames

/-!
# The integrity of the uplink

At any time one party at most works for the queue: a call of `USBTransmit`, a transfer in the
IPC driver or the tasklet `MUXTransmitComplete`.  The `Stage` names it.  While there is
one, the first `processed_queue_length` packets of the queue are those of the transfer, and
packets are only added behind them.

Main results:
- Theorem `Working.exec`: every step keeps one party at work, if the IPC driver completes
  its transfers.
- Theorem `uplink_integrity`: what is given to `hw_ctrl_ipc_write_ex2` is what
  `USBQueue` accepted, cut into frames, once and in order.
-/

namespace LteModemKernel.LinkDriver

open Lib List Option

/-! ## The stages of a transfer -/

/-- Who works for the queue. -/
inductive Stage where
  | idle
  /-- A call of `USBTransmit` has not begun. -/
  | transmit
  /-- A call of `USBTransmit` has filled `write_buff`. -/
  | write
  /-- The nodes are copied by DMA. -/
  | copy (d : Dma)
  /-- The BP has the message. -/
  | ack (length : Nat)
  /-- `MUXTransmitComplete` is scheduled. -/
  | complete

open Stage

namespace Stage

/-- The counters and flags of the stages. -/
def transmits : Stage → Nat
  | transmit => 1
  | _ => 0

@[inherit_doc transmits]
def writes : Stage → Nat
  | write => 1
  | _ => 0

@[inherit_doc transmits]
def writeFlag : Stage → Bool
  | copy _ => true
  | ack _ => true
  | _ => false

@[inherit_doc transmits]
def dma : Stage → Option Dma
  | copy d => some d
  | _ => none

@[inherit_doc transmits]
def mailbox : Stage → List Nat
  | ack length => [length]
  | _ => []

@[inherit_doc transmits]
def writeCallback : Stage → Bool
  | complete => true
  | _ => false

variable {st : Stage}

theorem eq_transmit (h : 0 < st.transmits) : st = .transmit := by
  cases st <;> first | rfl | cases h

theorem eq_write (h : 0 < st.writes) : st = .write := by
  cases st <;> first | rfl | cases h

theorem eq_copy {d : Dma} (h : st.dma = some d) : st = .copy d := by
  cases st <;> cases h
  rfl

theorem eq_ack {length : Nat} {rest : List Nat} (h : st.mailbox = length :: rest) :
    st = .ack length ∧ rest = [] := by
  cases st <;> cases h
  exact ⟨rfl, rfl⟩

theorem eq_complete (h : st.writeCallback = true) : st = .complete := by
  cases st <;> first | rfl | cases h

end Stage

namespace State

variable {stale t : List Node} {queue : List Packet}

/-- The state is at a stage. -/
structure At (s : State) (st : Stage) : Prop where
  transmits : s.transmits = st.transmits
  writes : s.writes = st.writes
  writeFlag : s.writeFlag = st.writeFlag
  dma : s.dma = st.dma
  mailbox : s.mailbox = st.mailbox
  writeCallback : s.writeCallback = st.writeCallback

/-- `write_buff` holds a transfer that begins with the packet at the head of the queue. -/
structure Holds (buff : List Node) (queue : List Packet) (t : List Node) : Prop where
  buff : ∃ stale, buff = t ++ stale
  transfer : Transfer t
  head : t.head?.map Node.dataPtr = queue.head?

/-- The packets of the transfer at work are the first of the queue. -/
structure Batch (processed : Nat) (queue : List Packet) : Prop where
  pos : 0 < processed
  le : processed ≤ queue.length

/-- The packets of a transfer come behind those that left the queue. -/
def Last (batches : List (List Packet)) (removed batch : List Packet) : Prop :=
  ∃ earlier, batches = earlier ++ [batch] ∧ earlier.flatten = removed

/-- The packets of the transfers so far, `batches`, at every stage. -/
def Sent (s : State) (batches : List (List Packet)) : Stage → Prop
  | .idle =>
    s.sendQueue = [] ∧ s.processedQueueLength = 0 ∧ batches.flatten = s.removed ∧
      s.completed = s.given.length
  | .transmit =>
    s.sendQueue ≠ [] ∧ s.processedQueueLength = 0 ∧ batches.flatten = s.removed ∧
      s.completed = s.given.length
  | .write =>
    Batch s.processedQueueLength s.sendQueue ∧
      (∃ t, Holds s.writeBuff s.sendQueue t ∧
        Carries (s.sendQueue.take s.processedQueueLength) t) ∧
      batches.flatten = s.removed ∧ s.completed = s.given.length
  | .copy d =>
    Batch s.processedQueueLength s.sendQueue ∧
      (∃ t, Holds s.writeBuff s.sendQueue t ∧ s.nbFrame = t.length ∧
        d.frameIndex = d.nodeIndex ∧ d.nodeIndex < t.length) ∧
      Last batches s.removed (s.sendQueue.take s.processedQueueLength) ∧
      s.completed + 1 = s.given.length
  | .ack _ =>
    Batch s.processedQueueLength s.sendQueue ∧
      ((∃ t, Holds s.writeBuff s.sendQueue t) ∧ s.endFlag = true) ∧
      Last batches s.removed (s.sendQueue.take s.processedQueueLength) ∧
      s.completed + 1 = s.given.length
  | .complete =>
    Batch s.processedQueueLength s.sendQueue ∧
      Last batches s.removed (s.sendQueue.take s.processedQueueLength) ∧
      s.completed = s.given.length

/-- The invariant. -/
structure Working (s : State) (batches : List (List Packet)) (st : Stage) : Prop where
  stage : s.At st
  sent : s.Sent batches st
  given : List.Forall₂ Carries batches s.given
  transfers : ∀ t ∈ s.given, Transfer t
  accepted : s.accepted = s.removed ++ s.sendQueue
  sendable : ∀ p ∈ s.sendQueue, Sendable p

/-! ## Steps -/

variable {s s' : State} {batches : List (List Packet)} {st : Stage} {processed : Nat}
  {buff : List Node} {p : Packet} {l : Label}

/-- Only a stage with no packets in the queue is idle. -/
theorem Working.idle_of_nil (h : s.Working batches st) (hnil : s.sendQueue = []) : st = .idle := by
  have hsent := h.sent
  have hbatch : ¬Batch s.processedQueueLength s.sendQueue := by
    intro hb
    have hpos := hb.pos
    have hle := hb.le
    rw [hnil] at hle
    exact absurd (Nat.lt_of_lt_of_le hpos hle) (Nat.lt_irrefl _)
  cases st with
  | idle => rfl
  | transmit => exact absurd hnil hsent.1
  | write | copy d | ack n | complete => exact absurd hsent.1 hbatch

theorem Batch.append (h : Batch processed queue) (p : Packet) : Batch processed (queue ++ [p]) := by
  refine ⟨h.pos, ?_⟩
  rw [length_append]
  exact Nat.le_trans h.le (Nat.le_add_right _ _)

theorem Batch.take_append (h : Batch processed queue) (p : Packet) :
    (queue ++ [p]).take processed = queue.take processed :=
  take_append_of_le_length h.le

theorem Holds.append (h : Holds buff queue t) (p : Packet) (hne : queue ≠ []) :
    Holds buff (queue ++ [p]) t := by
  refine ⟨h.buff, h.transfer, ?_⟩
  rw [head?_append_of_ne_nil _ hne]
  exact h.head

/-- Packets are added behind those of the transfer. -/
theorem Sent.add (h : s.Sent batches st) (hne : s.sendQueue ≠ []) :
    Sent { s with
      netmuxToUsb := true, sendQueue := s.sendQueue ++ [p], accepted := s.accepted ++ [p] }
      batches st := by
  cases st with
  | idle => exact absurd h.1 hne
  | transmit => exact ⟨append_ne_nil_of_left_ne_nil hne _, h.2⟩
  | write =>
    rcases h with ⟨hb, ⟨t, ht, hcarries⟩, hrest⟩
    rw [← hb.take_append p] at hcarries
    exact ⟨hb.append p, ⟨t, ht.append p hne, hcarries⟩, hrest⟩
  | copy d =>
    rcases h with ⟨hb, ⟨t, ht, hcopy⟩, hrest⟩
    rw [← hb.take_append p] at hrest
    exact ⟨hb.append p, ⟨t, ht.append p hne, hcopy⟩, hrest⟩
  | ack n =>
    rcases h with ⟨hb, ⟨⟨t, ht⟩, hend⟩, hrest⟩
    rw [← hb.take_append p] at hrest
    exact ⟨hb.append p, ⟨⟨t, ht.append p hne⟩, hend⟩, hrest⟩
  | complete =>
    rcases h with ⟨hb, hrest⟩
    rw [← hb.take_append p] at hrest
    exact ⟨hb.append p, hrest⟩

theorem Working.usbQueue (h : s.Working batches st) (hp : Sendable p) :
    ∃ st', (s.usbQueue p).Working batches st' := by
  have haccepted : s.accepted ++ [p] = s.removed ++ (s.sendQueue ++ [p]) := by
    rw [h.accepted, append_assoc]
  have hsendable : ∀ q ∈ s.sendQueue ++ [p], Sendable q :=
    forall_mem_append.mpr ⟨h.sendable, forall_mem_singleton.mpr hp⟩
  unfold State.usbQueue
  simp only
  split
  · exact ⟨st, { h with stage := { h.stage with } }⟩
  · by_cases hnil : s.sendQueue = []
    · have hidle := h.idle_of_nil hnil
      subst hidle
      have hsent := h.sent
      have htransmits := h.stage.transmits
      rw [if_pos (by rw [hnil]; rfl)]
      refine ⟨.transmit, { h.stage with transmits := ?_ },
        ⟨append_ne_nil_of_right_ne_nil _ (cons_ne_nil _ _), hsent.2⟩,
        h.given, h.transfers, haccepted, hsendable⟩
      simp [htransmits, Stage.transmits]
    · have hlength : ¬(s.sendQueue ++ [p]).length - 1 = 0 := by
        have hpos := length_pos_iff.mpr hnil
        rw [length_append, length_singleton]
        omega
      rw [if_neg hlength]
      exact ⟨st, { h.stage with }, h.sent.add hnil, h.given, h.transfers, haccepted, hsendable⟩

/-- `USBTransmit` fills `write_buff` from the head of the queue. -/
theorem Working.usbTransmit (h : s.Working batches .transmit) :
    s.usbTransmit.Working batches .write := by
  rcases h.sent with ⟨hne, hprocessed, hremoved, hcompleted⟩
  refine ⟨{ h.stage with transmits := ?_, writes := ?_ }, ⟨⟨?_, ?_⟩,
    ⟨markEnd (gather 0 s.sendQueue).1, ⟨⟨_, rfl⟩, transfer_gather h.sendable hne,
      head_gather h.sendable⟩, ?_⟩, hremoved, hcompleted⟩, h.given, h.transfers, h.accepted,
    h.sendable⟩
  · simp [State.usbTransmit, h.stage.transmits, Stage.transmits]
  · simp [State.usbTransmit, h.stage.writes, Stage.writes]
  · simp only [State.usbTransmit, hprocessed, Nat.zero_add]
    cases hqueue : s.sendQueue with
    | nil => exact absurd hqueue hne
    | cons p rest =>
      exact gather_pos p rest
  · simp only [State.usbTransmit, hprocessed, Nat.zero_add]
    exact (gather_spec 0 s.sendQueue).1
  · simp only [State.usbTransmit, hprocessed, Nat.zero_add]
    exact carries_gather h.sendable

/-! ## The call of the IPC driver -/

theorem startDma_holds (ht : Transfer t) (hbuff : s.writeBuff = t ++ stale)
    (hframes : s.nbFrame = t.length) :
    s.startDma = ({ s with
      nbFrame := t.length
      frames := t.map Node.length
      dma := some ⟨0, 0, headerSize t.length⟩ }, .ok) := by
  have hscan := ht.scanNodes stale (fun _ hx => hx)
  have hne : t.map Node.length ≠ [] := by
    intro hnil
    have hpos := ht.pos
    rw [map_eq_nil_iff.mp hnil] at hpos
    exact Nat.lt_irrefl _ hpos
  unfold startDma
  rw [hbuff, hframes, hscan]
  simp [hne]

theorem memcpyNodes_holds (ht : Transfer t)
    (hbuff : s.writeBuff = t ++ stale) (hframes : s.nbFrame = t.length) :
    s.memcpyNodes true = { s with
      writeBuff := t.map (fun x => { x with done := true }) ++ stale
      totalNum := s.totalNum + (t.map Node.length).sum
      nbFrame := t.length
      frames := t.map Node.length
      endFlag := true
      mailbox := s.mailbox ++ [(headerSize t.length + (t.map Node.length).sum) % 2 ^ 16] } := by
  have hok : ∀ x, lengthOk x = true → (fun _ : Node => true) x = true := fun _ _ => rfl
  have hscan := ht.scanNodes stale hok
  unfold memcpyNodes mailboxWrite markDone
  rw [hbuff, hframes, hscan]
  simp

theorem Holds.congr {nodes : List Node} (h : Holds buff queue t)
    (hsame : nodes.map Node.undone = t.map Node.undone) : Holds (nodes ++ stale) queue nodes := by
  refine ⟨⟨stale, rfl⟩, h.transfer.congr hsame, ?_⟩
  have hhead := congrArg (fun nodes => nodes.head?.map Node.dataPtr) hsame
  simp only [head?_map, Option.map_map] at hhead
  exact hhead.trans h.head

theorem Working.writeEx2 (h : s.Working batches .write) (dmaOk : Bool) :
    ∃ st', (s.writeEx2 dmaOk true).Working
      (batches ++ [s.sendQueue.take s.processedQueueLength]) st' := by
  rcases h.sent with ⟨hb, ⟨t, ht, hcarries⟩, hremoved, hcompleted⟩
  rcases ht.buff with ⟨stale, hbuff⟩
  have hlast : Last (batches ++ [s.sendQueue.take s.processedQueueLength]) s.removed
      (s.sendQueue.take s.processedQueueLength) := ⟨batches, rfl, hremoved⟩
  have hgiven : List.Forall₂ Carries (batches ++ [s.sendQueue.take s.processedQueueLength])
      (s.given ++ [t]) := rel_append h.given (.cons hcarries .nil)
  have htransfers : ∀ u ∈ s.given ++ [t], Transfer u :=
    forall_mem_append.mpr ⟨h.transfers, forall_mem_singleton.mpr ht.transfer⟩
  have hcount : s.completed + 1 = (s.given ++ [t]).length := by
    rw [length_append, hcompleted]
    rfl
  have hwrites : s.writes - 1 = 0 := by rw [h.stage.writes]; rfl
  have hflag : s.writeFlag = false := h.stage.writeFlag
  unfold State.writeEx2 hwCtrlIpcWriteEx2
  rw [hbuff, ht.transfer.take_nodeNum]
  simp only [hflag, Bool.false_eq_true, if_false, ht.transfer.countFrames]
  cases dmaOk with
  | true =>
    rw [if_pos rfl, startDma_holds ht.transfer rfl rfl]
    refine ⟨.copy ⟨0, 0, headerSize t.length⟩,
      ⟨h.stage.transmits, hwrites, rfl, rfl, h.stage.mailbox, h.stage.writeCallback⟩,
      ⟨hb, ⟨t, ⟨⟨stale, rfl⟩, ht.transfer, ht.head⟩, rfl, rfl, ht.transfer.pos⟩, hlast, hcount⟩,
      hgiven, htransfers, h.accepted, h.sendable⟩
  | false =>
    have hmailbox : s.mailbox = [] := h.stage.mailbox
    rw [if_neg (by decide), memcpyNodes_holds ht.transfer rfl rfl]
    refine ⟨.ack ((headerSize t.length + (t.map Node.length).sum) % 2 ^ 16),
      ⟨h.stage.transmits, hwrites, rfl, h.stage.dma, ?_, h.stage.writeCallback⟩,
      ⟨hb, ⟨⟨_, ht.congr map_map⟩, rfl⟩, hlast, hcount⟩,
      hgiven, htransfers, h.accepted, h.sendable⟩
    simp [hmailbox, Stage.mailbox]

theorem Working.node2bufCallback {d : Dma} {x : Node} (h : s.Working batches (.copy d))
    (hx : s.writeBuff[d.nodeIndex]? = some x) :
    ∃ st', (s.node2bufCallback d x true).Working batches st' := by
  rcases h.sent with ⟨hb, ⟨t, ht, hframes, hindex, hlt⟩, hlast, hcount⟩
  rcases ht.buff with ⟨stale, hbuff⟩
  have hxt : t[d.nodeIndex]? = some x := by
    rwa [hbuff, getElem?_append_left hlt] at hx
  have hset : s.writeBuff.set d.nodeIndex { x with done := true }
      = t.set d.nodeIndex { x with done := true } ++ stale := by
    rw [hbuff, set_append_left _ _ hlt]
  have hholds : Holds (s.writeBuff.set d.nodeIndex { x with done := true }) s.sendQueue
      (t.set d.nodeIndex { x with done := true }) := by
    rw [hset]
    exact ht.congr (map_undone_set hxt)
  have hframe : (if x.last = true then d.frameIndex + 1 else d.frameIndex) = d.frameIndex + 1 :=
    if_pos (ht.transfer.framed x (mem_of_getElem? hxt)).1
  have hfin := ht.transfer.ended _ x hxt
  have hfew := ht.transfer.few
  have hmailbox : s.mailbox = [] := h.stage.mailbox
  unfold State.node2bufCallback mailboxWrite
  simp only [hframe, if_true]
  by_cases hend : d.nodeIndex + 1 = t.length
  · rw [if_pos (Or.inl (hfin.mpr hend))]
    refine ⟨.ack ((d.totalSize + x.length) % 2 ^ 16),
      { h with
        stage := { h.stage with dma := rfl, mailbox := ?_ }
        sent := ⟨hb, ⟨⟨_, hholds⟩, rfl⟩, hlast, hcount⟩ }⟩
    simp [hmailbox, Stage.mailbox]
  · have hmore : ¬(x.fin = true ∨ maxNodeNum ≤ d.nodeIndex ∨ s.nbFrame ≤ d.frameIndex + 1) := by
      rw [hfin, hframes, hindex]
      unfold maxFrameNum at hfew
      unfold maxNodeNum
      omega
    rw [if_neg hmore]
    refine ⟨.copy ⟨d.nodeIndex + 1, d.frameIndex + 1, d.totalSize + x.length⟩,
      { h with
        stage := { h.stage with dma := rfl }
        sent := ⟨hb, ⟨_, hholds, ?_, ?_, ?_⟩, hlast, hcount⟩ }⟩
    · rw [length_set]
      exact hframes
    · exact congrArg (· + 1) hindex
    · rw [length_set]
      exact Nat.lt_of_le_of_ne hlt hend

theorem Working.bpAck {n : Nat} (h : s.Working batches (.ack n)) (transSize : Nat) :
    ({ s with mailbox := [] }.usbIpcApiWriteCallback transSize).Working batches .complete := by
  rcases h.sent with ⟨hb, ⟨_, hend⟩, hlast, hcount⟩
  simp only [hend]
  exact { h with
    stage := { h.stage with writeFlag := rfl, mailbox := rfl, writeCallback := rfl }
    sent := ⟨hb, hlast, hcount⟩ }

theorem informRecovered_eq (s : State) : ∃ deferred count,
    s.informRecovered = { s with muxDeferred := deferred, recovered := count } := by
  unfold informRecovered
  split <;> exact ⟨_, _, rfl⟩

/-- The packets of the transfer leave the queue. -/
theorem Working.muxTransmitComplete (h : s.Working batches .complete) :
    ∃ st', s.muxTransmitComplete.Working batches st' := by
  rcases h.sent with ⟨hb, ⟨earlier, hbatches, hearlier⟩, hcount⟩
  have hremoved : batches.flatten
      = s.removed ++ s.sendQueue.take s.processedQueueLength := by
    rw [hbatches, flatten_append, hearlier, flatten_singleton]
  have haccepted : s.accepted = (s.removed ++ s.sendQueue.take s.processedQueueLength)
      ++ s.sendQueue.drop s.processedQueueLength := by
    rw [h.accepted, append_assoc, take_append_drop]
  have hsendable : ∀ p ∈ s.sendQueue.drop s.processedQueueLength, Sendable p :=
    fun p hp => h.sendable p (mem_of_mem_drop hp)
  have htransmits : s.transmits = 0 := h.stage.transmits
  rcases informRecovered_eq { s with writeCallback := false }.removeProcessed
    with ⟨deferred, count, heq⟩
  unfold State.muxTransmitComplete
  simp only [heq]
  unfold removeProcessed
  by_cases hnil : s.sendQueue.drop s.processedQueueLength = []
  · simp only [hnil, ne_eq, not_true_eq_false, if_false]
    rw [hnil] at haccepted
    exact ⟨.idle, { h.stage with writeCallback := rfl }, ⟨rfl, rfl, hremoved, hcount⟩, h.given,
      h.transfers, haccepted, nofun⟩
  · simp only [hnil, ne_eq, not_false_eq_true, if_true]
    refine ⟨.transmit, { h.stage with transmits := ?_, writeCallback := rfl },
      ⟨hnil, rfl, hremoved, hcount⟩, h.given, h.transfers, haccepted, hsendable⟩
    simp [htransmits, Stage.transmits]

/-- The packets may be sent, and every transfer that the IPC driver takes is completed. -/
def Completes (_ : State) : Label → Prop
  | .usbQueue p => Sendable p
  | .writeEx2 _ mboxOk => mboxOk = true
  | .dmaDone mboxOk => mboxOk = true
  | _ => True

instance Completes.decidable (s : State) (l : Label) : Decidable (Completes s l) := by
  cases l <;> unfold Completes <;> infer_instance

/-- What a step does. -/
inductive Does (s : State) : Label → State → Prop where
  | usbQueue (p : Packet) : Does s (.usbQueue p) (s.usbQueue p)
  | usbTransmit (hpos : 0 < s.transmits) : Does s .usbTransmit s.usbTransmit
  | writeEx2 (dmaOk mboxOk : Bool) (hpos : 0 < s.writes) :
      Does s (.writeEx2 dmaOk mboxOk) (s.writeEx2 dmaOk mboxOk)
  | dmaDone {d x} (mboxOk : Bool) (hdma : s.dma = some d)
      (hx : s.writeBuff[d.nodeIndex]? = some x) :
      Does s (.dmaDone mboxOk) (s.node2bufCallback d x mboxOk)
  | bpAck {n rest} (transSize : Nat) (hmailbox : s.mailbox = n :: rest) :
      Does s (.bpAck transSize) ({ s with mailbox := rest }.usbIpcApiWriteCallback transSize)
  | muxTransmitComplete (hscheduled : s.writeCallback = true) :
      Does s .muxTransmitComplete s.muxTransmitComplete
  | wakeUnlock (hpos : 0 < s.unlocks) : Does s .wakeUnlock s.wakeUnlock

theorem exec_does (hstep : s.exec l = some s') : Does s l s' := by
  cases l with
  | usbQueue p =>
    cases hstep
    exact .usbQueue p
  | usbTransmit | writeEx2 dmaOk mboxOk | muxTransmitComplete | wakeUnlock =>
    rcases ite_none_right_eq_some.mp hstep with ⟨hcond, hs'⟩
    cases hs'
    constructor
    exact hcond
  | dmaDone mboxOk =>
    simp only [exec] at hstep
    split at hstep
    · cases hstep
    · rename_i d hdma
      rcases map_eq_some_iff.mp hstep with ⟨x, hx, rfl⟩
      exact .dmaDone mboxOk hdma hx
  | bpAck transSize =>
    simp only [exec] at hstep
    split at hstep
    · cases hstep
    · rename_i n rest hmailbox
      cases hstep
      exact .bpAck transSize hmailbox

/-- Every step keeps one party at work. -/
theorem Working.exec (h : s.Working batches st) (hguard : Completes s l)
    (hstep : s.exec l = some s') : ∃ batches' st', s'.Working batches' st' := by
  cases exec_does hstep with
  | usbQueue p => exact ⟨batches, h.usbQueue hguard⟩
  | usbTransmit hpos =>
    rw [h.stage.transmits] at hpos
    cases eq_transmit hpos
    exact ⟨batches, .write, h.usbTransmit⟩
  | writeEx2 dmaOk mboxOk hpos =>
    cases hguard
    rw [h.stage.writes] at hpos
    cases eq_write hpos
    exact ⟨_, h.writeEx2 dmaOk⟩
  | dmaDone mboxOk hdma hx =>
    cases hguard
    cases eq_copy (h.stage.dma.symm.trans hdma)
    exact ⟨batches, h.node2bufCallback hx⟩
  | bpAck transSize hmailbox =>
    rcases eq_ack (h.stage.mailbox.symm.trans hmailbox) with ⟨rfl, rfl⟩
    exact ⟨batches, .complete, h.bpAck transSize⟩
  | muxTransmitComplete hscheduled =>
    rw [h.stage.writeCallback] at hscheduled
    cases eq_complete hscheduled
    exact ⟨batches, h.muxTransmitComplete⟩
  | wakeUnlock _ =>
    exact ⟨batches, st, { h with stage := { h.stage with } }⟩

theorem working_init : init.Working [] .idle :=
  ⟨⟨rfl, rfl, rfl, rfl, rfl, rfl⟩, ⟨rfl, rfl, rfl, rfl⟩, .nil, nofun, rfl, nofun⟩

theorem working_of_reachable (hs : system.ReachableUnder Completes s) :
    ∃ batches st, s.Working batches st := by
  apply hs.invariant (P := fun s => ∃ batches st, s.Working batches st)
  · rintro s rfl
    exact ⟨[], .idle, working_init⟩
  · rintro s l s' ⟨batches, st, h⟩ hguard hstep
    exact h.exec hguard hstep

/-! ## What is sent -/

/-- A transfer is prepared, or it is in the IPC driver. -/
def InProgress (s : State) : Prop := 0 < s.writes ∨ s.completed < s.given.length

/-- No transfer is due, in progress or to be taken off the queue. -/
def Quiet (s : State) : Prop :=
  s.transmits = 0 ∧ ¬s.InProgress ∧ s.writeCallback = false

/-- The transfers carry the accepted packets, once and in order, and a packet leaves the queue
after its transfer is completed. -/
structure Integrity (s : State) : Prop where
  queue : s.accepted = s.removed ++ s.sendQueue
  transfers : ∃ batches, List.Forall₂ Carries batches s.given ∧
    batches.flatten <+: s.accepted ∧ s.removed <+: (batches.take s.completed).flatten ∧
    (s.Quiet → batches.flatten = s.accepted)
  frames : ∀ t ∈ s.given, Transfer t
  buffer : ∀ l s', s.InProgress → s.exec l = some s' →
    s'.writeBuff.map Node.undone = s.writeBuff.map Node.undone

theorem Last.flatten {removed batch : List Packet} (h : Last batches removed batch) :
    batches.flatten = removed ++ batch := by
  rcases h with ⟨earlier, rfl, rfl⟩
  rw [flatten_append, flatten_singleton]

/-- Only accepted packets are sent, from the first one on. -/
theorem Working.sent_accepted (h : s.Working batches st) : batches.flatten <+: s.accepted := by
  have hqueue : s.removed ++ s.sendQueue.take s.processedQueueLength <+: s.accepted := by
    rw [h.accepted]
    exact prefix_append_right_inj _ |>.mpr ( take_prefix _ _)
  have hremoved : s.removed <+: s.accepted := by
    rw [h.accepted]
    exact prefix_append _ _
  have hsent := h.sent
  cases st with
  | idle | transmit | write => rw [hsent.2.2.1]; exact hremoved
  | copy d | ack n => rw [hsent.2.2.1.flatten]; exact hqueue
  | complete => rw [hsent.2.1.flatten]; exact hqueue

/-- A packet that left the queue was in a completed transfer. -/
theorem Working.removed_completed (h : s.Working batches st) :
    s.removed <+: (batches.take s.completed).flatten := by
  have hlength : batches.length = s.given.length := h.given.length_eq
  have hall : s.completed = s.given.length → batches.take s.completed = batches := by
    intro hcount
    rw [hcount, ← hlength, take_length]
  have hbefore : s.completed + 1 = s.given.length →
      Last batches s.removed (s.sendQueue.take s.processedQueueLength) →
      (batches.take s.completed).flatten = s.removed := by
    rintro hcount ⟨earlier, rfl, hearlier⟩
    rw [length_append, length_singleton, ← hcount] at hlength
    rw [← Nat.add_right_cancel hlength, take_left]
    exact hearlier
  have hsent := h.sent
  cases st with
  | idle | transmit | write =>
    rewrite [hall hsent.2.2.2, hsent.2.2.1]
    exact prefix_refl _
  | copy d | ack n =>
    rewrite [hbefore hsent.2.2.2 hsent.2.2.1]
    exact prefix_refl _
  | complete =>
    rw [hall hsent.2.2, hsent.2.1.flatten]
    exact prefix_append _ _

/-- Nothing is left to send when nobody is at work. -/
theorem Working.quiet (h : s.Working batches st) (hquiet : s.Quiet) :
    batches.flatten = s.accepted := by
  rcases hquiet with ⟨htransmits, hprogress, hcallback⟩
  rw [h.stage.transmits] at htransmits
  rw [h.stage.writeCallback] at hcallback
  have hwrites : s.writes = 0 := Nat.eq_zero_of_not_pos fun hpos => hprogress (Or.inl hpos)
  have hcompleted : ¬s.completed + 1 = s.given.length :=
    fun hcount => hprogress (Or.inr (Nat.lt_of_succ_le (Nat.le_of_eq hcount)))
  rw [h.stage.writes] at hwrites
  have hsent := h.sent
  cases st with
  | idle =>
    rw [h.accepted, hsent.1, append_nil]
    exact hsent.2.2.1
  | transmit => cases htransmits
  | write => cases hwrites
  | copy d | ack n => exact absurd hsent.2.2.2 hcompleted
  | complete => cases hcallback

/-! ## The buffer of a transfer -/

theorem map_undone_markDone (n : Nat) (nodes : List Node) :
    (markDone n nodes).map Node.undone = nodes.map Node.undone := by
  unfold markDone
  rw [List.map_append, List.map_map]
  calc (nodes.take n).map (Node.undone ∘ fun x => { x with done := true })
        ++ (nodes.drop n).map Node.undone
      = (nodes.take n).map Node.undone ++ (nodes.drop n).map Node.undone := rfl
    _ = nodes.map Node.undone := by rw [← List.map_append, List.take_append_drop]

/-- The queue and what belongs to it are the same, and of the nodes at most the DONE bits
differ. -/
structure SameQueue (s s' : State) : Prop where
  sendQueue : s'.sendQueue = s.sendQueue
  muxDeferred : s'.muxDeferred = s.muxDeferred
  netmuxToUsb : s'.netmuxToUsb = s.netmuxToUsb
  unlocks : s'.unlocks = s.unlocks
  nodes : s'.writeBuff.map Node.undone = s.writeBuff.map Node.undone

theorem SameQueue.mailboxWrite {n : Nat} {ok : Bool} (h : SameQueue s s') :
    SameQueue s (s'.mailboxWrite n ok) := by
  unfold State.mailboxWrite
  split <;> exact { h with }

theorem sameQueue_writeEx2 (s : State) (dmaOk mboxOk : Bool) :
    SameQueue s (s.writeEx2 dmaOk mboxOk) := by
  unfold writeEx2 hwCtrlIpcWriteEx2
  simp only
  split
  · exact ⟨rfl, rfl, rfl, rfl, rfl⟩
  · split
    · unfold startDma
      simp only
      split <;> exact ⟨rfl, rfl, rfl, rfl, rfl⟩
    · exact .mailboxWrite ⟨rfl, rfl, rfl, rfl, map_undone_markDone _ _⟩

theorem sameQueue_node2bufCallback {d : Dma} {x : Node} (mboxOk : Bool)
    (hx : s.writeBuff[d.nodeIndex]? = some x) : SameQueue s (s.node2bufCallback d x mboxOk) := by
  unfold node2bufCallback
  simp only
  generalize (if x.last = true then d.frameIndex + 1 else d.frameIndex) = frameIndex
  split
  · exact .mailboxWrite ⟨rfl, rfl, rfl, rfl, map_undone_set hx⟩
  · exact ⟨rfl, rfl, rfl, rfl, map_undone_set hx⟩

theorem SameQueue.usbIpcApiWriteCallback {transSize : Nat} (h : SameQueue s s') :
    SameQueue s (s'.usbIpcApiWriteCallback transSize) := by
  unfold State.usbIpcApiWriteCallback usbWriteCallback
  simp only
  split <;> exact { h with }

/-- A transfer in progress finds its nodes as they were given. -/
theorem Working.buffer (h : s.Working batches st) (hprogress : s.InProgress)
    (hstep : s.exec l = some s') : s'.writeBuff.map Node.undone = s.writeBuff.map Node.undone := by
  cases exec_does hstep with
  | usbQueue p =>
    unfold State.usbQueue
    simp only
    split
    · rfl
    · split <;> rfl
  | usbTransmit hpos =>
    rw [h.stage.transmits] at hpos
    cases eq_transmit hpos
    rcases hprogress with hwrites | hcount
    · rw [h.stage.writes] at hwrites
      cases hwrites
    · rw [h.sent.2.2.2] at hcount
      exact absurd hcount (Nat.lt_irrefl _)
  | writeEx2 dmaOk mboxOk _ => exact (sameQueue_writeEx2 s dmaOk mboxOk).nodes
  | dmaDone mboxOk _ hx => exact (sameQueue_node2bufCallback mboxOk hx).nodes
  | bpAck _ _ => exact (SameQueue.usbIpcApiWriteCallback ⟨rfl, rfl, rfl, rfl, rfl⟩).nodes
  | muxTransmitComplete _ =>
    rcases informRecovered_eq { s with writeCallback := false }.removeProcessed
      with ⟨deferred, count, heq⟩
    unfold State.muxTransmitComplete
    simp only [heq]
    split <;> rfl
  | wakeUnlock _ => rfl

end State

/-- The frames that `hw_ctrl_ipc_write_ex2` is given are those of the accepted packets, each
once and in their order, in every run whose transfers the IPC driver completes. -/
theorem uplink_integrity {s : State} (hs : system.ReachableUnder State.Completes s) :
    s.Integrity := by
  rcases State.working_of_reachable hs with ⟨batches, st, h⟩
  exact ⟨h.accepted, ⟨batches, h.given, h.sent_accepted, h.removed_completed, h.quiet⟩,
    h.transfers, fun _ _ => h.buffer⟩

/-- Two packets, the second one while the first is on its way. -/
theorem uplink_integrity_packets : ∃ s, system.ReachableUnder State.Completes s ∧
    s.removed = [[1]] ∧ s.sendQueue = [[2, 3]] ∧ s.Integrity := by
  have hstart : system.ReachableUnder State.Completes .init := .init rfl
  rcases hstart.exists_observed (P := fun s : State => s.removed = [[1]] ∧ s.sendQueue = [[2, 3]])
      [.usbQueue [1], .usbTransmit, .writeEx2 true true, .usbQueue [2, 3], .dmaDone true,
        .bpAck 11, .muxTransmitComplete]
      (by decide +kernel) with ⟨s, hs, hremoved, hqueue⟩
  exact ⟨s, hs, hremoved, hqueue, uplink_integrity hs⟩

end LteModemKernel.LinkDriver
