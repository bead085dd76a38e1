import LteModemKernel.NetMux.Credit

/-!
# Conservation of credit

What an end was granted is at every moment in one of five places: the credit it has left,
the data in flight, the received buffers that are not released, the credit the receiver
has not returned yet, and the credit packets on their way back.

The sum is kept by every step, apart from four: a read that splits a buffer, data for a
closed channel, an open that grants another amount than the one before it, and new values
for a credit of which something is left to replenish.

Main results:

- Theorem `credit_conserved`: the sum for both directions of a channel in every state
  of a guarded run.
- Theorem `credit_returned_early`: a read that splits a buffer returns the credit of
  the whole buffer with its first part.
-/

namespace LteModemKernel.NetMux

open Lib Function List Option UInt32 Mux Net Message

variable {c i : Nat} {m m' : Mux} {ps : List ControlPacket} {limit : Side → UInt32} {op : Op}
  {n : Net} {s : Side} {sent : Option Message} {b : Commbuff} {message : Message}

/-! ## The messages of the two ends -/

/-- The byte credit on the way in some messages. -/
def creditBytes (c : Nat) (ms : List Message) : Nat :=
  (ms.map (creditFor c)).sum

/-- The data bytes on the way in some messages. -/
def dataBytes (c : Nat) (ms : List Message) : Nat :=
  (ms.map (Message.dataBytes c)).sum

@[simp]
theorem creditBytes_append (ms ms' : List Message) :
    creditBytes c (ms ++ ms') = creditBytes c ms + creditBytes c ms' := by
  simp [creditBytes]

@[simp]
theorem creditBytes_cons (m : Message) (ms : List Message) :
    creditBytes c (m :: ms) = m.creditFor c + creditBytes c ms := by
  simp [creditBytes]

@[simp]
theorem dataBytes_append (ms ms' : List Message) :
    dataBytes c (ms ++ ms') = dataBytes c ms + dataBytes c ms' := by
  simp [dataBytes]

@[simp]
theorem dataBytes_cons (m : Message) (ms : List Message) :
    dataBytes c (m :: ms) = m.dataBytes c + dataBytes c ms := by
  simp [dataBytes]

theorem creditBytes_control (ps : List ControlPacket) :
    creditBytes c (ps.map .control) = (ps.map (ControlPacket.creditFor c)).sum := by
  rw [creditBytes, List.map_map]
  rfl

/-- A message of an end that grants `limit` bytes. -/
def MessageOk (c : Nat) (limit : UInt32) : Message → Prop
  | .data d => d.WellFormed
  | .control p => PacketOk c limit p

/-- What a step of the send task does to the credit of channel `c`: a sent data
packet is paid for. -/
structure SendEffect (c : Nat) (limit : UInt32) (m m' : Mux) (sent : Option Message) : Prop where
  credit : creditBytes c (sent.toList ++ m'.sendQueue.map .control) =
    creditBytes c (m.sendQueue.map .control)
  messages : (∀ p ∈ m.sendQueue, PacketOk c limit p) →
    ∀ x ∈ sent.toList ++ m'.sendQueue.map .control, MessageOk c limit x
  tagged : m'.tagged c = m.tagged c
  replenished : (m'.channelcredit c).replenishedByteCredit =
    (m.channelcredit c).replenishedByteCredit
  initialized : (m'.channelcredit c).initialized = (m.channelcredit c).initialized
  client : (m'.channelcredit c).clientByteCredit.toNat + dataBytes c sent.toList =
    (m.channelcredit c).clientByteCredit.toNat
  limited : Limited c limit m → Limited c limit m'
  owned : Owned m'

theorem Finishes.creditKept {ch : Channel} {st : ChannelState} (h : Finishes i ch st ps) (c : Nat)
    (limit : UInt32) : ∀ p ∈ ps, PacketOk c limit p ∧ p.creditFor c = 0 := by
  cases h <;> simp [PacketOk, ControlPacket.creditFor]

theorem messageOk_control {limit : UInt32}
    (h : ∀ p ∈ ps, PacketOk c limit p) : ∀ x ∈ ps.map control, MessageOk c limit x := by
  intro x hx
  rcases mem_map.mp hx with ⟨p, hp, rfl⟩
  exact h p hp

/-- A sent data packet is paid for out of the credit of its channel. -/
theorem Mux.chargeSent_credit {front : DataPacket} (hfits : m.fits i front)
    (hwf : front.WellFormed) (hnumber : front.channel.toNat = i) :
    ((m.chargeSent i front).channelcredit c).initialized = (m.channelcredit c).initialized ∧
      ((m.chargeSent i front).channelcredit c).maxHostByteCredit =
        (m.channelcredit c).maxHostByteCredit ∧
      ((m.chargeSent i front).channelcredit c).replenishedByteCredit =
        (m.channelcredit c).replenishedByteCredit ∧
      ((m.chargeSent i front).channelcredit c).clientByteCredit.toNat +
        Message.dataBytes c (.data front) = (m.channelcredit c).clientByteCredit.toNat := by
  have hlen : front.payload.length < 2 ^ 16 := by
    rw [← hwf]
    exact front.len.toNat_lt
  by_cases hi : c = i
  · have hle : .ofNat front.payload.length ≤ (m.channelcredit c).clientByteCredit := by
      have hdata := hfits.2.1
      rwa [dataLength_eq, ← hi] at hdata
    have hbytes : Message.dataBytes c (.data front) = front.payload.length := by
      rw [Message.dataBytes, if_pos (hnumber.trans hi.symm)]
    have hlength : (ofNat front.payload.length).toNat = front.payload.length := by
      rw [toNat_ofNat']
      omega
    subst hi
    simp only [chargeSent, update_self, dataLength_eq]
    refine ⟨trivial, trivial, trivial, ?_⟩
    rw [UInt32.toNat_sub_of_le _ _ hle, hlength, hbytes]
    rw [le_iff_toNat_le, hlength] at hle
    omega
  · have hbytes : Message.dataBytes c (.data front) = 0 := by
      rw [Message.dataBytes, if_neg (fun h => hi (h.symm.trans hnumber))]
    simp only [chargeSent, update_of_ne hi, hbytes]
    exact ⟨trivial, trivial, trivial, rfl⟩

theorem Owned.sendChange (h : Owned m) (hsend : SendChange m m' sent) : Owned m' := by
  intro i ch' hch' b hb
  rcases hsend.queueEffect hch' with ⟨ch, hch, hreceive, -⟩
  exact h i ch hch b (hreceive ▸ hb)

/-- The effect of a step of the send task. -/
theorem SendChange.credit {limit : UInt32} (h : SendChange m m' sent) (hwf : QueuesWellFormed m)
    (howned : Owned m) (hbyte : m.config.maxchannels ≤ 256) : SendEffect c limit m m' sent := by
  cases h with
  | idle _ _ => exact ⟨rfl, messageOk_control, rfl, rfl, rfl, rfl, id, howned⟩
  | @control p rest hqueue =>
    refine ⟨?_, ?_, rfl, rfl, rfl, rfl, id, howned⟩
    · rw [hqueue]
      rfl
    · intro hok
      rw [hqueue] at hok
      exact messageOk_control hok
  | @data i ch front rest st ps run hlt hch hst hqueue hfits hfinish =>
    have hmem : front ∈ ch.sendQueue := by
      rw [hqueue]
      exact mem_cons_self ..
    rcases hwf.packets i ch hch front hmem with ⟨hfront, hchannel⟩
    have hnumber : front.channel.toNat = i := by
      rw [hchannel, UInt8.toNat_ofNat']
      exact Nat.mod_eq_of_lt (Nat.lt_of_lt_of_le hlt hbyte)
    have hps := hfinish.creditKept c limit
    have hsum : (ps.map (ControlPacket.creditFor c)).sum = 0 :=
      sum_eq_zero (forall_mem_map.mpr fun p hp => (hps p hp).2)
    rcases chargeSent_credit (m := { m with sendRun := run }) (c := c) hfits hfront
      hnumber with ⟨hinit, hmax, hrepl, hclient⟩
    have howned' := howned.sendChange (.data run hlt hch hst hqueue hfits hfinish)
    rw [transmitAll_eq] at howned' ⊢
    refine ⟨?_, ?_, tagged_keep hch rfl rfl rfl rfl, hrepl, hinit, ?_, ?_, howned'⟩
    · change creditBytes c ([.data front] ++ (m.sendQueue ++ ps).map .control) = _
      rw [map_append, creditBytes_append, creditBytes_append, creditBytes_control ps, hsum]
      simp [creditBytes, creditFor]
    · intro hok x hx
      rcases mem_append.mp hx with hx | hx
      · rw [toList_some, mem_singleton] at hx
        rw [hx]
        exact hfront
      · apply messageOk_control _ x hx
        exact forall_mem_append.mpr ⟨hok, fun p hp => (hps p hp).1⟩
    · simpa [dataBytes] using hclient
    · intro hlimited hlive
      exact hmax.trans (hlimited (hlive.imp (channels_of_update hch rfl) hinit.symm.trans))

/-! ## Whole buffers -/

/-- The data bytes of a buffer that an interface holds, if it came from channel
`c`. -/
def Commbuff.heldBytes (c : Nat) (b : Commbuff) : Nat :=
  if ∃ t ∈ b.tag, t.channel = c then b.data.length else 0

/-- The data bytes of channel `c` that are received and not released: in its receive
queue, held by an interface, or released and not handled yet. -/
def Mux.unreleased (m : Mux) (c : Nat) : Nat :=
  ((m.receiveQueueOf c).map fun b => b.data.length).sum + (m.held.map (Commbuff.heldBytes c)).sum +
    tagBytes c m.releasedTags

/-- The tags of the buffers of channel `c` stand for the data in them. -/
structure Whole (c : Nat) (m : Mux) : Prop where
  queue : ∀ b ∈ m.receiveQueueOf c, tagBytes c b.tag.toList = b.data.length
  held : ∀ b ∈ m.held, tagBytes c b.tag.toList = b.heldBytes c

theorem Whole.unreleased_eq (h : Whole c m) : m.unreleased c = m.tagged c := by
  rw [unreleased, tagged, bufferBytes, bufferBytes, map_congr_left h.queue, map_congr_left h.held]

/-- A buffer counts the same for an interface, if it is whole where it is one of channel `c`. -/
theorem heldBytes_eq (hi : ∀ t, b.tag = some t → t.channel = i)
    (h : c = i → tagBytes c b.tag.toList = b.data.length) :
    tagBytes c b.tag.toList = b.heldBytes c := by
  cases htag : b.tag with
  | none => simp [Commbuff.heldBytes, htag]
  | some t =>
    by_cases ht : t.channel = c
    · rw [← htag, h (ht.symm.trans (hi t htag)), Commbuff.heldBytes, if_pos ⟨t, htag, ht⟩]
    · simp [Commbuff.heldBytes, htag, ht, Tag.bytesFor]

/-- An interface gets the buffer at the front of a receive queue, or the part that it reads
of this buffer. -/
theorem Change.held_cases (h : Change m op m') (hregular : op.regular = true) (hb : b ∈ m'.held) :
    b ∈ m.held ∨ ∃ i ch buffer rest, m.channels i = some ch ∧
      ch.receiveQueue = buffer :: rest ∧ b.tag = buffer.tag ∧
      (b = buffer ∨ ∃ count < buffer.data.length, op = .readData i count) := by
  cases h with
  | muxDisabledHost _ | muxDisabledClient _ => cases hregular
  | moved _ _ _ | closed _ _ _ =>
    rw [transmitAll_eq] at hb
    exact .inl hb
  | dataQueued _ hpiece =>
    rw [queuePiece_eq (sendPiece_ok hpiece).2.1] at hb
    exact .inl hb
  | dataRead hch hqueue _ | dataForwarded hch hqueue =>
    rcases mem_append.mp hb with hb | hb
    · exact .inl hb
    · rw [mem_singleton] at hb
      exact .inr ⟨_, _, _, _, hch, hqueue, by rw [hb], .inl hb⟩
  | dataSplit hch hqueue hcount =>
    rcases mem_append.mp hb with hb | hb
    · exact .inl hb
    · rw [mem_singleton] at hb
      exact .inr ⟨_, _, _, _, hch, hqueue, by rw [hb], .inr ⟨_, hcount, rfl⟩⟩
  | bufferFreed _ => exact .inl (mem_of_mem_eraseIdx hb)
  | released _ hm' =>
    rcases commBuffReleased_cases hm' with ⟨-, sendCredit, rfl | rfl⟩ <;> exact .inl hb
  | _ => exact .inl hb

/-- Operations that split no buffer of channel `c` keep its buffers whole. -/
theorem Whole.change {limit : UInt32} (h : Whole c m)
    (hchange : Change m op m') (hregular : op.regular = true) (hop : CreditOp c limit m op)
    (hwf : ∀ d, op = .receiveData d → d.WellFormed) (howned : Owned m) : Whole c m' where
  queue := by
    intro b hb
    have hold : ∀ {ch : Channel}, m.channels c = some ch → b ∈ ch.receiveQueue →
        tagBytes c b.tag.toList = b.data.length := fun hch hmem =>
      h.queue b (mem_receiveQueueOf.mpr ⟨_, hch, hmem⟩)
    rcases mem_receiveQueueOf.mp hb with ⟨ch', hch', hb⟩
    cases hchange.channelEffect hch' with
    | created _ _ _ heq =>
      subst heq
      cases hb
    | kept hch _ => exact hold hch hb
    | opened hch _ _ heq | moved hch _ _ heq | purged hch _ _ heq | appended hch _ _ heq =>
      subst heq
      exact hold hch hb
    | @received ch d hch hreceive hc heq =>
      subst heq
      rcases mem_append.mp hb with hmem | hmem
      · exact hold hch hmem
      · have hbytes := bytesFor_received (c := c) (hwf d hreceive)
        rw [Op.arrivalBytes, if_pos hc, hc] at hbytes
        rw [mem_singleton.mp hmem, toList_some, tagBytes_singleton]
        exact hbytes
    | taken hch _ hqueue heq =>
      subst heq
      rcases hqueue b hb with hmem | ⟨-, front, hfront, count, hcount, rfl⟩
      · exact hold hch hmem
      · have hle := hop rfl front (by rw [receiveQueueOf_of_some hch]; exact hfront)
        omega
  held := by
    intro b hb
    rcases hchange.held_cases hregular hb with hb | ⟨i, ch, buffer, rest, hch, hqueue, htag, hpart⟩
    · exact h.held b hb
    · have hmem : buffer ∈ ch.receiveQueue := by
        rw [hqueue]
        exact mem_cons_self
      refine heldBytes_eq (htag ▸ howned i ch hch buffer hmem) ?_
      rintro rfl
      rcases hpart with rfl | ⟨count, hcount, rfl⟩
      · exact h.queue b (mem_receiveQueueOf.mpr ⟨ch, hch, hmem⟩)
      · have hle := hop rfl buffer (by rw [receiveQueueOf_of_some hch, hqueue]; rfl)
        omega

/-- A step of the send task does not touch received buffers. -/
theorem Whole.sendChange (h : Whole c m) (hsend : SendChange m m' sent) : Whole c m' where
  queue := by
    intro b hb
    rcases mem_receiveQueueOf.mp hb with ⟨ch', hch', hb⟩
    rcases hsend.queueEffect hch' with ⟨ch, hch, hreceive, -⟩
    exact h.queue b (mem_receiveQueueOf.mpr ⟨ch, hch, hreceive ▸ hb⟩)
  held := by
    cases hsend with
    | idle _ _ | control _ => exact h.held
    | data _ _ _ _ _ _ _ =>
      rw [transmitAll_eq]
      exact h.held

/-! ## Runs -/

/-- The condition for channel `c` on the steps of two ends that grant
`limit s`. -/
def CreditSafe (c : Nat) (limit : Side → UInt32) (n : Net) : NetAction → Prop
  | .call s op => ShortPiece (n.mux s) op ∧ CreditOp c (limit s) (n.mux s) op
  | .send _ _ => True
  | .dispatch s decision =>
    match n.flight s.peer with
    | [] => True
    | message :: _ => CreditOp c (limit s) (n.mux s) (message.op decision)

instance (m : Mux) : Decidable (NothingToReplenish c m) :=
  inferInstanceAs (Decidable (_ → _))

instance (limit : UInt32) (m : Mux) (op : Op) : Decidable (CreditOp c limit m op) := by
  apply @Op.casesOn _ op <;> intro a <;> intros <;> unfold CreditOp <;>
    first
    | infer_instance
    | (apply @AckType.casesOn _ a <;> intro k <;> apply @AckKind.casesOn _ k <;> infer_instance)

instance (limit : Side → UInt32) (n : Net) (a : NetAction) :
    Decidable (CreditSafe c limit n a) := by
  apply @NetAction.casesOn _ a <;> intro s _ <;> unfold CreditSafe
  · infer_instance
  · infer_instance
  · dsimp only
    generalize n.flight s.peer = flight
    apply @List.casesOn _ _ flight <;> intros <;> infer_instance

/-- What was granted to one end is in one of the five places, nothing before its credit
is initialized. -/
def Balanced (c : Nat) (limit : Side → UInt32) (n : Net) (s : Side) : Prop :=
  ((n.mux s).channelcredit c).clientByteCredit.toNat + dataBytes c (n.flight s) +
      (n.mux s.peer).tagged c + ((n.mux s.peer).channelcredit c).replenishedByteCredit.toNat +
      creditBytes c (n.outgoing s.peer) =
    if ((n.mux s).channelcredit c).initialized = true then (limit s.peer).toNat else 0

/-- What holds at an end that grants `limit` bytes on channel `c`. -/
structure EndInv (c : Nat) (limit : UInt32) (m : Mux) : Prop where
  queues : QueuesWellFormed m
  owned : Owned m
  limited : Limited c limit m
  whole : Whole c m

/-- The invariant of the credit of channel `c`. -/
structure CreditInv (c : Nat) (limit : Side → UInt32) (n : Net) : Prop where
  sizes : Sizes n
  ends : ∀ s, EndInv c (limit s) (n.mux s)
  messages : ∀ s, ∀ m ∈ n.outgoing s, MessageOk c (limit s) m
  balanced : ∀ s, Balanced c limit n s

theorem CreditInv.bound (h : CreditInv c limit n) (s : Side) :
    (n.mux s).tagged c + ((n.mux s).channelcredit c).replenishedByteCredit.toNat < 2 ^ 32 := by
  have hbal := h.balanced s.peer
  rw [Balanced, Side.peer_peer] at hbal
  have hlimit := (limit s).toNat_lt
  split at hbal <;> omega

theorem Op.isCall_credit (h : op.isCall = true) :
    op.regular = true ∧ op.arrivalBytes c = 0 ∧ op.creditFor c = 0 ∧ op.grant c = none ∧
      ∀ d, op ≠ .receiveData d := by
  cases op with
  | enableChannel a i burst maxData hi ci hb hs cb cs =>
    cases a with
    | hostEnd kind =>
      cases kind with
      | command => exact ⟨rfl, rfl, rfl, rfl, by simp⟩
      | success | failure => cases h
    | clientEnd kind => cases kind <;> cases h
  | enableMux a | disableMux a | transmit p | receiveData d | adjustCredit a i b sc => cases h
  | _ => exact ⟨rfl, rfl, rfl, rfl, by simp⟩

/-- Handling a message: its data arrives, its credit is added, and what it grants is the
limit of the end that sent it. -/
theorem Message.op_credit {limit : UInt32} (h : MessageOk c limit message) (decision : Decision) :
    (message.op decision).regular = true ∧
      (message.op decision).arrivalBytes c = message.dataBytes c ∧
      ((message.op decision).creditFor c).toNat = message.creditFor c ∧
      (∀ cb, (message.op decision).grant c = some cb → cb = limit) ∧
      ∀ d, message.op decision = .receiveData d → d.WellFormed := by
  cases message with
  | data d =>
    refine ⟨rfl, rfl, rfl, by simp [op, Op.grant], ?_⟩
    rintro d' ⟨rfl⟩
    exact h
  | control p =>
    cases p with
    | credit a channel b sc =>
      refine ⟨rfl, rfl, ?_, by simp [op, Op.grant], by simp [op]⟩
      simp only [op, Op.creditFor, creditFor, ControlPacket.creditFor]
      split <;> rfl
    | disableMux a => exact absurd h id
    | enableChannel a channel host client b sc =>
      cases a with
      | hostEnd kind =>
        cases kind with
        | success =>
          refine ⟨rfl, rfl, rfl, fun cb hcb => ?_, by simp [op]⟩
          rcases ite_none_right_eq_some.mp hcb with ⟨hchannel, ⟨⟩⟩
          exact h hchannel
        | command | failure => exact ⟨rfl, rfl, rfl, by simp [op, Op.grant], by simp [op]⟩
      | clientEnd kind =>
        cases kind with
        | command =>
          cases decision with
          | reject => exact ⟨rfl, rfl, rfl, by simp [op, Op.grant], by simp [op]⟩
          | accept burst maxData hb hs =>
            refine ⟨rfl, rfl, rfl, fun cb hcb => ?_, by simp [op]⟩
            rcases ite_none_right_eq_some.mp hcb with ⟨hchannel, ⟨⟩⟩
            exact h hchannel
        | success | failure => exact ⟨rfl, rfl, rfl, by simp [op, Op.grant], by simp [op]⟩
    | _ => exact ⟨rfl, rfl, rfl, by simp [op, Op.grant], by simp [op]⟩

/-- The messages on the way before and after an operation of one end. -/
structure OpStep (c : Nat) (s : Side) (n n' : Net) (op : Op) (ps : List ControlPacket) : Prop where
  peer_mux : n'.mux s.peer = n.mux s.peer
  flight : dataBytes c (n'.flight s) = dataBytes c (n.flight s)
  flight_peer : dataBytes c (n.flight s.peer) = dataBytes c (n'.flight s.peer) + op.arrivalBytes c
  own : creditBytes c (n'.outgoing s) =
    creditBytes c (n.outgoing s) + (ps.map (ControlPacket.creditFor c)).sum
  other : creditBytes c (n.outgoing s.peer) =
    creditBytes c (n'.outgoing s.peer) + (op.creditFor c).toNat

/-- An operation of one end keeps the balance of both directions. -/
theorem Balanced.opStep {n' : Net} (h : ∀ t, Balanced c limit n t) (hstep : OpStep c s n n' op ps)
    (heffect : CreditEffect c (limit s) (n.mux s) op (n'.mux s) ps)
    (hgrant : ∀ cb, op.grant c = some cb → cb = limit s.peer) (t : Side) :
    Balanced c limit n' t := by
  have hflight := hstep.flight
  have hflight' := hstep.flight_peer
  have hown := hstep.own
  have hother := hstep.other
  have hgranted := heffect.granted
  rcases Side.eq_or_eq_peer s t with rfl | rfl
  · -- the end that made the step is the one that was granted credit
    have hbal := h t
    rw [Balanced] at hbal ⊢
    rw [hstep.peer_mux]
    have hlimit := (limit t.peer).toNat_lt
    rcases heffect.client with ⟨hinit, hclient⟩ | ⟨hinit, hinit', hnew⟩
    · rw [hinit, hclient]
      have hadd : (((n.mux t).channelcredit c).clientByteCredit + op.creditFor c).toNat =
          ((n.mux t).channelcredit c).clientByteCredit.toNat + (op.creditFor c).toNat := by
        rw [UInt32.toNat_add]
        apply Nat.mod_eq_of_lt
        split at hbal <;> omega
      rw [hadd]
      omega
    · rw [hgrant _ hnew, if_pos hinit']
      rw [hinit, if_neg (by simp)] at hbal
      omega
  · -- its peer was, and the credit moves between the places at this end
    have hbal := h s.peer
    rw [Balanced, Side.peer_peer] at hbal ⊢
    rw [hstep.peer_mux]
    omega

theorem CreditInv.byte (h : CreditInv c limit n) (s : Side) :
    (n.mux s).config.maxchannels ≤ 256 := by
  rw [h.sizes.same s]
  exact h.sizes.byte

/-- An operation of one end, with the messages that its peer has sent and that it has not
handled. -/
theorem CreditInv.opStep {flight : Side → List Message} (h : CreditInv c limit n)
    (hregular : op.regular = true) (hshort : ShortPiece (n.mux s) op)
    (hop : CreditOp c (limit s) (n.mux s) op) (hwf : ∀ d, op = .receiveData d → d.WellFormed)
    (hgrant : ∀ cb, op.grant c = some cb → cb = limit s.peer) (hchange : Change (n.mux s) op m')
    (hsizes : Sizes { n.setMux s m' with flight := flight })
    (hsent : ∀ ps, m'.sendQueue = (n.mux s).sendQueue ++ ps →
      Net.outgoing { n.setMux s m' with flight := flight } s = n.outgoing s ++ ps.map .control ∧
      (∀ x ∈ Net.outgoing { n.setMux s m' with flight := flight } s.peer, x ∈ n.outgoing s.peer) ∧
      OpStep c s n { n.setMux s m' with flight := flight } op ps) :
    CreditInv c limit { n.setMux s m' with flight := flight } := by
  rcases h.ends s with ⟨hqueues, howned, hlimited, hwhole⟩
  rcases hchange.credit hregular hop hwf howned hlimited (h.byte s) (h.bound s) with ⟨ps, heffect⟩
  rcases hsent ps heffect.queue with ⟨hown, hother, hstep⟩
  have heffect' : CreditEffect c (limit s) (n.mux s) op ((n.setMux s m').mux s) ps := by
    rw [setMux_self]
    exact heffect
  refine ⟨hsizes, ?_, ?_, .opStep h.balanced hstep heffect' hgrant⟩
  · exact forall_setMux (P := fun t m => EndInv c (limit t) m) ⟨hqueues.change hshort hchange,
      howned.change hchange, heffect.limited, hwhole.change hchange hregular hop hwf howned⟩ h.ends
  · intro t m hm
    rcases Side.eq_or_eq_peer s t with rfl | rfl
    · rw [hown, mem_append] at hm
      rcases hm with hm | hm
      · exact h.messages t m hm
      · exact messageOk_control heffect.packets m hm
    · exact h.messages _ m (hother m hm)

theorem CreditInv.callStep (h : CreditInv c limit n) (hsafe : CreditSafe c limit n (.call s op))
    (hcall : op.isCall = true) (hchange : Change (n.mux s) op m') :
    CreditInv c limit (n.setMux s m') := by
  rcases Op.isCall_credit (c := c) hcall with ⟨hregular, harr, hadded, hgrant, hreceive⟩
  refine h.opStep hregular hsafe.1 hsafe.2 (fun d hd => absurd hd (hreceive d)) ?_ hchange
    (h.sizes.step (.call hcall hchange)) ?_
  · rw [hgrant]
    exact nofun
  · intro ps hqueue
    rcases outgoing_call hqueue with ⟨hown, hother⟩
    have hcredit := congrArg (creditBytes c) hown
    rw [creditBytes_append, creditBytes_control] at hcredit
    refine ⟨hown, fun x hx => hother ▸ hx, setMux_peer .., rfl, ?_, hcredit, ?_⟩
    · rw [harr]
      rfl
    · rw [hadded]
      exact congrArg (creditBytes c) hother.symm

theorem CreditInv.dispatchStep {decision : Decision} {rest : List Message} (h : CreditInv c limit n)
    (hsafe : CreditSafe c limit n (.dispatch s decision))
    (hflight : n.flight s.peer = message :: rest)
    (hchange : Change (n.mux s) (message.op decision) m') :
    CreditInv c limit { n.setMux s m' with flight := update n.flight s.peer rest } := by
  have hop : CreditOp c (limit s) (n.mux s) (message.op decision) := by
    simpa only [CreditSafe, hflight] using hsafe
  have hmem : message ∈ n.outgoing s.peer := by
    rw [outgoing, hflight]
    exact mem_append_left _ (mem_cons_self ..)
  rcases op_credit (h.messages s.peer message hmem) decision with
    ⟨hregular, harr, hadded, hgrant, hwf⟩
  refine h.opStep hregular (shortPiece_message ..) hop hwf hgrant hchange
    (h.sizes.step (.dispatch hflight hchange)) fun ps hqueue => ?_
  rcases outgoing_dispatch hflight hqueue with ⟨hown, hother⟩
  refine ⟨hown, fun x hx => hother ▸ mem_cons_of_mem _ hx, setMux_peer .., ?_, ?_, ?_, ?_⟩
  · simp
  · simp only [update_self, hflight, dataBytes_cons, harr]
    omega
  · rw [hown, creditBytes_append, creditBytes_control]
  · rw [hother, creditBytes_cons, hadded, Nat.add_comm]

theorem CreditInv.sendStep (result : LinkResult) (h : CreditInv c limit n)
    (hsend : SendChange (n.mux s) m' sent) :
    CreditInv c limit { n.setMux s m' with
      flight := update n.flight s (n.flight s ++ sent.toList) } := by
  rcases h.ends s with ⟨hqueues, howned, hlimited, hwhole⟩
  have heffect : SendEffect c (limit s) (n.mux s) m' sent := hsend.credit hqueues howned (h.byte s)
  rcases outgoing_send n s m' sent with ⟨hown, hother⟩
  have hmessages := h.messages s
  have hqueue (p) (hp : p ∈ (n.mux s).sendQueue) : PacketOk c (limit s) p := by
    exact hmessages (.control p) (mem_append_right _ (mem_map_of_mem hp))
  have hnet : NetChange n (.send s result) { n.setMux s m' with
      flight := update n.flight s (n.flight s ++ sent.toList) } := .send hsend
  refine ⟨h.sizes.step hnet, ?_, ?_, ?_⟩
  · exact forall_setMux (P := fun t m => EndInv c (limit t) m) ⟨hqueues.sendChange hsend,
      heffect.owned, heffect.limited hlimited, hwhole.sendChange hsend⟩ h.ends
  · intro t m hm
    rcases Side.eq_or_eq_peer s t with rfl | rfl
    · rw [hown, mem_append] at hm
      rcases hm with hm | hm
      · exact hmessages m (mem_append_left _ hm)
      · exact heffect.messages hqueue m hm
    · rw [hother] at hm
      exact h.messages _ m hm
  · intro t
    have hcredit := heffect.credit
    have hclient := heffect.client
    have hself : (n.setMux s m').mux s = m' := setMux_self ..
    have hpeer : (n.setMux s m').mux s.peer = n.mux s.peer := setMux_peer ..
    rcases Side.eq_or_eq_peer s t with rfl | rfl
    · have hbal := h.balanced t
      rw [Balanced] at hbal ⊢
      rw [hother, hself, hpeer, heffect.initialized]
      simp only [update_self, dataBytes_append]
      omega
    · have hbal := h.balanced s.peer
      rw [Balanced, Side.peer_peer] at hbal ⊢
      rw [hown, hself, hpeer, heffect.tagged, heffect.replenished]
      rw [outgoing, creditBytes_append] at hbal
      simp only [creditBytes_append, update_of_ne (Side.peer_ne s)] at hcredit ⊢
      omega

/-- In a new net nothing is granted. -/
theorem creditInv_init (limit : Side → UInt32) (h : netSystem.init n) : CreditInv c limit n := by
  have hsizes := sizes_init h
  rcases h with ⟨⟨config, buffers, hmux, -, -⟩, hflight⟩
  have hout (s) : n.outgoing s = [] := by
    rw [outgoing, hflight s, hmux s]
    rfl
  refine ⟨hsizes, ?_, ?_, ?_⟩
  · intro s
    rw [hmux s]
    refine ⟨queuesWellFormed_createMux .., fun _ _ h => ?_, ?_, fun _ h => ?_, fun _ h => ?_⟩
    · cases h
    · rintro (hlive | hlive)
      · exact absurd rfl hlive
      · cases hlive
    · cases h
    · cases h
  · intro s m hm
    rw [hout] at hm
    cases hm
  · intro s
    rw [Balanced, hout, hflight, hmux s, hmux s.peer]
    rfl

theorem creditInv_of_reachable
    (hn : netSystem.ReachableUnder (CreditSafe c limit) n) : CreditInv c limit n := by
  apply hn.invariant
  · intro n hinit
    exact creditInv_init limit hinit
  · intro n a n' ih hsafe hexec
    cases exec_change hexec with
    | call hcall hchange => exact ih.callStep hsafe hcall hchange
    | @send s result m' sent hsend => exact ih.sendStep result hsend
    | dispatch hflight hchange => exact ih.dispatchStep hsafe hflight hchange

/-- In every state of a safe run in which the credit of channel `c` is initialized at
both ends, the credit that an end has left, the data in flight from it, the data its peer
has not released, the credit the peer has not returned and the credit on its way back are
together what the peer granted. -/
theorem credit_conserved {limit : Side → UInt32} {w : World}
    (hw : network.ReachableUnder (onNet (CreditSafe c limit)) w)
    (hinit : ∀ s, ((w.mux s).channelcredit c).initialized = true) (s : Side) :
    ((w.mux s).channelcredit c).clientByteCredit.toNat + dataBytes c (w.net.flight s) +
        (w.mux s.peer).unreleased c +
        ((w.mux s.peer).channelcredit c).replenishedByteCredit.toNat +
        creditBytes c (w.net.outgoing s.peer) =
      ((w.mux s.peer).channelcredit c).maxHostByteCredit.toNat := by
  have hshort (n b) (hsafe : CreditSafe c limit n b) : ShortPieces n b := by
    cases b with
    | call s op => exact hsafe.1
    | send s result | dispatch s decision => trivial
  have hinv := creditInv_of_reachable (net_reachable hshort hw).2
  have hbal := hinv.balanced s
  have hlimit : ((w.mux s.peer).channelcredit c).maxHostByteCredit = limit s.peer :=
    (hinv.ends s.peer).limited (.inr (hinit s.peer))
  have hwhole : (w.mux s.peer).unreleased c = (w.mux s.peer).tagged c :=
    (hinv.ends s.peer).whole.unreleased_eq
  rw [hlimit, hwhole]
  have hs : ((w.net.mux s).channelcredit c).initialized = true := hinit s
  rwa [Balanced, if_pos hs] at hbal

/-- Three bytes for channel 0 reach `.b`, whose interface reads up to
`count` of them. -/
def readRun (count : Nat) : List Action :=
  openRun 8 8 100 4 ++ [.call .a (.sendData 0 [1, 2, 3] false)] ++
    carry .a (.data ⟨0, 3, [1, 2, 3]⟩) .reject ++ [.call .b (.readData 0 count)]

/-- The interface of `.b` holds the three bytes that `.a` has paid for. -/
theorem credit_conserved_held : ∃ w : World,
    network.ReachableUnder (onNet (CreditSafe 0 fun _ => 100)) w ∧
      ((w.mux .a).channelcredit 0).clientByteCredit = 97 ∧ (w.mux .b).unreleased 0 = 3 ∧
      ((w.mux .a).channelcredit 0).clientByteCredit.toNat + dataBytes 0 (w.net.flight .a) +
          (w.mux .b).unreleased 0 +
          ((w.mux .b).channelcredit 0).replenishedByteCredit.toNat +
          creditBytes 0 (w.net.outgoing .b) =
        ((w.mux .b).channelcredit 0).maxHostByteCredit.toNat := by
  have hrun : ∃ w, network.ReachableUnder (onNet (CreditSafe 0 fun _ => 100)) w ∧
      (∀ s, ((w.mux s).channelcredit 0).initialized = true) ∧
      ((w.mux .a).channelcredit 0).clientByteCredit = 97 ∧ (w.mux .b).unreleased 0 = 3 := by
    apply exists_reachable .small 4 (readRun 3) (by decide)
    · decide +kernel
    · decide +kernel
  rcases hrun with ⟨w, hw, hinit, hclient, hheld⟩
  exact ⟨w, hw, hclient, hheld, credit_conserved hw hinit .a⟩

/-- The interface reads one byte and frees it: the credit of all three bytes is returned,
while two of them are still in the receive queue. -/
theorem credit_returned_early : ∃ w : World,
    network.Reachable w ∧ (∀ s, ((w.mux s).channelcredit 0).initialized = true) ∧
      ((w.mux .a).channelcredit 0).clientByteCredit.toNat + dataBytes 0 (w.net.flight .a) +
          (w.mux .b).unreleased 0 +
          ((w.mux .b).channelcredit 0).replenishedByteCredit.toNat +
          creditBytes 0 (w.net.outgoing .b) ≠
        ((w.mux .b).channelcredit 0).maxHostByteCredit.toNat := by
  apply exists_reachable .small 4
    (readRun 1 ++ [.call .b (.freeHeld 0), .call .b (.processReleased 0)]) (by decide)
  · decide +kernel
  · decide +kernel

end LteModemKernel.NetMux
