import LteModemKernel.NetMux.Network

/-!
# The credit of a channel

The peer of an end grants it credit: the number of bytes it may send on a channel.  The
receiver tags every buffer of received data, and the tag carries the credit from the
receive queue through the interface to `CommBuffReleased`, which returns it in credit
packets.

This module follows the credit of one channel through the operations of one end.

Main results:

- Theorem `Owned.change`: tags belong to the channel whose queue their buffer is in.
- Theorem `Change.credit`: what an operation does to the credit.
-/

namespace LteModemKernel.NetMux

open Lib Function List Mux ControlPacket

variable {c i : Nat} {m' m : Mux} {op : Op} {limit : UInt32} {ps : List ControlPacket}
  {x : Option Channel} {ch : Channel} {st : ChannelState}

/-! ## The places of the credit -/

/-- The data bytes that a tag stands for, if it is for channel `c`. -/
def Tag.bytesFor (c : Nat) (t : Tag) : Nat :=
  if t.channel = c then (t.size - UInt32.ofNat dataPacketHdrSize).toNat else 0

/-- The data bytes that some tags stand for. -/
def tagBytes (c : Nat) (tags : List Tag) : Nat :=
  (tags.map (Tag.bytesFor c)).sum

/-- The data bytes that the tags of some buffers stand for. -/
def bufferBytes (c : Nat) (buffers : List Commbuff) : Nat :=
  (buffers.map fun b => tagBytes c b.tag.toList).sum

/-- What the tags of the buffers of channel `c` stand for: those in its receive
queue, those an interface holds, and those released and not handled yet. -/
def Mux.tagged (m : Mux) (c : Nat) : Nat :=
  bufferBytes c (m.receiveQueueOf c) + bufferBytes c m.held + tagBytes c m.releasedTags

/-- The byte credit of a control packet for channel `c`. -/
def ControlPacket.creditFor (c : Nat) : ControlPacket → Nat
  | .credit _ channel bytecredit _ => if channel.toNat = c then bytecredit.toNat else 0
  | _ => 0

/-- The byte credit of a message for channel `c`. -/
def Message.creditFor (c : Nat) : Message → Nat
  | .data _ => 0
  | .control p => p.creditFor c

/-- The data bytes of a message for channel `c`. -/
def Message.dataBytes (c : Nat) : Message → Nat
  | .data d => if d.channel.toNat = c then d.payload.length else 0
  | .control _ => 0

@[simp] theorem tagBytes_nil : tagBytes c [] = 0 := rfl

@[simp]
theorem tagBytes_append (ts ts' : List Tag) :
    tagBytes c (ts ++ ts') = tagBytes c ts + tagBytes c ts' := by
  simp [tagBytes]

@[simp]
theorem tagBytes_singleton (t : Tag) : tagBytes c [t] = t.bytesFor c := by
  simp [tagBytes]

@[simp] theorem bufferBytes_nil : bufferBytes c [] = 0 := rfl

@[simp]
theorem bufferBytes_cons (b : Commbuff) (bs : List Commbuff) :
    bufferBytes c (b :: bs) = tagBytes c b.tag.toList + bufferBytes c bs := by
  simp [bufferBytes]

@[simp]
theorem bufferBytes_append (bs bs' : List Commbuff) :
    bufferBytes c (bs ++ bs') = bufferBytes c bs + bufferBytes c bs' := by
  simp [bufferBytes]

/-- Freeing a queue releases the tags of its buffers. -/
theorem tagBytes_queueTags (bs : List Commbuff) :
    tagBytes c (queueTags bs) = bufferBytes c bs := by
  induction bs with
  | nil => rfl
  | cons b bs ih =>
    rw [bufferBytes_cons, ← ih]
    cases b with
    | mk data tag =>
      cases tag with
      | none => simp [queueTags]
      | some t => simp [queueTags, Nat.add_comm]

theorem sum_map_eraseIdx {α : Type} (f : α → Nat) {l : List α} {x : α} (h : l[i]? = some x) :
    f x + ((l.eraseIdx i).map f).sum = (l.map f).sum := by
  rcases List.getElem?_eq_some_iff.mp h with ⟨hi, rfl⟩
  exact ((getElem_cons_eraseIdx_perm hi).map f).sum_eq

/-! ## Tags belong to channels -/

/-- The tags of the buffers in a receive queue are for its channel. -/
def Owned (m : Mux) : Prop :=
  ∀ i ch, m.channels i = some ch → ∀ b ∈ ch.receiveQueue, ∀ t, b.tag = some t → t.channel = i

/-- The buffers of another channel stand for no bytes of channel `c`. -/
theorem Owned.bufferBytes_of_ne (h : Owned m) (hch : m.channels i = some ch) (hi : c ≠ i) :
    bufferBytes c ch.receiveQueue = 0 := by
  have hall (b) (hb : b ∈ ch.receiveQueue) : tagBytes c b.tag.toList = 0 := by
    cases htag : b.tag with
    | none => rfl
    | some t =>
      have howner := h i ch hch b hb t htag
      rw [Option.toList_some, tagBytes_singleton, Tag.bytesFor, howner, if_neg (Ne.symm hi)]
  exact sum_eq_zero (forall_mem_map.mpr hall)

/-- An operation tags received buffers with their channel. -/
theorem Owned.change (h : Owned m) (hchange : Change m op m') : Owned m' := by
  intro i ch' hch' b hb t ht
  cases hchange.channelEffect hch' with
  | created _ _ _ heq =>
    subst heq
    cases hb
  | kept hch _ => exact h i ch' hch b hb t ht
  | opened hch _ _ heq | moved hch _ _ heq | purged hch _ _ heq | appended hch _ _ heq =>
    subst heq
    exact h i _ hch b hb t ht
  | received hch _ _ heq =>
    subst heq
    rcases mem_append.mp hb with hmem | hnew
    · exact h i _ hch b hmem t ht
    · rw [mem_singleton.mp hnew] at ht
      cases ht
      rfl
  | taken hch _ hqueue heq =>
    subst heq
    rcases hqueue b hb with hmem | ⟨hnone, -⟩
    · exact h i _ hch b hmem t ht
    · cases hnone.symm.trans ht

/-! ## Where tags go -/

theorem Mux.tagged_update (howned : Owned m) (taken : List Commbuff) (freed : List Tag)
    (hch : m.channels i = some ch) (hchannels : m'.channels = update m.channels i x)
    (hheld : m'.held = m.held ++ taken) (hreleased : m'.releasedTags = freed ++ m.releasedTags)
    (hmoved : bufferBytes c ch.receiveQueue =
      bufferBytes c ((x.map Channel.receiveQueue).getD []) + bufferBytes c taken +
        tagBytes c freed) : m'.tagged c = m.tagged c := by
  rw [tagged, tagged, hheld, hreleased, bufferBytes_append, tagBytes_append]
  by_cases hi : c = i
  · subst hi
    rw [receiveQueueOf_of_some hch, receiveQueueOf, hchannels, update_self]
    omega
  · have hzero := howned.bufferBytes_of_ne hch hi
    rw [receiveQueueOf, receiveQueueOf, hchannels, update_of_ne hi]
    omega

/-- One channel object is stored that has the buffers it had. -/
theorem Mux.tagged_keep (hch : m.channels i = x) {ch' : Channel}
    (hchannels : m'.channels = update m.channels i (some ch')) (hheld : m'.held = m.held)
    (hreleased : m'.releasedTags = m.releasedTags)
    (hqueue : ch'.receiveQueue = (x.map Channel.receiveQueue).getD []) :
    m'.tagged c = m.tagged c := by
  rw [tagged, tagged, hheld, hreleased, receiveQueueOf, receiveQueueOf, hchannels]
  by_cases hi : c = i
  · rw [hi, update_self, hch, ← hqueue]
    rfl
  · rw [update_of_ne hi]

/-! ## The operations -/

/-- The data bytes that an operation receives on channel `c`. -/
def Op.arrivalBytes (c : Nat) : Op → Nat
  | .receiveData d => if d.channel.toNat = c then d.payload.length else 0
  | _ => 0

/-- The byte credit that an operation adds on channel `c`. -/
def Op.creditFor (c : Nat) : Op → UInt32
  | .adjustCredit (.clientEnd .command) i bytecredit _ => if i = c then bytecredit else 0
  | _ => 0

/-- The byte credit that an operation grants to a new channel `c`. -/
def Op.grant (c : Nat) : Op → Option UInt32
  | .enableChannel (.hostEnd .success) i _ _ _ _ _ _ cb _ => if i = c then some cb else none
  | .enableChannel (.clientEnd .command) i _ _ _ _ _ _ cb _ => if i = c then some cb else none
  | _ => none

/-- The operations that the two ends perform on each other's behalf or that an interface
calls; the others are internal. -/
def Op.regular : Op → Bool
  | .disableMux _ => false
  | .transmit _ => false
  | .adjustCredit (.hostEnd .command) .. => false
  | _ => true

/-- The credit of a channel that is set to new values has nothing to replenish. -/
def NothingToReplenish (c : Nat) (m : Mux) : Prop :=
  (m.channelcredit c).initialized = false → (m.channelcredit c).replenishedByteCredit = 0

/-- The condition on the operations for channel `c` at an end that grants
`limit` bytes: every open grants this, new values replace no credit, data arrives
only while the channel exists, and no read splits a buffer. -/
def CreditOp (c : Nat) (limit : UInt32) (m : Mux) : Op → Prop
  | .enableChannel (.hostEnd .command) i _ _ _ _ hb .. =>
    i = c → m.channels c = none → hb = limit
  | .enableChannel (.hostEnd .success) i .. =>
    i = c → (∀ ch ∈ m.channels c, ch.state = .opening → NothingToReplenish c m)
  | .enableChannel (.clientEnd .command) i _ _ _ _ hb .. =>
    i = c → m.channels c = none → hb = limit ∧ NothingToReplenish c m
  | .receiveData d => d.channel.toNat = c → m.channels c ≠ none
  | .readData i count => i = c → ∀ b ∈ (m.receiveQueueOf c).head?, b.data.length ≤ count
  | _ => True

/-- A control packet of an end that grants `limit` bytes: its opens grant this, and
it does not disable the peer. -/
def PacketOk (c : Nat) (limit : UInt32) : ControlPacket → Prop
  | .disableMux _ => False
  | .enableChannel (.clientEnd .command) channel _ _ bytecredit _ =>
    channel.toNat = c → bytecredit = limit
  | .enableChannel (.hostEnd .success) channel _ _ bytecredit _ =>
    channel.toNat = c → bytecredit = limit
  | _ => True

/-- A channel that exists or once existed has the limit of its end. -/
def Limited (c : Nat) (limit : UInt32) (m : Mux) : Prop :=
  (m.channels c ≠ none ∨ (m.channelcredit c).initialized = true) →
    (m.channelcredit c).maxHostByteCredit = limit

/-- What an operation does to the credit of channel `c`, with the packets it
queues. -/
structure CreditEffect (c : Nat) (limit : UInt32) (m : Mux) (op : Op) (m' : Mux)
    (ps : List ControlPacket) : Prop where
  queue : m'.sendQueue = m.sendQueue ++ ps
  packets : ∀ p ∈ ps, PacketOk c limit p
  granted : m'.tagged c + (m'.channelcredit c).replenishedByteCredit.toNat +
      (ps.map (ControlPacket.creditFor c)).sum =
    m.tagged c + (m.channelcredit c).replenishedByteCredit.toNat + op.arrivalBytes c
  client :
    ((m'.channelcredit c).initialized = (m.channelcredit c).initialized ∧
      (m'.channelcredit c).clientByteCredit =
        (m.channelcredit c).clientByteCredit + op.creditFor c) ∨
    ((m.channelcredit c).initialized = false ∧ (m'.channelcredit c).initialized = true ∧
      op.grant c = some (m'.channelcredit c).clientByteCredit)
  limited : Limited c limit m'

open CreditEffect

/-- An operation that moves credit of an open channel. -/
theorem CreditEffect.updated {credit : ChannelCredit} (hlimited : Limited c limit m)
    (hcredit : m'.channelcredit c = credit)
    (hsame : credit.initialized = (m.channelcredit c).initialized ∧
      credit.maxHostByteCredit = (m.channelcredit c).maxHostByteCredit ∧
      credit.clientByteCredit = (m.channelcredit c).clientByteCredit + op.creditFor c)
    (hexists : m'.channels c ≠ none → m.channels c ≠ none)
    (hqueue : m'.sendQueue = m.sendQueue ++ ps) (hpackets : ∀ p ∈ ps, PacketOk c limit p)
    (hgranted : m'.tagged c + credit.replenishedByteCredit.toNat + (ps.map (creditFor c)).sum =
      m.tagged c + (m.channelcredit c).replenishedByteCredit.toNat + op.arrivalBytes c) :
    CreditEffect c limit m op m' ps := by
  subst hcredit
  rcases hsame with ⟨hinit, hmax, hclient⟩
  refine ⟨hqueue, hpackets, hgranted, .inl ⟨hinit, hclient⟩, fun hlive => ?_⟩
  exact hmax.trans (hlimited (hlive.imp hexists hinit.symm.trans))

/-- An operation that leaves the credit alone and queues packets without credit. -/
theorem CreditEffect.keep (hlimited : Limited c limit m)
    (hcredit : m'.channelcredit c = m.channelcredit c) (hqueue : m'.sendQueue = m.sendQueue ++ ps)
    (hps : ∀ p ∈ ps, PacketOk c limit p ∧ p.creditFor c = 0)
    (htagged : m'.tagged c = m.tagged c + op.arrivalBytes c) (hadded : op.creditFor c = 0)
    (hexists : m'.channels c ≠ none → m.channels c ≠ none) : CreditEffect c limit m op m' ps := by
  refine updated hlimited hcredit ⟨rfl, rfl, ?_⟩ hexists hqueue (fun p hp => (hps p hp).1) ?_
  · simp [hadded]
  · rw [sum_eq_zero (forall_mem_map.mpr fun p hp => (hps p hp).2), htagged]
    omega

/-- An operation that leaves the credit alone and queues nothing. -/
theorem CreditEffect.silent (hlimited : Limited c limit m)
    (hcredit : m'.channelcredit c = m.channelcredit c) (hqueue : m'.sendQueue = m.sendQueue)
    (htagged : m'.tagged c = m.tagged c + op.arrivalBytes c) (hadded : op.creditFor c = 0)
    (hexists : m'.channels c ≠ none → m.channels c ≠ none) :
    ∃ ps, CreditEffect c limit m op m' ps :=
  ⟨[], keep hlimited hcredit (hqueue.trans (append_nil _).symm) nofun htagged hadded hexists⟩

theorem Queues.creditKept {p : ControlPacket} (h : Queues m op p) (hregular : op.regular = true)
    (limit : UInt32) :
    (PacketOk c limit p ∧ p.creditFor c = 0) ∧ op.arrivalBytes c = 0 ∧ op.creditFor c = 0 := by
  cases h with
  | credit | transmit => cases hregular
  | _ => exact ⟨⟨trivial, rfl⟩, rfl, rfl⟩

theorem MayStutter.creditKept (h : MayStutter m op) (hop : CreditOp c limit m op) :
    op.arrivalBytes c = 0 ∧ op.creditFor c = 0 := by
  cases op with
  | receiveData d =>
    constructor
    · apply if_neg
      rintro rfl
      exact hop rfl h
    · rfl
  | adjustCredit a i b s =>
    constructor
    · rfl
    · cases a with
      | hostEnd kind => rfl
      | clientEnd kind =>
        cases kind with
        | command => exact absurd h id
        | success | failure => rfl
  | _ => exact ⟨rfl, rfl⟩

theorem Moves.creditKept {hi ci : UInt8} {a : AckType} {st' : ChannelState}
    (h : Moves i hi ci a st st' ps) (c : Nat) (limit : UInt32) :
    ∀ p ∈ ps, PacketOk c limit p ∧ p.creditFor c = 0 := by
  cases h <;> simp [PacketOk, creditFor]

theorem Closes.creditKept (h : Closes i op st ps) (c : Nat) (limit : UInt32) :
    (∀ p ∈ ps, PacketOk c limit p ∧ p.creditFor c = 0) ∧ op.arrivalBytes c = 0 ∧
      op.creditFor c = 0 := by
  cases h <;> simp [PacketOk, creditFor, Op.arrivalBytes, Op.creditFor]

theorem channels_of_update (hch : m.channels i = some ch)
    (hchannels : m'.channels = update m.channels i x) :
    m'.channels c ≠ none → m.channels c ≠ none := by
  intro hne
  rw [hchannels] at hne
  by_cases hi : c = i
  · rw [hi, hch]
    simp
  · rwa [update_of_ne hi] at hne

theorem bytesFor_received {d : DataPacket} (hwf : d.WellFormed) :
    Tag.bytesFor c ⟨d.channel.toNat, UInt32.ofNat d.size⟩ = (Op.receiveData d).arrivalBytes c := by
  have hlen : d.payload.length < 2 ^ 16 := by
    rw [← hwf]
    exact d.len.toNat_lt
  have hsize : (UInt32.ofNat d.size - UInt32.ofNat dataPacketHdrSize).toNat = d.payload.length := by
    rw [dataLength_eq, UInt32.toNat_ofNat']
    omega
  simp [Tag.bytesFor, Op.arrivalBytes, hsize]

/-- An open stores the credit of its channel. -/
theorem CreditEffect.opened {credit : ChannelCredit} (hlimited : Limited c limit m)
    (hcredit : m'.channelcredit = update m.channelcredit i credit)
    (hchannels : m'.channels = update m.channels i x) (hqueue : m'.sendQueue = m.sendQueue ++ ps)
    (hps : ∀ p ∈ ps, PacketOk c limit p ∧ p.creditFor c = 0) (htagged : m'.tagged c = m.tagged c)
    (hop : op.arrivalBytes c = 0 ∧ op.creditFor c = 0) (hself : c = i →
      credit.replenishedByteCredit = (m.channelcredit c).replenishedByteCredit ∧
      ((credit.initialized = (m.channelcredit c).initialized ∧
          credit.clientByteCredit = (m.channelcredit c).clientByteCredit) ∨
        ((m.channelcredit c).initialized = false ∧ credit.initialized = true ∧
          op.grant c = some credit.clientByteCredit)) ∧
      credit.maxHostByteCredit = limit) : CreditEffect c limit m op m' ps := by
  by_cases hi : c = i
  · rcases hself hi with ⟨hrepl, hclient, hmax⟩
    have hcredit' : m'.channelcredit c = credit := by rw [hcredit, hi, update_self]
    refine ⟨hqueue, fun p hp => (hps p hp).1, ?_, ?_, ?_⟩
    · rw [sum_eq_zero (forall_mem_map.mpr fun p hp => (hps p hp).2), htagged, hcredit', hrepl,
        hop.1]
    · rw [hcredit', hop.2]
      simpa using hclient
    · intro _
      rw [hcredit']
      exact hmax
  · apply keep hlimited
    · rw [hcredit, update_of_ne hi]
    · exact hqueue
    · exact hps
    · rw [htagged, hop.1, Nat.add_zero]
    · exact hop.2
    · rw [hchannels, update_of_ne hi]
      exact id

/-- A released buffer of channel `c`: its bytes move to the credit to replenish, and
from there to a packet. -/
theorem CreditEffect.released {index : Nat} {tag : Tag} (hlimited : Limited c limit m)
    (hbyte : m.config.maxchannels ≤ 256)
    (hbound : m.tagged c + (m.channelcredit c).replenishedByteCredit.toNat < 2 ^ 32)
    (htag : m.releasedTags[index]? = some tag)
    (hm' : { m with releasedTags := m.releasedTags.eraseIdx index }.commBuffReleased tag =
      some m') : ∃ ps, CreditEffect c limit m (.processReleased index) m' ps := by
  have herase : tag.bytesFor c + tagBytes c (m.releasedTags.eraseIdx index) =
      tagBytes c m.releasedTags := sum_map_eraseIdx _ htag
  rcases commBuffReleased_cases hm' with ⟨hlt, sendCredit, hcases⟩
  have hchannel : (UInt8.ofNat tag.channel).toNat = tag.channel := by
    exact Nat.mod_eq_of_lt (Nat.lt_of_lt_of_le hlt hbyte)
  by_cases hc : tag.channel = c
  · -- the sum of what was to be replenished and the released bytes does not overflow
    subst hc
    have hbytes : tag.bytesFor tag.channel =
        (tag.size - .ofNat dataPacketHdrSize).toNat := if_pos rfl
    have hsum : ((m.channelcredit tag.channel).replenishedByteCredit +
        (tag.size - .ofNat dataPacketHdrSize)).toNat =
        (m.channelcredit tag.channel).replenishedByteCredit.toNat + tag.bytesFor tag.channel := by
      rw [UInt32.toNat_add, hbytes]
      apply Nat.mod_eq_of_lt
      rw [tagged] at hbound
      omega
    rcases hcases with rfl | rfl
    · refine ⟨[], updated hlimited (update_self ..) ⟨rfl, rfl, (UInt32.add_zero _).symm⟩ id
        (append_nil _).symm nofun ?_⟩
      rw [replenished, hsum, tagged, tagged]
      simp only [setCredit, receiveQueueOf, Op.arrivalBytes, map_nil, sum_nil]
      omega
    · refine ⟨_, updated hlimited (update_self ..) ⟨rfl, rfl, (UInt32.add_zero _).symm⟩ id rfl
        (by simp [PacketOk]) ?_⟩
      rw [replenished, tagged, tagged]
      simp only [setCredit, transmit, receiveQueueOf, Op.arrivalBytes, map_cons, map_nil, sum_cons,
        sum_nil, creditFor, hchannel, if_true, hsum, UInt32.toNat_zero]
      omega
  · have hbytes : tag.bytesFor c = 0 := if_neg hc
    have htagged (k : Mux) (hchannels : k.channels = m.channels) (hheld : k.held = m.held)
        (hreleased : k.releasedTags = m.releasedTags.eraseIdx index) : k.tagged c = m.tagged c := by
      rw [tagged, tagged, receiveQueueOf, receiveQueueOf, hchannels, hheld, hreleased]
      omega
    rcases hcases with rfl | rfl
    · refine silent hlimited ?_ rfl (htagged _ rfl rfl rfl) rfl id
      rw [setCredit_channelcredit, update_of_ne (Ne.symm hc)]
    · refine ⟨_, keep hlimited ?_ rfl ?_ ?_ rfl id⟩
      · rw [setCredit_channelcredit, update_of_ne (Ne.symm hc)]
        rfl
      · simp [PacketOk, creditFor, hchannel, hc]
      · exact htagged _ rfl rfl rfl

/-- What an operation does to the credit of channel `c`. -/
theorem Change.credit (h : Change m op m') (hregular : op.regular = true)
    (hop : CreditOp c limit m op) (hwf : ∀ d, op = .receiveData d → d.WellFormed) (howned : Owned m)
    (hlimited : Limited c limit m) (hbyte : m.config.maxchannels ≤ 256)
    (hbound : m.tagged c + (m.channelcredit c).replenishedByteCredit.toNat < 2 ^ 32) :
    ∃ ps, CreditEffect c limit m op m' ps := by
  have hchannel {i : Nat} (hi : i < m.config.maxchannels) : (UInt8.ofNat i).toNat = i := by
    exact Nat.mod_eq_of_lt (Nat.lt_of_lt_of_le hi hbyte)
  cases h with
  | stutter hstutter =>
    rcases hstutter.creditKept hop with ⟨harr, hadded⟩
    exact silent hlimited rfl rfl (by rw [harr, Nat.add_zero]) hadded id
  | status st => exact silent hlimited rfl rfl rfl rfl id
  | @queued _ p st hqueues =>
    rcases hqueues.creditKept hregular limit with ⟨hp, harr, hadded⟩
    refine ⟨[p], .keep hlimited rfl rfl ?_ ?_ hadded id⟩
    · simpa using hp
    · rw [harr]
      rfl
  | muxDisabledHost _ | muxDisabledClient _ => cases hregular
  | @creditAdded i b sc hi =>
    by_cases hc : c = i
    · subst hc
      refine ⟨[], updated hlimited (update_self ..) ⟨rfl, rfl, ?_⟩ id (append_nil _).symm nofun rfl⟩
      simp [Op.creditFor]
    · refine silent hlimited ?_ rfl rfl (if_neg (Ne.symm hc)) id
      rw [setCredit_channelcredit, update_of_ne hc]
  | @localOpen i burst maxData hb hs cb cs hi ci hlt hch =>
    refine ⟨_, opened hlimited rfl rfl rfl ?_ (tagged_keep hch rfl rfl rfl rfl) ⟨rfl, rfl⟩ ?_⟩
    · simp only [mem_singleton, forall_eq, PacketOk, creditFor, and_true, hchannel hlt]
      rintro rfl
      exact hop rfl hch
    · rintro rfl
      unfold openCredit
      split
      · next hinit => exact ⟨rfl, .inl ⟨rfl, rfl⟩, hlimited (.inr hinit)⟩
      · exact ⟨rfl, .inl ⟨rfl, rfl⟩, hop rfl hch⟩
  | @openSuccess i burst maxData hb hs cb cs hi ci ch hlt hch hst =>
    refine ⟨[], opened hlimited rfl rfl (append_nil _).symm nofun
      (tagged_keep hch rfl rfl rfl rfl) ⟨rfl, rfl⟩ ?_⟩
    rintro rfl
    have hlimit : (m.channelcredit c).maxHostByteCredit = limit :=
      hlimited (.inl (by rw [hch]; simp))
    unfold responseCredit
    split
    · exact ⟨rfl, .inl ⟨rfl, rfl⟩, hlimit⟩
    · next hinit =>
      have hinit := eq_false_of_ne_true hinit
      have hzero := hop rfl ch hch hst hinit
      exact ⟨hzero.symm, .inr ⟨hinit, rfl, if_pos rfl⟩, hlimit⟩
  | @remoteOpen i burst maxData hb hs cb cs hi ci hlt hch =>
    refine ⟨_, opened hlimited rfl rfl rfl ?_ (tagged_keep hch rfl rfl rfl rfl) ⟨rfl, rfl⟩ ?_⟩
    · simp only [mem_singleton, forall_eq, PacketOk, creditFor, and_true, hchannel hlt]
      rintro rfl
      exact (hop rfl hch).1
    · rintro rfl
      unfold acceptCredit
      split
      · next hinit => exact ⟨rfl, .inl ⟨rfl, rfl⟩, hlimited (.inr hinit)⟩
      · next hinit =>
        have hinit := eq_false_of_ne_true hinit
        have hzero := (hop rfl hch).2 hinit
        exact ⟨hzero.symm, .inr ⟨hinit, rfl, if_pos rfl⟩, (hop rfl hch).1⟩
  | @moved ack i hi ci ch st ps hlt hch hmove =>
    rw [transmitAll_eq]
    exact ⟨ps, .keep hlimited rfl rfl (hmove.creditKept c limit)
      (tagged_keep hch rfl rfl rfl rfl) rfl (channels_of_update hch rfl)⟩
  | @closed _ i ch ps hlt hch hclose =>
    rcases hclose.creditKept c limit with ⟨hps, harr, hadded⟩
    rw [transmitAll_eq]
    refine ⟨ps, .keep hlimited rfl rfl hps ?_ hadded (channels_of_update hch rfl)⟩
    rw [harr, Nat.add_zero]
    exact tagged_update howned [] (queueTags ch.receiveQueue) hch rfl (append_nil _).symm rfl
      (by simp [tagBytes_queueTags])
  | purged hlt hch hst =>
    exact silent hlimited rfl rfl (tagged_keep hch rfl rfl rfl rfl) rfl (channels_of_update hch rfl)
  | dataQueued hlt hpiece =>
    rcases sendPiece_ok hpiece with ⟨hch, hst, -⟩
    rw [queuePiece_eq hst]
    exact silent hlimited rfl rfl (tagged_keep hch rfl rfl rfl rfl) rfl (channels_of_update hch rfl)
  | @dataReceived d ch hlt hch =>
    refine silent hlimited rfl rfl ?_ rfl (channels_of_update hch rfl)
    rw [← bytesFor_received (hwf d rfl), tagged, tagged]
    by_cases hc : c = d.channel.toNat
    · subst hc
      rw [receiveQueueOf_of_some hch, receiveQueueOf, setChannel_channels, update_self]
      simp [setChannel]
      omega
    · rw [receiveQueueOf, receiveQueueOf, setChannel_channels,
        update_of_ne hc, Tag.bytesFor, if_neg (Ne.symm hc)]
      rfl
  | @dataRead i count ch buffer rest hch hqueue hcount
  | @dataForwarded i ch buffer rest hch hqueue =>
    exact silent hlimited rfl rfl (tagged_update howned [buffer] [] hch rfl rfl rfl
      (by simp [hqueue, Nat.add_comm])) rfl (channels_of_update hch rfl)
  | @dataSplit i count ch buffer rest hch hqueue hcount =>
    exact silent hlimited rfl rfl
      (tagged_update howned [{ buffer with data := buffer.data.take count }] [] hch rfl rfl rfl
        (by simp [hqueue, Nat.add_comm])) rfl (channels_of_update hch rfl)
  | @dataDiscarded i taken ch buffer rest hch hqueue =>
    exact silent hlimited rfl rfl (tagged_update howned [] buffer.tag.toList hch rfl
      (append_nil _).symm rfl (by simp [hqueue, Nat.add_comm])) rfl (channels_of_update hch rfl)
  | @bufferFreed index buffer hheld =>
    refine silent hlimited rfl rfl ?_ rfl id
    have herase : tagBytes c buffer.tag.toList + bufferBytes c (m.held.eraseIdx index) =
        bufferBytes c m.held :=
      sum_map_eraseIdx (fun b : Commbuff => tagBytes c b.tag.toList) hheld
    simp only [tagged, receiveQueueOf, tagBytes_append, Op.arrivalBytes]
    omega
  | released htag hm' => exact CreditEffect.released hlimited hbyte hbound htag hm'

end LteModemKernel.NetMux
