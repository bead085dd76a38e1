import LteModemKernel.NetMux.Accounting

/-!
# Termination of the send loop

`ProcessSendQueues` leaves its loop when the total of the queued bytes is not larger
than the amount of the channels that it found unable to send.  So its termination rests on
the accounting: after a pass that found nothing the two amounts are equal.

The loop ends in every state of a run in which the counters follow the queues and nothing
is sent on the last channel.  The first condition is that of the accounting.  The second
one is needed since the scan position is not wrapped after a buffer of the last channel:
the next pass starts behind the array.

Main results:

- Theorem `Mux.scan_spec`: a pass ends, and adds up the bytes of the channels that cannot send.
- Theorem `sender_terminates`: the number of rounds of a call is bounded by the queues
  it starts with, while other threads add nothing.
- Theorem `sender_loops`: a run after which the loop goes round without end.
-/

namespace LteModemKernel.NetMux

open Lib Function List Option UInt32 Finset Mux Nat TransitionSystem

variable {m m' : Mux} {ch : Channel} {op : Op} {c start n : Nat} {s : ChannelState}
  {x : Option Channel} {front : DataPacket}

/-! ## The pass through the channels -/

/-- The send queue of a channel, empty if it is closed. -/
def Mux.sendQueueOf (m : Mux) (c : Nat) : List DataPacket :=
  ((m.channels c).map Channel.sendQueue).getD []

theorem Mux.sendQueueOf_of_some (h : m.channels c = some ch) : m.sendQueueOf c = ch.sendQueue := by
  rw [sendQueueOf, h]
  rfl

theorem channelBytes_eq (m : Mux) (c : Nat) :
    channelBytes (m.channels c) = queueBytes (m.sendQueueOf c) := by
  cases hch : m.channels c with
  | none | some ch => simp [channelBytes, sendQueueOf, hch]

/-- The channels that a pass from `chanlNum` to `start` visits, with wrap-around at
`n`. -/
def passSpan (n start chanlNum : Nat) : Finset Nat :=
  if chanlNum < start then Finset.Ico chanlNum start
  else Finset.Ico chanlNum n ∪ range start

section Span

theorem mem_passSpan {i : Nat} : i ∈ passSpan n start c ↔
    if c < start then c ≤ i ∧ i < start else (c ≤ i ∧ i < n) ∨ i < start := by
  unfold passSpan
  split_ifs <;> simp

theorem self_mem_passSpan (hc : c < n) : c ∈ passSpan n start c := by
  rw [mem_passSpan]
  split_ifs <;> omega

theorem passSpan_self (hstart : start < n) : passSpan n start start = Finset.range n := by
  ext i
  rw [mem_passSpan, if_neg (lt_irrefl _), Finset.mem_range]
  omega

theorem passSpan_subset (hstart : start < n) : passSpan n start c ⊆ Finset.range n := by
  intro i hi
  rw [mem_passSpan] at hi
  rw [Finset.mem_range]
  split_ifs at hi <;> omega

theorem passSpan_card_le (hstart : start < n) : (passSpan n start c).card ≤ n :=
  (card_le_card (passSpan_subset hstart)).trans_eq (card_range n)

end Span

/-- The channels of a MUX whose state and queue agree: a channel is sending or flushing if and
only if it has data queued, and no piece of data is empty. -/
structure ChannelOrderly (ch : Channel) : Prop where
  payload : ∀ d ∈ ch.sendQueue, d.payload ≠ []
  sending : ch.state = .sending ∨ ch.state = .flushing ↔ ch.sendQueue ≠ []

namespace Mux

theorem passSpan_last (hstart : start < m.config.maxchannels) (hnext : m.nextChannel c = start) :
    passSpan m.config.maxchannels start c = {c} := by
  ext i
  rw [mem_passSpan, Finset.mem_singleton]
  simp only [nextChannel] at hnext
  split_ifs at hnext ⊢ <;> omega

theorem passSpan_next (hc : c < m.config.maxchannels) (hstart : start < m.config.maxchannels)
    (hnext : m.nextChannel c ≠ start) :
    m.nextChannel c < m.config.maxchannels ∧
      c ∉ passSpan m.config.maxchannels start (m.nextChannel c) ∧
      passSpan m.config.maxchannels start c =
        insert c (passSpan m.config.maxchannels start (m.nextChannel c)) := by
  refine ⟨?_, ?_, ?_⟩
  · simp only [nextChannel]
    split_ifs <;> omega
  · rw [mem_passSpan]
    simp only [nextChannel] at hnext ⊢
    split_ifs at hnext ⊢ <;> omega
  · ext i
    rw [mem_insert, mem_passSpan, mem_passSpan]
    simp only [nextChannel] at hnext ⊢
    split_ifs at hnext ⊢ <;> omega

/-- A channel is sending or flushing, and its front buffer fits. -/
def CanSend (m : Mux) (c : Nat) : Prop :=
  ∃ ch front rest, m.channels c = some ch ∧ (ch.state = .sending ∨ ch.state = .flushing) ∧
    ch.sendQueue = front :: rest ∧ m.fits c front

/-- What a pass has found out: the channels it has passed cannot send, and it has added up their
bytes.  If it finds nothing it is back at its start and has passed them all. -/
structure Passed (m : Mux) (span passed : Finset Nat) (start : Nat) (amount : UInt32)
    (r : ScanResult) : Prop where
  subset : passed ⊆ span
  cannot : ∀ i ∈ passed, ¬m.CanSend i
  nothing : ∀ n a, r = .nothing n a → n = start ∧ passed = span ∧
    a = amount + ofNat (∑ i ∈ passed, queueBytes (m.sendQueueOf i))
  found : ∀ n ch front rest a, r = .found n ch front rest a → n ∈ span ∧ n ∉ passed ∧
    a = amount + ofNat (∑ i ∈ passed, queueBytes (m.sendQueueOf i))

/-- A pass ends. -/
theorem scan_spec
    (hchannel : ∀ c ch, m.channels c = some ch → ChannelAccounted ch ∧ ChannelOrderly ch)
    {fuel : Nat} (amount : UInt32) (hstart : start < m.config.maxchannels)
    (hc : c < m.config.maxchannels) (hfuel : (passSpan m.config.maxchannels start c).card ≤ fuel) :
    ∃ r passed, m.scan start fuel c amount = some r ∧
      m.Passed (passSpan m.config.maxchannels start c) passed start amount r := by
  have hmem : c ∈ passSpan m.config.maxchannels start c := self_mem_passSpan hc
  induction fuel generalizing c amount with
  | zero => exact absurd hmem (by rw [card_eq_zero.mp (le_zero.mp hfuel)]; simp)
  | succ fuel ih =>
    by_cases hsend : m.CanSend c
    · rcases hsend with ⟨ch, front, rest, hch, hst, hqueue, hfits⟩
      refine ⟨.found c ch front rest amount, ∅, ?_, empty_subset _, ?_, by simp, ?_⟩
      · simp [scan, hc, hch, hst, hqueue, hfits]
      · exact fun _ hi => absurd hi (notMem_empty _)
      · rintro _ _ _ _ _ ⟨⟩
        exact ⟨hmem, notMem_empty _, by simp⟩
    -- what is added for this channel, and the rest of the pass
    have hgo : ∀ b, b = amount + .ofNat (queueBytes (m.sendQueueOf c)) →
        ∃ r passed, (if m.nextChannel c = start then some (.nothing (m.nextChannel c) b)
          else m.scan start fuel (m.nextChannel c) b) = some r ∧
        m.Passed (passSpan m.config.maxchannels start c) passed start amount r := by
      intro b hb
      by_cases hnext : m.nextChannel c = start
      · rw [if_pos hnext, passSpan_last hstart hnext]
        refine ⟨_, {c}, rfl, Subset.rfl, ?_, ?_, by simp⟩
        · intro i hi
          rwa [Finset.mem_singleton.mp hi]
        · rintro n a ⟨⟩
          exact ⟨hnext, rfl, by rw [Finset.sum_singleton, hb]⟩
      · rcases passSpan_next hc hstart hnext with ⟨hlt, hnot, hspan⟩
        rw [hspan, card_insert_of_notMem hnot] at hfuel
        rcases ih b hlt (le_of_succ_le_succ hfuel) (self_mem_passSpan hlt) with
          ⟨r, passed, hr, hpassed⟩
        have hnotPassed : c ∉ passed := fun hmem => hnot (hpassed.subset hmem)
        have hsum : b + .ofNat (∑ i ∈ passed, queueBytes (m.sendQueueOf i)) =
            amount + .ofNat (∑ i ∈ insert c passed, queueBytes (m.sendQueueOf i)) := by
          rw [hb, sum_insert hnotPassed, ofNat_add, add_assoc]
        rw [if_neg hnext, hspan]
        refine ⟨r, insert c passed, hr, insert_subset_insert c hpassed.subset, ?_, ?_, ?_⟩
        · exact (forall_mem_insert _ _ _).mpr ⟨hsend, hpassed.cannot⟩
        · intro n a heq
          obtain ⟨hn, hall, ha⟩ := hpassed.nothing n a heq
          exact ⟨hn, by rw [hall], ha.trans hsum⟩
        · intro n ch front rest a heq
          obtain ⟨hin, hout, ha⟩ := hpassed.found n ch front rest a heq
          have hne : n ≠ c := fun hn => hnot (hn ▸ hin)
          exact ⟨mem_insert_of_mem hin, fun hmem => (mem_insert.mp hmem).elim hne hout,
            ha.trans hsum⟩
    simp only [scan, hc, if_true]
    cases hch : m.channels c with
    | none =>
      refine hgo _ ?_
      rw [sendQueueOf, hch]
      simp
    | some ch =>
      rcases hchannel c ch hch with ⟨hacc, horderly⟩
      simp only
      by_cases hst : ch.state ∈ [ChannelState.sending, .flushing]
      · rw [if_pos hst]
        have hne := horderly.sending.mp (by simpa using hst)
        cases hqueue : ch.sendQueue with
        | nil => exact absurd hqueue hne
        | cons front rest =>
          simp only
          rw [if_neg fun hfits => hsend ⟨ch, front, rest, hch, by simpa using hst, hqueue, hfits⟩]
          refine hgo _ ?_
          rw [sendQueueOf_of_some hch, hacc.totl]
      · rw [if_neg hst]
        refine hgo _ ?_
        have hempty : ch.sendQueue = [] := by
          by_contra hne
          exact hst (by simpa using horderly.sending.mpr hne)
        rw [sendQueueOf_of_some hch, hempty]
        simp

end Mux

/-! ## The invariant -/

/-- The counters follow the queues, the states of the channels agree with them, nothing is
queued on the last channel, and the scan positions are channel numbers. -/
structure Orderly (m : Mux) : Prop where
  accounted : Accounted m
  channel : ∀ c ch, m.channels c = some ch → ChannelOrderly ch
  last : ∀ c, c + 1 = m.config.maxchannels → m.sendQueueOf c = []
  position : m.chanlNum < m.config.maxchannels
  start : ∀ cursor, m.sendRun = some cursor → cursor.startChanlNum < m.config.maxchannels

/-- The steps under which the send loop ends: those under which the counters follow the
queues, without data for the last channel. -/
def SendSafe (m : Mux) (a : MuxAction) : Prop :=
  QueueSafe m a ∧ ∀ c buffer split, a = .op (.sendData c buffer split) →
    c + 1 ≠ m.config.maxchannels

/-- The transitions between two states agree with an unchanged queue. -/
theorem ChannelOrderly.moved (h : ChannelOrderly ch) {hi ci : UInt8} {a : AckType}
    {ps : List ControlPacket} (hmove : Moves c hi ci a ch.state s ps) :
    ChannelOrderly (ch.moved hi ci s) := by
  refine ⟨h.payload, ?_⟩
  have hsending := h.sending
  change (s = .sending ∨ s = .flushing) ↔ ch.sendQueue ≠ []
  rw [← hsending]
  generalize hstate : ch.state = s₀ at hmove
  cases hmove <;> simp

theorem ChannelOrderly.empty (hqueue : ch.sendQueue = []) (hstate : ch.state = s)
    (hs : s ≠ .sending ∧ s ≠ .flushing) : ChannelOrderly ch := by
  constructor <;> simp [hqueue, hstate, hs.1, hs.2]

/-- Every safe operation keeps states and queues together. -/
theorem Orderly.channel_change (h : Orderly m) (hsafe : SendSafe m (.op op))
    (hchange : Change m op m') {ch' : Channel} (hch' : m'.channels c = some ch') :
    ChannelOrderly ch' := by
  cases hchange.channelEffect hch' with
  | created _ _ hs heq =>
    rw [heq]
    refine .empty rfl rfl ?_
    rcases hs with rfl | rfl <;> simp [newChannel]
  | kept hch _ => exact h.channel c ch' hch
  | @opened ch hch _ hst heq =>
    have hqueue : ch.sendQueue = [] := by
      by_contra hne
      rcases (h.channel c ch hch).sending.mpr hne with hst' | hst'
      · cases hst.symm.trans hst'
      · cases hst.symm.trans hst'
    rw [heq]
    exact .empty (s := .opened) hqueue rfl (by decide)
  | moved hch _ hmove heq =>
    rw [heq]
    exact (h.channel c _ hch).moved hmove
  | purged hch hop hst _ =>
    subst hop
    exact absurd hst (hsafe.1 _ hch)
  | @appended ch buffer piece rest split hch _ hpiece heq =>
    rcases sendPiece_ok hpiece with ⟨_, _, _, hne, _⟩
    subst heq
    refine ⟨?_, ?_⟩
    · intro d hd
      rcases mem_append.mp hd with hd | hd
      · exact (h.channel c ch hch).payload d hd
      · rw [List.mem_singleton.mp hd]
        exact hne
    · simp [queuedChannel]
  | received hch _ _ heq | taken hch _ _ heq =>
    rw [heq]
    exact { h.channel c _ hch with }

/-- Every safe operation keeps the invariant. -/
theorem Orderly.change (h : Orderly m) (hsafe : SendSafe m (.op op))
    (hchange : Change m op m') : Orderly m' := by
  rcases hchange.fixed with ⟨hconfig, hposition, hrun⟩
  refine ⟨h.accounted.change hsafe.1 hchange, fun c ch' => h.channel_change hsafe hchange,
    ?_, ?_, ?_⟩
  · intro c hc
    rw [hconfig] at hc
    cases hch' : m'.channels c with
    | none =>
      rw [sendQueueOf, hch']
      rfl
    | some ch' =>
      rw [sendQueueOf_of_some hch']
      cases hchange.queueEffect hch' with
      | created _ _ hqueue | purged _ hqueue _ => exact hqueue
      | kept hch hqueue =>
        rw [hqueue, ← sendQueueOf_of_some hch]
        exact h.last c hc
      | appended hop _ _ => exact absurd hc (hsafe.2 c _ _ (congrArg MuxAction.op hop))
  · rw [hposition, hconfig]
    exact h.position
  · rw [hrun, hconfig]
    exact h.start

/-! ## Rounds -/

/-- The rounds that a queue of data can keep the sender busy with: one for each buffer, and
one for the control packet at its end. -/
def queueWork (queue : List DataPacket) : Nat :=
  if queue = [] then 0 else queue.length + 1

/-- The packets that a MUX has still to send, with those that end a flush. -/
def Mux.work (m : Mux) : Nat :=
  m.sendQueue.length + ∑ c ∈ range m.config.maxchannels, queueWork (m.sendQueueOf c)

theorem Mux.sendQueueOf_of_ne {i : Nat} (hchannels : m'.channels = update m.channels c x)
    (hi : i ≠ c) : m'.sendQueueOf i = m.sendQueueOf i := by
  rw [sendQueueOf, hchannels, update_of_ne hi]
  rfl

/-- The work after a change of one channel and of the control queue. -/
theorem Mux.work_store (hc : c < m.config.maxchannels) (hconfig : m'.config = m.config)
    (hchannels : m'.channels = update m.channels c x) :
    m'.work + m.sendQueue.length + queueWork (m.sendQueueOf c) =
      m.work + m'.sendQueue.length + queueWork (m'.sendQueueOf c) := by
  obtain ⟨others, hold, hnew⟩ := exists_sum_range hc fun i hi =>
    congrArg queueWork (sendQueueOf_of_ne hchannels hi)
  rw [work, work, hconfig, hold, hnew]
  omega

/-- How far the scan is: it is done if the loop will be left, and otherwise has to make a whole
pass, possibly after the rest of one. -/
def Mux.phase (m : Mux) (cursor : SendCursor) : Nat :=
  if m.sendQueue = [] ∧ m.totalQueuedAmount ≤ cursor.ignoreAmount then 0
  else if cursor.startChanlNum = m.chanlNum then 1 else 2

/-- A bound for the rounds that are left of a call. -/
def Mux.rank (m : Mux) : Nat :=
  match m.sendRun with
  | none => 0
  | some cursor => 3 * m.work + m.phase cursor + 1

namespace Mux

theorem phase_le (m : Mux) (cursor : SendCursor) : m.phase cursor ≤ 2 := by
  unfold phase
  split_ifs <;> omega

theorem rank_of_none (h : m.sendRun = none) : m.rank = 0 := by
  rw [rank, h]

theorem rank_of_some {cursor : SendCursor} (h : m.sendRun = some cursor) :
    m.rank = 3 * m.work + m.phase cursor + 1 := by
  rw [rank, h]

/-- Less work is less rank, whatever the phase. -/
theorem rank_lt_of_work {cursor : SendCursor} (hrun : m.sendRun = some cursor)
    (hwork : m'.work < m.work) : m'.rank < m.rank := by
  rw [rank_of_some hrun]
  cases hrun' : m'.sendRun with
  | none =>
    rw [rank_of_none hrun']
    omega
  | some cursor' =>
    have hphase := m'.phase_le cursor'
    rw [rank_of_some hrun']
    omega

end Mux

theorem ChannelOrderly.rest_eq_nil (h : ChannelOrderly ch) (hacc : ChannelAccounted ch)
    {rest : List DataPacket} (hqueue : ch.sendQueue = front :: rest) :
    (afterFront ch front rest).qedDataAmount = 0 ↔ rest = [] := by
  have hdata := (hacc.sent hqueue ch.state).data
  have hzero : (afterFront ch front rest).qedDataAmount = 0 ↔
      (afterFront ch front rest).qedDataAmount.toNat = 0 := by
    rw [← UInt32.toNat_inj]
    rfl
  have hdata' : (afterFront ch front rest).qedDataAmount.toNat = payloadBytes rest := hdata
  rw [hzero, hdata']
  constructor
  · intro hsum
    cases rest with
    | nil => rfl
    | cons d rest =>
      have hd : d.payload ≠ [] := h.payload d (by simp [hqueue])
      rw [payloadBytes_cons] at hsum
      have hlen := length_pos_of_ne_nil hd
      omega
  · rintro rfl
    rfl

section

variable (h : Orderly m) {amount : UInt32}
include h

/-- A sent buffer: the invariant is kept, and there is less work. -/
theorem Orderly.sentData {rest : List DataPacket} (hc : c < m.config.maxchannels)
    (hch : m.channels c = some ch) (hst : ch.state = .sending ∨ ch.state = .flushing)
    (hqueue : ch.sendQueue = front :: rest) (hfits : m.fits c front) (amount : UInt32) :
    Orderly ({ m with sendRun := some ⟨c, amount⟩ }.sentData c ch front rest) ∧
      ({ m with sendRun := some ⟨c, amount⟩ }.sentData c ch front rest).work < m.work := by
  rcases sentData_eq { m with sendRun := some ⟨c, amount⟩ } c front rest hst with
    ⟨s, ps, hfinish, heq⟩
  have hchange := SendChange.data (m := m) (some ⟨c, amount⟩) hc hch hst hqueue hfits hfinish
  rw [heq]
  rw [transmitAll_eq] at hchange ⊢
  have horderly := h.channel c ch hch
  have hrest := horderly.rest_eq_nil (h.accounted.channel c ch hch) hqueue
  have hnotlast : c + 1 ≠ m.config.maxchannels := by
    intro hlast
    have hempty := h.last c hlast
    rw [sendQueueOf_of_some hch, hqueue] at hempty
    cases hempty
  refine ⟨⟨h.accounted.sendChange hchange, ?_, ?_, ?_, ?_⟩, ?_⟩
  · intro i ch' hch'
    rw [setChannel_channels] at hch'
    by_cases hi : i = c
    · subst hi
      rw [update_self] at hch'
      cases hch'
      have hpayload : ∀ d ∈ rest, d.payload ≠ [] := fun d hd =>
        horderly.payload d (by rw [hqueue]; exact mem_cons_of_mem front hd)
      refine ⟨hpayload, ?_⟩
      change (s = .sending ∨ s = .flushing) ↔ rest ≠ []
      cases hfinish with
      | more hmore => exact iff_of_true hst fun hnil => hmore (hrest.mpr hnil)
      | sending hzero _ | flushing hzero _ => simp [hrest.mp hzero]
    · rw [update_of_ne hi] at hch'
      exact h.channel i ch' hch'
  · intro i hi
    have hne : i ≠ c := by
      rintro rfl
      exact hnotlast hi
    exact (sendQueueOf_of_ne rfl hne).trans (h.last i hi)
  · change c + 1 < m.config.maxchannels
    omega
  · rintro cursor ⟨rfl⟩
    exact hc
  · have hstore := work_store hc hchange.config_eq rfl
    rw [sendQueueOf_of_some hch, hqueue, sendQueueOf_of_some (update_self ..)] at hstore
    have hlen : (m.sendQueue ++ ps).length = m.sendQueue.length + ps.length := length_append
    have hbefore : queueWork (front :: rest) = rest.length + 2 := by simp [queueWork]
    have hafter : queueWork rest + ps.length < rest.length + 2 := by
      cases hfinish with
      | more hmore =>
        have hne : rest ≠ [] := fun hnil => hmore (hrest.mpr hnil)
        simp [queueWork, hne]
      | sending hzero _ | flushing hzero _ => simp [hrest.mp hzero, queueWork]
    change _ + _ + _ = _ + (m.sendQueue ++ ps).length + queueWork rest at hstore
    omega

/-- The scan positions alone change. -/
theorem Orderly.cursor (hn : n < m.config.maxchannels) {run : Option SendCursor}
    (hrun : ∀ cursor, run = some cursor → cursor.startChanlNum < m.config.maxchannels) :
    Orderly { m with chanlNum := n, sendRun := run } where
  accounted := h.accounted.congr rfl rfl rfl rfl
  channel := h.channel
  last := h.last
  position := hn
  start := hrun

theorem Orderly.sentControl {p : ControlPacket} {rest : List ControlPacket}
    (hqueue : m.sendQueue = p :: rest) :
    Orderly { m with
      sendQueue := rest
      totalQueuedAmount := m.totalQueuedAmount - ofNat p.size } where
  accounted := h.accounted.sendChange (.control hqueue)
  channel := h.channel
  last := h.last
  position := h.position
  start := h.start

theorem Orderly.whole_pass (hqueue : m.sendQueue = []) (hstart : start < m.config.maxchannels)
    (hamount : amount = 0 + ofNat
      (∑ i ∈ passSpan m.config.maxchannels start start, queueBytes (m.sendQueueOf i))) :
    m.totalQueuedAmount = amount := by
  rw [hamount, passSpan_self hstart, h.accounted.total, hqueue, controlBytes_nil, zero_add,
    zero_add, channelsBytes]
  congr 1
  exact sum_congr rfl fun i _ => channelBytes_eq m i

theorem Orderly.leave {cursor : SendCursor} (hrun : m.sendRun = some cursor)
    (hn : n < m.config.maxchannels) :
    Orderly { m with chanlNum := n, sendRun := none } ∧
      rank { m with chanlNum := n, sendRun := none } < m.rank := by
  refine ⟨h.cursor hn nofun, ?_⟩
  rw [rank_of_some hrun, rank_of_none rfl]
  omega

/-- A pass finds nothing: a whole one settles the amounts, the rest of one comes back to its
start. -/
theorem Orderly.nothing {cursor : SendCursor} (hrun : m.sendRun = some cursor)
    (hbusy : cursor.ignoreAmount < m.totalQueuedAmount) (hqueue : m.sendQueue = [])
    (hamount : amount = 0 + ofNat
      (∑ i ∈ passSpan m.config.maxchannels cursor.startChanlNum m.chanlNum,
        queueBytes (m.sendQueueOf i))) :
    Orderly { m with
        chanlNum := cursor.startChanlNum
        sendRun := some ⟨cursor.startChanlNum, amount⟩ } ∧
      rank { m with
        chanlNum := cursor.startChanlNum
        sendRun := some ⟨cursor.startChanlNum, amount⟩ } < m.rank := by
  have hstart := h.start cursor hrun
  refine ⟨h.cursor hstart fun _ heq => ?_, ?_⟩
  · cases heq
    exact hstart
  have hphase : m.phase cursor = if cursor.startChanlNum = m.chanlNum then 1 else 2 := by
    rw [phase, if_neg fun hdone => UInt32.not_le.mpr hbusy hdone.2]
  have hphase' : phase { m with
        chanlNum := cursor.startChanlNum
        sendRun := some ⟨cursor.startChanlNum, amount⟩ } ⟨cursor.startChanlNum, amount⟩ =
      if m.totalQueuedAmount ≤ amount then 0 else 1 := by
    simp [phase, hqueue]
  rw [rank_of_some hrun, hphase, rank_of_some rfl, hphase']
  change 3 * m.work + _ + 1 < _
  by_cases hwhole : cursor.startChanlNum = m.chanlNum
  · rw [← hwhole] at hamount
    have htotal := h.whole_pass hqueue hstart hamount
    rw [if_pos (UInt32.le_of_eq htotal), if_pos hwhole]
    omega
  · rw [if_neg hwhole]
    split_ifs <;> omega

/-- A round of the loop has a result, keeps the invariant, and leaves fewer rounds to do. -/
theorem Orderly.sendRound {cursor : SendCursor} (hrun : m.sendRun = some cursor)
    (result : LinkResult) :
    ∃ r, m.sendRound cursor result = some r ∧ Orderly r.1 ∧ r.1.rank < m.rank := by
  have hstart := h.start cursor hrun
  have hleave := h.leave hrun h.position
  by_cases hbusy : cursor.ignoreAmount < m.totalQueuedAmount
  · simp only [Mux.sendRound, hbusy, if_true]
    cases hqueue : m.sendQueue with
    | cons p rest =>
      refine ⟨m.sendControl p rest result, rfl, ?_⟩
      unfold sendControl
      split_ifs with hbuffers
      · exact hleave
      · cases result with
        | recoverable => exact hleave
        | success =>
          refine ⟨h.sentControl hqueue, rank_lt_of_work hrun ?_⟩
          simp only [work, hqueue, length_cons]
          exact Nat.add_lt_add_right (Nat.lt_succ_self _) _
    | nil =>
      have hchannel : ∀ c ch, m.channels c = some ch → ChannelAccounted ch ∧ ChannelOrderly ch :=
        fun c ch hch => ⟨h.accounted.channel c ch hch, h.channel c ch hch⟩
      have hfuel : (passSpan m.config.maxchannels cursor.startChanlNum m.chanlNum).card ≤
          m.config.maxchannels + 1 := le_succ_of_le (passSpan_card_le hstart)
      rcases scan_spec hchannel 0 hstart h.position hfuel with ⟨r, passed, hscan, hpassed⟩
      refine ⟨m.sendScanned result r, by rw [hscan]; rfl, ?_⟩
      cases r with
      | nothing n amount =>
        rcases hpassed.nothing n amount rfl with ⟨rfl, rfl, hamount⟩
        exact h.nothing hrun hbusy hqueue hamount
      | found n ch front rest amount =>
        rcases scan_found hscan with ⟨hc, hch, hst, hfront, hfits⟩
        cases result with
        | recoverable => exact h.leave hrun hc
        | success =>
          rcases h.sentData hc hch hst hfront hfits amount with ⟨horderly, hwork⟩
          exact ⟨horderly, rank_lt_of_work hrun hwork⟩
  · simp only [Mux.sendRound, hbusy, if_false]
    exact ⟨_, rfl, hleave⟩

end

/-! ## Calls -/

/-- A step of another thread that adds nothing to the queues: it takes something away, or
leaves them as they are. -/
def AddsNothing (m m' : Mux) : Prop :=
  m'.work < m.work ∨ (m'.sendQueue = m.sendQueue ∧ ∀ c, m'.sendQueueOf c = m.sendQueueOf c)

/-- The states of one call of `ProcessSendQueues` that starts in `m`, with the number of
rounds so far.  Between two rounds other threads can take the lock. -/
inductive InCall (m : Mux) : Nat → Mux → Prop where
  | entered {result} {m' : Mux} (hidle : m.sendRun = none)
      (hstep : m.act (.send result) = some m') : InCall m 0 m'
  | round {n : Nat} {m' : Mux} {m'' result} (hcall : InCall m n m')
      (hrun : m'.sendRun ≠ none) (hstep : m'.act (.send result) = some m'') : InCall m (n + 1) m''
  | other {n : Nat} {m' : Mux} {m''} {op : Op} (hcall : InCall m n m') (hrun : m'.sendRun ≠ none)
      (hsafe : SendSafe m' (.op op)) (hstep : m'.act (.op op) = some m'')
      (hadds : AddsNothing m' m'') : InCall m n m''

/-- Steps of other threads that add nothing do not prolong a call. -/
theorem Orderly.rank_le (h : Orderly m) (h' : Orderly m') (hchange : Change m op m')
    (hadds : AddsNothing m m') (hrun : m.sendRun ≠ none) : m'.rank ≤ m.rank := by
  rcases ne_none_iff_exists'.mp hrun with ⟨cursor, hcursor⟩
  rcases hadds with hwork | ⟨hqueue, hqueues⟩
  · exact (rank_lt_of_work hcursor hwork).le
  · rcases hchange.fixed with ⟨hconfig, hposition, hsame⟩
    have hwork : m'.work = m.work := by
      simp [work, hqueue, hconfig, hqueues]
    have htotal : m'.totalQueuedAmount = m.totalQueuedAmount := by
      rw [h'.accounted.total, h.accounted.total, hqueue, channelsBytes, channelsBytes, hconfig]
      congr 2
      exact sum_congr rfl fun i _ => by rw [channelBytes_eq, channelBytes_eq, hqueues]
    rw [rank_of_some hcursor, rank_of_some (hsame.trans hcursor), hwork]
    simp only [phase, hqueue, htotal, hposition]
    exact le_rfl

/-- A step of the send task has a result and keeps the invariant; inside a call it leaves fewer
rounds to do, and at its start it bounds them. -/
theorem Orderly.sendStep (h : Orderly m) (result : LinkResult) :
    ∃ m', m.act (.send result) = some m' ∧ Orderly m' ∧
      (m.sendRun ≠ none → m'.rank < m.rank) ∧ (m.sendRun = none → m'.rank ≤ 3 * m.work + 2) := by
  cases hrun : m.sendRun with
  | none =>
    refine ⟨{ m with sendRun := some ⟨m.chanlNum, 0⟩ }, ?_, ?_, fun hne => absurd rfl hne,
      fun _ => ?_⟩
    · simp [Mux.act, Mux.sendStep, hrun]
    · refine h.cursor h.position fun cursor heq => ?_
      cases heq
      exact h.position
    · change 3 * m.work + _ + 1 ≤ _
      have hphase : Mux.phase { m with sendRun := some ⟨m.chanlNum, 0⟩ } ⟨m.chanlNum, 0⟩ ≤ 1 := by
        simp only [Mux.phase, if_true]
        split_ifs <;> omega
      omega
  | some cursor =>
    rcases h.sendRound hrun result with ⟨r, hr, horderly, hrank⟩
    refine ⟨r.1, ?_, horderly, fun _ => hrank, by simp⟩
    simp [Mux.act, Mux.sendStep, hrun, hr]

theorem orderly_of_reachable (hm : muxSystem.ReachableUnder SendSafe m) : Orderly m := by
  apply hm.invariant
  · rintro _ ⟨config, maxSendBuffers, rfl⟩
    exact ⟨accounted_createMux config maxSendBuffers, nofun, fun _ _ => rfl, config.maxchannels_pos,
      nofun⟩
  · intro m a m' h hsafe hstep
    cases a with
    | op op =>
      rcases map_eq_some_iff.mp hstep with ⟨out, hout, rfl⟩
      exact h.change hsafe (exec_change hout)
    | send result =>
      rcases h.sendStep result with ⟨m'', hstep', horderly, _⟩
      cases hstep.symm.trans hstep'
      exact horderly

/-- The invariant in a call, and the bound of its rounds. -/
theorem InCall.bound (h : Orderly m) (hcall : InCall m n m') :
    Orderly m' ∧ n + m'.rank ≤ 3 * m.work + 2 := by
  induction hcall with
  | @entered result m' hidle hstep =>
    rcases h.sendStep result with ⟨m'', hstep', horderly, _, hrank⟩
    cases hstep.symm.trans hstep'
    exact ⟨horderly, by have := hrank hidle; omega⟩
  | @round n m' m'' result hcall hrun hstep ih =>
    rcases ih.1.sendStep result with ⟨m₁, hstep', horderly, hrank, _⟩
    cases hstep.symm.trans hstep'
    exact ⟨horderly, by have := hrank hrun; have := ih.2; omega⟩
  | @other n m' m'' op hcall hrun hsafe hstep hadds ih =>
    rcases map_eq_some_iff.mp hstep with ⟨out, hout, rfl⟩
    have hchange := exec_change hout
    have horderly := ih.1.change hsafe hchange
    exact ⟨horderly, by have := ih.1.rank_le horderly hchange hadds hrun; have := ih.2; omega⟩

/-- The labels of a call on its own, in which the link answers with `results`: the entry
and `n` rounds. -/
def callLabels (results : Nat → LinkResult) (n : Nat) : List MuxAction :=
  (List.range (n + 1)).map fun i => .send (results i)

theorem callLabels_succ (results : Nat → LinkResult) (n : Nat) :
    callLabels results (n + 1) = callLabels results n ++ [.send (results (n + 1))] := by
  rw [callLabels, range_succ, map_append]
  rfl

/-- After `k` rounds a call on its own has returned or is ready for the next one. -/
theorem Orderly.call_rounds (h : Orderly m) (hidle : m.sendRun = none)
    (results : Nat → LinkResult) (k : Nat) :
    (∃ n m', InCall m n m' ∧ m'.sendRun = none ∧
      runLabels act m (callLabels results n) = some m') ∨
    ∃ m', InCall m k m' ∧ m'.sendRun ≠ none ∧
      runLabels act m (callLabels results k) = some m' := by
  induction k with
  | zero =>
    rcases h.sendStep (results 0) with ⟨m', hstep, _⟩
    have hrun : runLabels act m (callLabels results 0) = some m' := by
      change (m.act (.send (results 0))).bind _ = _
      rw [hstep]
      rfl
    by_cases hreturned : m'.sendRun = none
    · exact .inl ⟨0, m', .entered hidle hstep, hreturned, hrun⟩
    · exact .inr ⟨m', .entered hidle hstep, hreturned, hrun⟩
  | succ k ih =>
    rcases ih with hreturned | ⟨m₁, hcall, hbusy, hrun⟩
    · exact .inl hreturned
    · rcases (hcall.bound h).1.sendStep (results (k + 1)) with ⟨m', hstep, _⟩
      have hrun' : runLabels act m (callLabels results (k + 1)) = some m' := by
        rw [callLabels_succ, runLabels_append, hrun]
        change (m₁.act (.send (results (k + 1)))).bind _ = _
        rw [hstep]
        rfl
      by_cases hreturned : m'.sendRun = none
      · exact .inl ⟨k + 1, m', .round hcall hbusy hstep, hreturned, hrun'⟩
      · exact .inr ⟨m', .round hcall hbusy hstep, hreturned, hrun'⟩

/-- In every run of safe steps, a call of `ProcessSendQueues` makes a bounded number of
rounds, whatever the link answers and whatever other threads do without adding data; every
round has a result, and so the call returns. -/
theorem sender_terminates {m : Mux} (hm : muxSystem.ReachableUnder SendSafe m)
    (hidle : m.sendRun = none) :
    (∀ n m', InCall m n m' → n ≤ 3 * m.work + 2) ∧
      (∀ n m' result, InCall m n m' → ∃ m'', m'.act (.send result) = some m'') ∧
      ∀ results : Nat → LinkResult, ∃ n m', InCall m n m' ∧ m'.sendRun = none ∧
        runLabels act m (callLabels results n) = some m' := by
  have horderly := orderly_of_reachable hm
  refine ⟨?_, ?_, ?_⟩
  · intro n m' hcall
    have hbound := (hcall.bound horderly).2
    omega
  · intro n m' result hcall
    rcases (hcall.bound horderly).1.sendStep result with ⟨m'', hstep, _⟩
    exact ⟨m'', hstep⟩
  · intro results
    rcases horderly.call_rounds hidle results (3 * m.work + 3) with hreturned | ⟨m', hcall, _, _⟩
    · exact hreturned
    · have hbound := (hcall.bound horderly).2
      omega

theorem reachable_sendingRun
    (hrun : runLabels act (createMux Config.small 4) sendingRun = some m) :
    muxSystem.ReachableUnder SendSafe m := by
  have hguard : Guarded act SendSafe (createMux .small 4) sendingRun := by
    refine ⟨⟨trivial, nofun⟩, ?_⟩
    rintro _ ⟨⟩
    refine ⟨⟨trivial, ?_⟩, fun _ _ => trivial⟩
    rintro _ _ _ ⟨⟩
    decide
  exact .runLabels (fun _ _ _ h => h) (.init ⟨.small, 4, rfl⟩) hguard hrun

/-- The condition is met by a run that queues data on a channel before the last one. -/
theorem sender_terminates_sending : ∃ m : Mux, muxSystem.ReachableUnder SendSafe m ∧
    m.totalQueuedAmount = 23 ∧ m.sendRun = none ∧
      ∃ n m', InCall m n m' ∧ m'.sendRun = none ∧
        runLabels act m (callLabels (fun _ => .success) n) = some m' :=
  ⟨_, reachable_sendingRun rfl, rfl, rfl,
    (sender_terminates (reachable_sendingRun rfl) rfl).2.2 fun _ => .success⟩

/-- Without the condition: after a remote close of the sending channel the total never comes
down to what the passes add up, and every round of the loop leaves the state as it is. -/
theorem sender_loops : ∃ m : Mux, muxSystem.Reachable m ∧ m.sendRun ≠ none ∧
    ∀ result, m.act (.send result) = some m := by
  have hm : ∀ m, runLabels act (createMux .small 4)
      (sendingRun ++ [.op (.disableChannel (.clientEnd .command) 0 0 0), .send .success,
        .send .success, .send .success, .send .success]) = some m →
      muxSystem.Reachable m := by
    intro m hrun
    exact .runLabels (fun _ _ _ h => h) (.start ⟨.small, 4, rfl⟩) hrun
  refine ⟨_, hm _ rfl, nofun, ?_⟩
  intro result
  cases result <;> rfl

end LteModemKernel.NetMux
