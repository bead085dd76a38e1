import LteModemKernel.LinkDriver.Uplink

/-!
# Stalls of the uplink

The end of a transfer starts the next one.  So a transfer that fails in the IPC driver is never
followed by another: `USBTransmit` only prints the status that it gets, and for a message that
is not written to the mailbox the status is even `HW_CTRL_IPC_STATUS_OK`.

`MUXTransmitComplete` finds an empty queue under `ild_lock` and releases the wake lock
after it.  A packet that `USBQueue` accepts in between is sent without a wake lock.

Main results:
- Theorem `never_stalls`: without these cases the uplink does not stall.
- Theorem `uplink_stalls`: the two cases.
- Theorem `stalled_for_ever`: nothing ends the first of them.
-/

namespace LteModemKernel.LinkDriver

open Lib List Option TransitionSystem

namespace State

variable {s s' : State} {l : Label}

/-! ## The property -/

/-- The packet at the head of the queue is in a transfer of the IPC driver, whose DMA or whose
acknowledgement is outstanding. -/
def HeadInTransfer (s : State) : Prop :=
  s.writeFlag = true ∧ (s.dma ≠ none ∨ s.mailbox ≠ []) ∧
    s.writeBuff.head?.map Node.dataPtr = s.sendQueue.head?

/-- The next transfer, the next message to NetMUX and the end of the wake lock are in sight. -/
structure NeverStalls (s : State) : Prop where
  busy : s.sendQueue ≠ [] →
    s.HeadInTransfer ∨ s.writeCallback = true ∨ 0 < s.transmits ∨ 0 < s.writes
  deferred : s.muxDeferred = true → s.sendQueue ≠ []
  awake : s.sendQueue ≠ [] → s.netmuxToUsb = true

/-- The IPC driver completes its transfers, and `USBQueue` is not called where
`MUXTransmitComplete` is about to release the wake lock. -/
def Unfailing (s : State) : Label → Prop
  | .usbQueue p => Sendable p ∧ s.unlocks = 0
  | l => Completes s l

instance Unfailing.decidable (s : State) (l : Label) : Decidable (Unfailing s l) := by
  apply @Label.casesOn _ l <;> intros <;> unfold Unfailing <;> infer_instance

theorem Unfailing.completes (h : Unfailing s l) : Completes s l := by
  cases l with
  | usbQueue p => exact h.1
  | usbTransmit | writeEx2 dmaOk mboxOk | dmaDone mboxOk | bpAck transSize
  | muxTransmitComplete | wakeUnlock => exact h

/-! ## The deferred NetMUX and the wake lock -/

/-- A deferred NetMUX and the wake lock, with the releases of the wake lock that are due. -/
structure Awake (s : State) : Prop where
  deferred : s.muxDeferred = true → s.sendQueue ≠ []
  held : s.sendQueue ≠ [] → s.netmuxToUsb = true ∧ s.unlocks = 0

theorem Awake.congr (h : s.Awake) (hsame : SameQueue s s') : s'.Awake := by
  constructor
  · rw [hsame.muxDeferred, hsame.sendQueue]
    exact h.deferred
  · rw [hsame.sendQueue, hsame.netmuxToUsb, hsame.unlocks]
    exact h.held

theorem awake_usbQueue (p : Packet) (hunlocks : s.unlocks = 0) : (s.usbQueue p).Awake := by
  unfold usbQueue
  simp only
  split
  · next hfull =>
    have hne : s.sendQueue ≠ [] := by
      intro hnil
      rw [hnil] at hfull
      cases hfull
    exact ⟨fun _ => hne, fun _ => ⟨rfl, hunlocks⟩⟩
  · have hne : s.sendQueue ++ [p] ≠ [] := append_ne_nil_of_right_ne_nil _ (cons_ne_nil _ _)
    split <;> exact ⟨fun _ => hne, fun _ => ⟨rfl, hunlocks⟩⟩

/-- NetMUX stays deferred only with more packets in the queue than the low mark. -/
theorem informRecovered_deferred (h : s.informRecovered.muxDeferred = true) : s.sendQueue ≠ [] := by
  unfold informRecovered at h
  split at h
  · cases h
  · next hmark =>
    intro hnil
    apply hmark
    rw [hnil]
    exact ⟨h, Nat.zero_le _⟩

theorem Awake.muxTransmitComplete (h : s.Awake) : s.muxTransmitComplete.Awake := by
  have hdeferred := @informRecovered_deferred { s with writeCallback := false }.removeProcessed
  rcases informRecovered_eq { s with writeCallback := false }.removeProcessed
    with ⟨deferred, count, heq⟩
  rw [heq] at hdeferred
  unfold State.muxTransmitComplete
  simp only [heq]
  split
  · next hne =>
    have hbefore : s.sendQueue ≠ [] := by
      intro hnil
      apply hne
      rw [removeProcessed, hnil]
      exact drop_nil
    exact ⟨hdeferred, fun _ => h.held hbefore⟩
  · next hnil => exact ⟨hdeferred, fun hne => absurd hne hnil⟩

theorem Awake.wakeUnlock (h : s.Awake) (hpos : 0 < s.unlocks) : s.wakeUnlock.Awake := by
  refine ⟨h.deferred, ?_⟩
  intro hne
  rw [(h.held hne).2] at hpos
  exact absurd hpos (Nat.lt_irrefl _)

theorem Awake.exec (h : s.Awake) (hguard : Unfailing s l) (hstep : s.exec l = some s') :
    s'.Awake := by
  cases exec_does hstep with
  | usbQueue p => exact awake_usbQueue p hguard.2
  | muxTransmitComplete _ => exact h.muxTransmitComplete
  | wakeUnlock hpos => exact h.wakeUnlock hpos
  | usbTransmit _ => exact { h with }
  | writeEx2 dmaOk mboxOk _ => exact h.congr (sameQueue_writeEx2 s dmaOk mboxOk)
  | dmaDone mboxOk _ hx => exact h.congr (sameQueue_node2bufCallback mboxOk hx)
  | bpAck _ _ => exact h.congr (.usbIpcApiWriteCallback ⟨rfl, rfl, rfl, rfl, rfl⟩)

theorem awake_of_reachable (hs : system.ReachableUnder Unfailing s) : s.Awake := by
  apply hs.invariant (P := Awake)
  · rintro s rfl
    exact ⟨nofun, fun hne => absurd rfl hne⟩
  · intro s l s' h hguard hstep
    exact h.exec hguard hstep

/-! ## Somebody is at work -/

theorem Holds.head_buff {buff t : List Node} {queue : List Packet} (h : Holds buff queue t) :
    buff.head?.map Node.dataPtr = queue.head? := by
  rcases h.buff with ⟨stale, rfl⟩
  rw [head?_append_of_ne_nil _ (length_pos_iff.mp h.transfer.pos)]
  exact h.head

theorem Working.busy {batches : List (List Packet)} {st : Stage} (h : s.Working batches st)
    (hne : s.sendQueue ≠ []) :
    s.HeadInTransfer ∨ s.writeCallback = true ∨ 0 < s.transmits ∨ 0 < s.writes := by
  have hsent := h.sent
  have hflag := h.stage.writeFlag
  cases st with
  | idle => exact absurd hsent.1 hne
  | transmit =>
    refine .inr (.inr (.inl ?_))
    rw [h.stage.transmits]
    exact Nat.one_pos
  | write =>
    refine .inr (.inr (.inr ?_))
    rw [h.stage.writes]
    exact Nat.one_pos
  | copy d =>
    rcases hsent.2.1 with ⟨t, ht, _⟩
    refine .inl ⟨hflag, .inl ?_, ht.head_buff⟩
    rw [h.stage.dma]
    exact some_ne_none d
  | ack n =>
    rcases hsent.2.1.1 with ⟨t, ht⟩
    refine .inl ⟨hflag, .inr ?_, ht.head_buff⟩
    rw [h.stage.mailbox]
    exact cons_ne_nil _ _
  | complete => exact .inr (.inl h.stage.writeCallback)

/-! ## A stalled uplink -/

/-- There are packets in the queue, and nobody is at work. -/
@[mk_iff]
structure Stalled (s : State) : Prop where
  queue : s.sendQueue ≠ []
  transmits : s.transmits = 0
  writes : s.writes = 0
  dma : s.dma = none
  mailbox : s.mailbox = []
  writeCallback : s.writeCallback = false

theorem Stalled.exec (h : s.Stalled) (hstep : s.exec l = some s') :
    s'.Stalled ∧ s'.sendQueue.head? = s.sendQueue.head? := by
  cases exec_does hstep with
  | usbQueue p =>
    unfold usbQueue
    simp only
    split
    · exact ⟨{ h with }, rfl⟩
    · have hpos := length_pos_iff.mpr h.queue
      rw [if_neg (by rw [length_append, length_singleton]; omega)]
      exact ⟨{ h with queue := append_ne_nil_of_left_ne_nil h.queue _ },
        head?_append_of_ne_nil _ h.queue⟩
  | usbTransmit hpos => exact absurd h.transmits (Nat.ne_of_gt hpos)
  | writeEx2 _ _ hpos => exact absurd h.writes (Nat.ne_of_gt hpos)
  | dmaDone _ hdma _ => exact absurd (h.dma.symm.trans hdma) nofun
  | bpAck _ hmailbox => exact absurd (h.mailbox.symm.trans hmailbox) nofun
  | muxTransmitComplete hscheduled => exact absurd (h.writeCallback.symm.trans hscheduled) nofun
  | wakeUnlock _ => exact ⟨{ h with }, rfl⟩

instance : Decidable s.Stalled :=
  decidable_of_iff _ (stalled_iff s).symm

theorem Stalled.not_neverStalls (h : s.Stalled) : ¬s.NeverStalls := by
  intro hnever
  rcases hnever.busy h.queue with ⟨_, hdma | hmailbox, _⟩ | hcallback | htransmits | hwrites
  · exact hdma h.dma
  · exact hmailbox h.mailbox
  · rw [h.writeCallback] at hcallback
    cases hcallback
  · rw [h.transmits] at htransmits
    exact Nat.lt_irrefl _ htransmits
  · rw [h.writes] at hwrites
    exact Nat.lt_irrefl _ hwrites

end State

/-- The uplink does not stall in runs whose transfers are completed and in which no packet comes
where the wake lock is about to be released. -/
theorem never_stalls {s : State} (hs : system.ReachableUnder State.Unfailing s) :
    s.NeverStalls := by
  rcases State.working_of_reachable (hs.mono fun _ _ => State.Unfailing.completes) with
    ⟨batches, st, h⟩
  have hawake := State.awake_of_reachable hs
  exact ⟨h.busy, hawake.deferred, fun hne => (hawake.held hne).1⟩

/-- A packet in the queue while the first is copied. -/
theorem never_stalls_packets : ∃ s, system.ReachableUnder State.Unfailing s ∧
    s.sendQueue = [[1], [2, 3]] ∧ s.NeverStalls := by
  have hstart : system.ReachableUnder State.Unfailing .init := .init rfl
  rcases hstart.exists_observed (P := fun s : State => s.sendQueue = [[1], [2, 3]])
      [.usbQueue [1], .usbTransmit, .writeEx2 true true, .usbQueue [2, 3], .dmaDone true]
      (by decide +kernel) with ⟨s, hs, hobs⟩
  exact ⟨s, hs, hobs, never_stalls hs⟩

/-- The message to the BP is not written, and the packet stays in the queue for ever; a packet
that comes before the wake lock is released is in the queue without it. -/
theorem uplink_stalls :
    (∃ s, system.Reachable s ∧ s.Stalled ∧ ¬s.NeverStalls) ∧
    (∃ s, system.Reachable s ∧ s.sendQueue = [[2]] ∧ s.netmuxToUsb = false ∧ ¬s.NeverStalls) := by
  have hstart : system.Reachable .init := .start rfl
  constructor
  · rcases hstart.exists_observed (P := fun s : State => s.Stalled)
        [.usbQueue [1], .usbTransmit, .writeEx2 true true, .dmaDone false]
        (by decide +kernel) with ⟨s, hs, hstalled⟩
    exact ⟨s, hs, hstalled, hstalled.not_neverStalls⟩
  · rcases hstart.exists_observed
      (P := fun s : State => s.sendQueue = [[2]] ∧ s.netmuxToUsb = false)
        [.usbQueue [1], .usbTransmit, .writeEx2 true true, .dmaDone true, .bpAck 11,
          .muxTransmitComplete, .usbQueue [2], .wakeUnlock]
        (by decide +kernel) with ⟨s, hs, hqueue, hlock⟩
    refine ⟨s, hs, hqueue, hlock, ?_⟩
    intro hnever
    have hheld := hnever.awake (by rw [hqueue]; exact cons_ne_nil _ _)
    cases hlock.symm.trans hheld

/-- In every run a stalled uplink stays stalled, with the same packet at the head of its queue. -/
theorem stalled_for_ever {s s' : State} {labels : List Label} (h : s.Stalled)
    (hrun : runLabels State.exec s labels = some s') :
    s'.Stalled ∧ s'.sendQueue.head? = s.sendQueue.head? := by
  have hreach : (ofExec (· = s) State.exec).Reachable s' :=
    .runLabels (fun _ _ _ hstep => hstep) (.start rfl) hrun
  apply hreach.invariant (P := fun t => t.Stalled ∧ t.sendQueue.head? = s.sendQueue.head?)
  · rintro _ rfl
    exact ⟨h, rfl⟩
  · rintro t l t' ⟨ht, hhead⟩ hstep
    exact (ht.exec hstep).imp_right fun hsame => hsame.trans hhead

theorem stalled_for_ever_one : ∃ s, system.Reachable s ∧ ∀ labels s',
    runLabels State.exec s labels = some s' → s'.sendQueue.head? = some [1] := by
  rcases (Reachable.start rfl : system.Reachable .init).exists_observed
    (P := fun s : State => s.Stalled ∧ s.sendQueue.head? = some [1])
    [.usbQueue [1], .usbTransmit, .writeEx2 true true, .dmaDone false] (by decide +kernel)
    with ⟨s, hs, hstalled, hhead⟩
  exact ⟨s, hs, fun _ _ hrun => (stalled_for_ever hstalled hrun).2.trans hhead⟩

end LteModemKernel.LinkDriver
