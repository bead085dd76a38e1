import LteModemKernel.Lib.Runs

/-!
# The wake lock of the receive side

`ReceiveFromLink` takes `netmux_receive_wakelock` and then queues its buffer, without the lock of
the MUX.  `check_all_receive_queues_emptiness` holds that lock.  It looks at the queue of the MUX,
then at those of the channels, and releases the wake lock if they are all empty.  It does not see
a buffer that is between two queues.

Main results:

- Theorem `receive_wakelock_held`: where no check ends while a buffer is between two queues, the
  wake lock is held whenever a buffer waits.
- Theorem `receive_wakelock_lost`: a check between the two steps of `ReceiveFromLink`.
-/

namespace LteModemKernel.NetMux

open Lib

/-- Where the work of `ProcessReceiveQueues` is. -/
inductive ReceiveTask where
  /-- In front of the loop that empties the queue of the MUX, or in its test. -/
  | moving
  /-- In `ReceivePartial`, with the buffer that was dequeued. -/
  | receiving
  /-- In the loop over the channels, or in the check behind it. -/
  | channels
  deriving DecidableEq

/-- The lock of the MUX, which is a semaphore for readers and writers alike. -/
inductive MuxLock where
  | free
  | held
  /-- Held by a check that found the queue of the MUX empty. -/
  | checking
  deriving DecidableEq

/-- The receive side of a MUX; queues are given by their lengths. -/
structure ReceiveSide where
  receiveQueue : Nat
  /-- The queue of each channel that lives. -/
  channels : List (Option Nat)
  wakelock : Bool
  /-- Calls of `ReceiveFromLink` that have not queued their buffer yet. -/
  linking : Nat
  task : ReceiveTask
  /-- Channels of the calls of `ReadData` that have the rest of a buffer to put back. -/
  splits : List Nat
  lock : MuxLock

open ReceiveSide

/-- The steps of the functions, cut where the lock or the wake lock changes hands. -/
inductive ReceiveStep where
  | linkLock
  | linkQueue
  /-- `ReceiveFromLink` without a buffer. -/
  | linkFatal
  | dequeue
  /-- `ReceiveData` for a packet that is complete. -/
  | receiveData (c : Nat)
  | received
  | enterChannels
  /-- A buffer goes to the interface, or is discarded. -/
  | deliver (c : Nat)
  | check
  | readData (c : Nat)
  | readSplit (c : Nat)
  | readRest (c : Nat)
  /-- The end of a check. -/
  | checked
  /-- A channel is created, or one that lives is destroyed with its queue. -/
  | channel (c : Nat) (live : Bool)
  deriving DecidableEq

namespace ReceiveSide

/-- The buffers in the queue of a channel. -/
def waiting (s : ReceiveSide) (c : Nat) : Nat := s.channels[c]?.join.getD 0

def onQueue (s : ReceiveSide) (c : Nat) (f : Nat → Nat) : ReceiveSide :=
  { s with channels := s.channels.modify c (Option.map f) }

/-- The second half of the check: all queues of the channels are empty. -/
def channelsEmpty (s : ReceiveSide) : Bool := s.channels.all (·.getD 0 == 0)

/-- The lock is released; with it `ProcessReceiveQueues` returns. -/
def release (s : ReceiveSide) : ReceiveSide :=
  { s with lock := .free, task := if s.task = .channels then .moving else s.task }

/-- The first half of the check: the queue of the MUX. -/
def checkMux (s : ReceiveSide) : ReceiveSide :=
  if s.receiveQueue = 0 then { s with lock := .checking } else s.release

def Enabled (s : ReceiveSide) : ReceiveStep → Prop
  | .linkLock | .linkFatal => True
  | .linkQueue => 0 < s.linking
  | .dequeue => s.task = .moving ∧ 0 < s.receiveQueue
  | .receiveData _ => s.task = .receiving ∧ s.lock = .free
  | .received => s.task = .receiving
  | .enterChannels => s.task = .moving ∧ s.receiveQueue = 0 ∧ s.lock = .free
  | .deliver c => s.task = .channels ∧ s.lock = .held ∧ 0 < s.waiting c
  | .check => s.task = .channels ∧ s.lock = .held
  | .readData c | .readSplit c => s.lock = .free ∧ 0 < s.waiting c
  | .readRest c => s.lock = .free ∧ c ∈ s.splits
  | .checked => s.lock = .checking
  | .channel c live => s.lock = .free ∧ s.channels[c]?.join.isSome = !live

instance (s : ReceiveSide) (l : ReceiveStep) : Decidable (s.Enabled l) := by
  cases l <;> unfold Enabled <;> infer_instance

def next (s : ReceiveSide) : ReceiveStep → ReceiveSide
  | .linkLock => { s with wakelock := true, linking := s.linking + 1 }
  | .linkQueue => { s with linking := s.linking - 1, receiveQueue := s.receiveQueue + 1 }
  | .linkFatal => { s with wakelock := true }
  | .received => { s with task := .moving }
  | .dequeue => { s with task := .receiving, receiveQueue := s.receiveQueue - 1 }
  | .receiveData c => s.onQueue c (· + 1)
  | .enterChannels => { s with task := .channels, lock := .held }
  | .deliver c => s.onQueue c (· - 1)
  | .check => s.checkMux
  | .readData c => (s.onQueue c (· - 1)).checkMux
  | .readSplit c => { s.onQueue c (· - 1) with splits := c :: s.splits }
  | .readRest c => { s.onQueue c (· + 1) with splits := s.splits.erase c }.checkMux
  | .checked => { s with wakelock := s.wakelock && !s.channelsEmpty }.release
  | .channel c live => { s with channels := s.channels.set c (if live then some 0 else none) }

def exec (s : ReceiveSide) (l : ReceiveStep) : Option ReceiveSide :=
  if s.Enabled l then some (s.next l) else none

def initial (maxchannels : Nat) : ReceiveSide :=
  ⟨0, .replicate maxchannels none, false, 0, .moving, [], .free⟩

/-- A buffer waits in a queue. -/
def Waiting (s : ReceiveSide) : Prop := 0 < s.receiveQueue ∨ ∃ c, 0 < s.waiting c

/-- No buffer is in the queue of the MUX or between two queues. -/
def Quiet (s : ReceiveSide) : Prop :=
  s.linking = 0 ∧ s.receiveQueue = 0 ∧ s.task ≠ .receiving ∧ s.splits = []

/-- A check releases the wake lock only while no buffer is between two queues. -/
def guard (s : ReceiveSide) (l : ReceiveStep) : Prop :=
  l = .checked → s.channelsEmpty = true → s.Quiet

instance (s : ReceiveSide) (l : ReceiveStep) : Decidable (s.guard l) := by
  unfold guard Quiet
  infer_instance

/-- Without the wake lock no call has a buffer, and no queue. -/
def Covered (s : ReceiveSide) : Prop :=
  s.wakelock = false → s.Quiet ∧ s.channelsEmpty = true

end ReceiveSide

/-- The system of the receive side. -/
def receiveSystem : TransitionSystem ReceiveSide ReceiveStep where
  init s := ∃ maxchannels, s = initial maxchannels
  step s l s' := s.exec l = some s'

namespace ReceiveSide

variable {s s' : ReceiveSide} {l : ReceiveStep} {c : Nat}

theorem waiting_eq_zero (h : s.channelsEmpty = true) : s.waiting c = 0 := by
  unfold waiting
  cases hc : s.channels[c]? with
  | none => rfl
  | some q => exact eq_of_beq (List.all_eq_true.mp h q (List.mem_of_getElem? hc))

@[simp] theorem checkMux_wakelock : s.checkMux.wakelock = s.wakelock := by
  unfold checkMux
  split <;> rfl

theorem Quiet.release (h : s.Quiet) : s.release.Quiet := by
  refine ⟨h.1, h.2.1, ?_, h.2.2.2⟩
  unfold ReceiveSide.release
  dsimp only
  split
  · exact nofun
  · exact h.2.2.1

/-- Only the end of a check releases the wake lock. -/
theorem next_wakelock (hl : l ≠ .checked) (hw : s.wakelock = true) :
    (s.next l).wakelock = true := by
  cases l with
  | checked => exact absurd rfl hl
  | linkLock | linkFatal => rfl
  | _ => simpa [next, onQueue] using hw

theorem Covered.next (h : s.Covered) (hguard : s.guard l) (hl : s.Enabled l) :
    (s.next l).Covered := by
  intro hlost
  cases hw : s.wakelock with
  | true =>
    by_cases hchecked : l = .checked
    · subst hchecked
      have hempty : s.channelsEmpty = true := by
        simpa [next, release, hw] using hlost
      exact ⟨(hguard rfl hempty).release, hempty⟩
    · rw [next_wakelock hchecked hw] at hlost
      cases hlost
  | false =>
    obtain ⟨hquiet, hempty⟩ := h hw
    -- the steps that need a buffer cannot happen
    cases l with
    | linkLock | linkFatal => cases hlost
    | linkQueue => exact absurd hquiet.1 (Nat.ne_of_gt hl)
    | dequeue => exact absurd hquiet.2.1 (Nat.ne_of_gt hl.2)
    | receiveData => exact absurd hl.1 hquiet.2.2.1
    | received => exact absurd hl hquiet.2.2.1
    | deliver => exact absurd (waiting_eq_zero hempty) (Nat.ne_of_gt hl.2.2)
    | readData | readSplit => exact absurd (waiting_eq_zero hempty) (Nat.ne_of_gt hl.2)
    | readRest => exact absurd (hquiet.2.2.2 ▸ hl.2) List.not_mem_nil
    | enterChannels =>
      exact ⟨⟨hquiet.1, hquiet.2.1, nofun, hquiet.2.2.2⟩, hempty⟩
    | check =>
      have hcheck : s.next .check = { s with lock := .checking } := if_pos hquiet.2.1
      rw [hcheck]
      exact ⟨hquiet, hempty⟩
    | checked => exact ⟨hquiet.release, hempty⟩
    | channel c live =>
      refine ⟨hquiet, List.all_eq_true.mpr fun q hq => ?_⟩
      rcases List.mem_or_eq_of_mem_set hq with hq | rfl
      · exact List.all_eq_true.mp hempty q hq
      · cases live <;> rfl

end ReceiveSide

/-- Where no check ends while a buffer is between two queues, the wake lock is held whenever a
buffer waits. -/
theorem receive_wakelock_held {s : ReceiveSide}
    (hs : receiveSystem.ReachableUnder guard s) (hwaiting : s.Waiting) :
    s.wakelock = true := by
  have hcovered : s.Covered := by
    refine hs.invariant ?_ ?_
    · rintro _ ⟨n, rfl⟩ _
      refine ⟨⟨rfl, rfl, nofun, rfl⟩, ?_⟩
      simp [channelsEmpty, initial]
    · intro s l s' h hguard hexec
      obtain ⟨hl, hnext⟩ := Option.ite_none_right_eq_some.mp hexec
      injection hnext with hnext
      exact hnext ▸ h.next hguard hl
  refine Bool.of_not_eq_false fun hlost => ?_
  obtain ⟨hquiet, hempty⟩ := hcovered hlost
  rcases hwaiting with hqueue | ⟨c, hc⟩
  · exact absurd hquiet.2.1 (Nat.ne_of_gt hqueue)
  · exact absurd (waiting_eq_zero hempty) (Nat.ne_of_gt hc)

/-- The state behind one call of `ReceiveFromLink`. -/
theorem receive_wakelock_held_link :
    ∃ s, receiveSystem.ReachableUnder guard s ∧ s.Waiting ∧ s.wakelock = true := by
  have h0 : receiveSystem.ReachableUnder guard (initial 2) := .init ⟨2, rfl⟩
  obtain ⟨s, hs, hqueue⟩ := h0.exists_observed (P := fun s => 0 < s.receiveQueue)
    [.linkLock, .linkQueue] (by decide)
  exact ⟨s, hs, .inl hqueue, receive_wakelock_held hs (.inl hqueue)⟩

/-- `ProcessReceiveQueues` has handled a first buffer; its check runs between the two steps of the
call for the second one. -/
theorem receive_wakelock_lost :
    ∃ s, receiveSystem.Reachable s ∧ s.Waiting ∧ s.wakelock = false := by
  have h0 : receiveSystem.Reachable (.initial 2) := .start ⟨2, rfl⟩
  obtain ⟨s, hs, hqueue, hlost⟩ := h0.exists_observed
    (P := fun s => 0 < s.receiveQueue ∧ s.wakelock = false)
    [.linkLock, .linkQueue, .dequeue, .received, .enterChannels, .linkLock, .check,
      .checked, .linkQueue] (by decide)
  exact ⟨s, hs, .inl hqueue, hlost⟩

end LteModemKernel.NetMux
