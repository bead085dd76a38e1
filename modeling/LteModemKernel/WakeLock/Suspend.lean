import LteModemKernel.WakeLock.Holding

/-!
# No lost suspend

When no lock holds the system awake, something has to lead to a suspend: the timer that expires
the last timed lock, or the work `suspend`.  The invariant has two parts.  `Covered` says
that a timed lock that is still running stands beside a lock without a timeout or under a timer
that fires no earlier than the lock expires.  `Pending` says that a lock without a timeout is
active, or the timer is pending, or the work is queued or running; while the work is in
`pm_suspend` this needs that no event has come since it began.

`wake_lock_destroy` breaks this.  It takes an active lock from its list and neither starts the
timer nor queues the work.

Main results:
- Theorem `hasWakeLock_settles`: both parts hold after the timer was set from the answer of
  `has_wake_lock_locked`.
- Theorem `suspend_not_lost`: nothing is lost in any run in which the last active lock without
  a timeout is not destroyed.
- Theorem `suspend_lost`: the system stays awake after this lock is destroyed.
-/

namespace LteModemKernel.WakeLock

open Lib Option BitVec

namespace State

variable {s s' : State} {l : LockId} {t : LockType}

/-! ## The invariant -/

/-- A lock of the type suspend without a timeout is active. -/
def Untimed (s : State) : Prop :=
  ∃ l ∈ s.activeWakeLocks .suspend, (s.lock l).autoExpire = false

/-- A timed lock that is still running is covered. -/
def Covered (s : State) : Prop :=
  ∀ l ∈ s.activeWakeLocks .suspend, (s.lock l).autoExpire = true →
    s.timeout l ≤ 0 ∨ s.Untimed ∨ ∃ e, s.expireTimer = some e ∧ s.timeout l ≤ (e - s.jiffies).toInt

/-- A lock without a timeout is active, or a suspend is to come. -/
inductive Armed (s : State) : Prop where
  | untimed (h : s.Untimed)
  | timer (e : BitVec 32) (h : s.expireTimer = some e)
  | queued (h : s.suspendWork = true)

/-- Something keeps the system awake on purpose, or a suspend is to come or has begun. -/
inductive Pending (s : State) : Prop where
  | armed (h : s.Armed)
  | started (h : s.worker = .started)
  | checked (h : s.worker = .checked)
  | suspending (h : s.worker = .suspending s.currentEventNum)

/-- The locks and the timer, the work and its queue are what `Armed` is about. -/
theorem Armed.congr (h : Armed s) (huntimed : s.Untimed → s'.Untimed)
    (htimer : s'.expireTimer = s.expireTimer) (hwork : s'.suspendWork = s.suspendWork) :
    Armed s' := by
  cases h with
  | untimed h => exact .untimed (huntimed h)
  | timer e he => exact .timer e (htimer.trans he)
  | queued hqueued => exact .queued (hwork.trans hqueued)

theorem Pending.congr (h : Pending s) (huntimed : s.Untimed → s'.Untimed)
    (htimer : s'.expireTimer = s.expireTimer) (hwork : s'.suspendWork = s.suspendWork)
    (hworker : s'.worker = s.worker) (hevent : s'.currentEventNum = s.currentEventNum) :
    Pending s' := by
  cases h with
  | armed harmed => exact .armed (harmed.congr huntimed htimer hwork)
  | started h => exact .started (hworker.trans h)
  | checked h => exact .checked (hworker.trans h)
  | suspending h =>
    refine .suspending ?_
    rw [hworker, hevent]
    exact h

/-! ## Locks that go -/

/-- Locks of the type suspend may go, but not the last one without a timeout, and nothing else
changes. -/
structure Pruned (s s' : State) : Prop where
  mem : ∀ l ∈ s'.activeWakeLocks .suspend, l ∈ s.activeWakeLocks .suspend ∧ s'.lock l = s.lock l
  untimed : s.Untimed → s'.Untimed
  jiffies : s'.jiffies = s.jiffies
  expireTimer : s'.expireTimer = s.expireTimer
  suspendWork : s'.suspendWork = s.suspendWork
  worker : s'.worker = s.worker
  currentEventNum : s'.currentEventNum = s.currentEventNum

theorem Pruned.refl (s : State) : Pruned s s :=
  ⟨fun _ hl => ⟨hl, rfl⟩, id, rfl, rfl, rfl, rfl, rfl⟩

/-- Running locks stay covered. -/
theorem Pruned.covered (h : Pruned s s') (hs : s.Covered) : s'.Covered := by
  intro l hl hauto
  obtain ⟨hmem, hlock⟩ := h.mem l hl
  have htimeout : s'.timeout l = s.timeout l := by
    unfold timeout
    rw [hlock, h.jiffies]
  rw [htimeout, h.expireTimer, h.jiffies]
  rcases hs l hmem (hlock ▸ hauto) with hle | huntimed | htimer
  · exact .inl hle
  · exact .inr (.inl (h.untimed huntimed))
  · exact .inr (.inr htimer)

/-- A lock is taken from the list of the type suspend: it may go if it has a timeout, or if
another lock without a timeout remains. -/
theorem Pruned.filter
    (hactive : s'.activeWakeLocks .suspend = (s.activeWakeLocks .suspend).filter (· ≠ l))
    (hlock : ∀ k, k ≠ l → s'.lock k = s.lock k)
    (hl : l ∈ s.activeWakeLocks .suspend → (s.lock l).autoExpire = false →
      ∃ k ∈ s.activeWakeLocks .suspend, k ≠ l ∧ (s.lock k).autoExpire = false)
    (hjiffies : s'.jiffies = s.jiffies) (htimer : s'.expireTimer = s.expireTimer)
    (hwork : s'.suspendWork = s.suspendWork) (hworker : s'.worker = s.worker)
    (hevent : s'.currentEventNum = s.currentEventNum) : Pruned s s' := by
  refine ⟨?_, ?_, hjiffies, htimer, hwork, hworker, hevent⟩
  · intro k hk
    rw [hactive, List.mem_filter] at hk
    exact ⟨hk.1, hlock k (by simpa using hk.2)⟩
  · rintro ⟨k, hk, hauto⟩
    have hother : ∃ k ∈ s.activeWakeLocks .suspend, k ≠ l ∧ (s.lock k).autoExpire = false := by
      by_cases hkl : k = l
      · subst hkl
        exact hl hk hauto
      · exact ⟨k, hk, hkl, hauto⟩
    obtain ⟨k, hk, hkl, hauto⟩ := hother
    refine ⟨k, ?_, ?_⟩
    · rw [hactive, List.mem_filter]
      exact ⟨hk, by simpa using hkl⟩
    · rw [hlock k hkl]
      exact hauto

theorem Pruned.trans {s'' : State} (h : Pruned s s') (h' : Pruned s' s'') : Pruned s s'' := by
  refine ⟨?_, fun hs => h'.untimed (h.untimed hs), h'.jiffies.trans h.jiffies,
    h'.expireTimer.trans h.expireTimer, h'.suspendWork.trans h.suspendWork,
    h'.worker.trans h.worker, h'.currentEventNum.trans h.currentEventNum⟩
  intro l hl
  obtain ⟨hl', hlock'⟩ := h'.mem l hl
  obtain ⟨hl, hlock⟩ := h.mem l hl'
  exact ⟨hl, hlock'.trans hlock⟩

theorem pruned_hasWakeLock (s : State) (t : LockType) : Pruned s (s.hasWakeLock t).1 := by
  refine hasWakeLock_induct ?_ s t (.refl s)
  intro s' l h hl
  refine h.trans (.filter (l := l) rfl (fun k hk => expireWakeLock_lock_ne hk) ?_
    rfl rfl rfl rfl rfl)
  intro _ hauto
  rw [hl.1] at hauto
  cases hauto

/-! ## The timer is set -/

theorem Tracked.hasWakeLock_untimed (h : Tracked s) (hret : (s.hasWakeLock .suspend).2 < 0) :
    (s.hasWakeLock .suspend).1.Untimed := by
  refine (pruned_hasWakeLock s .suspend).untimed ?_
  cases h.hasWakeLock_answer (t := .suspend) with
  | untimed l hl hauto _ => exact ⟨l, hl, hauto⟩
  | timed _ _ hstart _ => omega

/-- After a scan, no timed lock runs longer than its answer. -/
theorem Tracked.hasWakeLock_timeout (h : Tracked s) (hret : 0 ≤ (s.hasWakeLock .suspend).2) :
    ∀ l ∈ (s.hasWakeLock .suspend).1.activeWakeLocks .suspend,
      (s.hasWakeLock .suspend).1.timeout l ≤ (s.hasWakeLock .suspend).2 := by
  intro l hl
  obtain ⟨hmem, hlock⟩ := (pruned_hasWakeLock s .suspend).mem l hl
  have htimeout : (s.hasWakeLock .suspend).1.timeout l = s.timeout l := by
    unfold timeout
    rw [hlock, (pruned_hasWakeLock s .suspend).jiffies]
  rw [htimeout]
  cases h.hasWakeLock_answer (t := .suspend) with
  | untimed _ _ _ hr => omega
  | timed _ hbound _ _ => exact hbound l hmem

/-- The answer is a `long`. -/
theorem Tracked.hasWakeLock_lt (h : Tracked s) : (s.hasWakeLock t).2 < 2 ^ 31 := by
  cases h.hasWakeLock_answer (t := t) with
  | untimed _ _ _ hr => omega
  | timed _ _ _ hr =>
    rcases hr with hr | ⟨l, _, _, htimeout⟩
    · omega
    · have hlt := toInt_lt (x := (s.lock l).expires - s.jiffies)
      have htimeout' : ((s.lock l).expires - s.jiffies).toInt = (s.hasWakeLock t).2 := htimeout
      omega

theorem toInt_timer {j : BitVec 32} {r : Int} (hpos : 0 < r) (hlt : r < 2 ^ 31) :
    (j + BitVec.ofInt 32 r - j).toInt = r := by
  rw [BitVec.add_comm, BitVec.add_sub_cancel, BitVec.toInt_ofInt]
  exact Int.bmod_eq_of_le (by omega) (by omega)

/-- With the timer set from the answer of `has_wake_lock_locked`, the running locks are
covered and nothing is lost. -/
theorem Tracked.hasWakeLock_settles (h : Tracked s) :
    ((s.hasWakeLock .suspend).1.updateTimer (s.hasWakeLock .suspend).2).Covered ∧
    ((s.hasWakeLock .suspend).1.updateTimer (s.hasWakeLock .suspend).2).Armed := by
  have hbound := h.hasWakeLock_timeout
  have huntimed := h.hasWakeLock_untimed
  have hlt := h.hasWakeLock_lt (t := .suspend)
  generalize (s.hasWakeLock .suspend).1 = s' at hbound huntimed ⊢
  generalize (s.hasWakeLock .suspend).2 = ret at hbound huntimed hlt ⊢
  unfold State.updateTimer
  split
  · rename_i hpos
    refine ⟨?_, .timer _ rfl⟩
    intro l hl _
    refine .inr (.inr ⟨_, rfl, ?_⟩)
    rw [toInt_timer hpos hlt]
    exact hbound (by omega) l hl
  · split
    · rename_i hzero
      refine ⟨?_, .queued rfl⟩
      intro l hl _
      have hle : s'.timeout l ≤ ret := hbound (by omega) l hl
      exact .inl (hzero ▸ hle)
    · have hfound : s'.Untimed := huntimed (by omega)
      exact ⟨fun l _ _ => .inr (.inl hfound), .untimed hfound⟩

/-! ## The steps -/

/-- Both parts of the invariant. -/
structure Live (s : State) : Prop where
  covered : s.Covered
  pending : s.Pending

/-- Nothing is lost. -/
theorem Pruned.live (h : Pruned s s') (hs : s.Live) : s'.Live :=
  ⟨h.covered hs.covered,
    hs.pending.congr h.untimed h.expireTimer h.suspendWork h.worker h.currentEventNum⟩

theorem Tracked.not_mem_idle (h : Tracked s) (hl : (s.lock l).type = .idle) :
    l ∉ s.activeWakeLocks .suspend := by
  intro hmem
  rw [(h.agrees l).mem, hl] at hmem
  cases hmem.2.2

theorem Live.wakeLockInit (h : Live s) (ht : Tracked s) (hl : (s.lock l).initialized = false) :
    Live (s.wakeLockInit l t) := by
  refine Pruned.live (Pruned.filter (s := s) (l := l) (ht.filter_raw hl).symm ?_ ?_
    rfl rfl rfl rfl rfl) h
  · intro k hk
    simp [State.wakeLockInit, hk]
  · intro hmem
    exact absurd hmem (ht.not_mem hl)

theorem Live.wakeLockDestroy (h : Live s)
    (hl : l ∈ s.activeWakeLocks .suspend → (s.lock l).autoExpire = false →
      ∃ k ∈ s.activeWakeLocks .suspend, k ≠ l ∧ (s.lock k).autoExpire = false) :
    Live (s.wakeLockDestroy l) := by
  refine Pruned.live (Pruned.filter (s := s) (l := l) rfl ?_ hl rfl rfl rfl rfl rfl) h
  intro k hk
  simp [State.wakeLockDestroy, hk]

theorem Live.wakeUnlock (h : Live s) (ht : Tracked s) : Live (s.wakeUnlock l) := by
  have htracked := ht.released (l := l)
  unfold State.wakeUnlock
  dsimp only
  split
  · rename_i htype
    refine Pruned.live (Pruned.filter (s := s) (l := l) rfl ?_ ?_ rfl rfl rfl rfl rfl) h
    · intro k hk
      simp [hk]
    · intro hmem
      exact absurd hmem (ht.not_mem_idle htype)
  · exact ⟨htracked.hasWakeLock_settles.1, .armed htracked.hasWakeLock_settles.2⟩

theorem untimed_activate (hl : (s.lock l).type = .suspend) : (s.activate l none).Untimed :=
  ⟨l, by simp [activate, hl], by simp [activate]⟩

theorem Tracked.wakeLockInternal_settles (ht : Tracked s)
    (hl : (s.lock l).setup = (true, .suspend)) (timeout : Option (BitVec 32)) :
    (s.wakeLockInternal l timeout).Covered ∧ (s.wakeLockInternal l timeout).Armed := by
  have htype : (s.lock l).type = .suspend := congrArg Prod.snd hl
  have hevent : Tracked { s.activate l timeout with
      currentEventNum := (s.activate l timeout).currentEventNum + 1 } :=
    { ht.activate (congrArg Prod.fst hl) timeout with }
  simp only [State.wakeLockInternal, htype]
  cases timeout with
  | some timeout => exact hevent.hasWakeLock_settles
  | none =>
    have huntimed : (State.updateTimer { s.activate l none with
        currentEventNum := (s.activate l none).currentEventNum + 1 } (-1)).Untimed :=
      untimed_activate htype
    exact ⟨fun _ _ _ => .inr (.inl huntimed), .untimed huntimed⟩

theorem Live.wakeLockInternal (h : Live s) (ht : Tracked s) (hinit : (s.lock l).initialized = true)
    (timeout : Option (BitVec 32)) : Live (s.wakeLockInternal l timeout) := by
  cases htype : (s.lock l).type with
  | idle =>
    simp only [State.wakeLockInternal, htype]
    refine Pruned.live (Pruned.filter (s := s) (l := l) ?_ ?_ ?_ ?_ ?_ ?_ ?_ ?_) h
    · cases timeout <;> simp [activate, htype]
    · intro k hk
      cases timeout <;> simp [activate, hk]
    · intro hmem
      exact absurd hmem (ht.not_mem_idle htype)
    all_goals cases timeout <;> rfl
  | suspend =>
    have hsettled := ht.wakeLockInternal_settles (Prod.ext hinit htype) timeout
    exact ⟨hsettled.1, .armed hsettled.2⟩

/-- The jiffies of a tick can pass before the timer lies `2 ^ 31` jiffies behind. -/
def timerNear (s : State) (d : Nat) : Prop :=
  ∀ e ∈ s.expireTimer, -2 ^ 31 ≤ (e - s.jiffies).toInt - d

theorem Live.tick (h : Live s) {d : Nat} (hlocks : s.locksNear d .suspend)
    (htimer : s.timerNear d) :
    Live { s with jiffies := s.jiffies + BitVec.ofNat 32 d, elapsed := s.elapsed + d } := by
  constructor
  · intro l hl hauto
    have hpass : ((s.lock l).expires - (s.jiffies + .ofNat 32 d)).toInt = s.timeout l - d :=
      toInt_sub_add (hlocks l hl hauto)
    show ((s.lock l).expires - (s.jiffies + .ofNat 32 d)).toInt ≤ 0 ∨ _
    rcases h.covered l hl hauto with hle | huntimed | ⟨e, he, hle⟩
    · exact .inl (by omega)
    · exact .inr (.inl huntimed)
    · refine .inr (.inr ⟨e, he, ?_⟩)
      have hpasse : (e - (s.jiffies + .ofNat 32 d)).toInt = (e - s.jiffies).toInt - d :=
        toInt_sub_add (htimer e he)
      show ((s.lock l).expires - (s.jiffies + .ofNat 32 d)).toInt
        ≤ (e - (s.jiffies + .ofNat 32 d)).toInt
      omega
  · exact h.pending.congr id rfl rfl rfl rfl

/-- The timer fires: a lock that is still running stands beside one without a timeout. -/
theorem Live.expireWakeLocks (h : Live s) (ht : Tracked s) {e : BitVec 32}
    (he : s.expireTimer = some e) (hdue : (e - s.jiffies).toInt ≤ 0) : Live s.expireWakeLocks := by
  have hstopped : Tracked { s with expireTimer := none } := { ht with }
  have hanswer := hstopped.hasWakeLock_answer (t := .suspend)
  have hbound := hstopped.hasWakeLock_timeout
  have huntimed := hstopped.hasWakeLock_untimed
  -- a positive answer is the timeout of a lock that outlives the timer
  have hpos : ¬ 0 < (hasWakeLock { s with expireTimer := none } .suspend).2 := by
    intro hpos
    cases hanswer with
    | untimed _ _ _ hr => omega
    | timed hall _ _ hr =>
      rcases hr with hr | ⟨l, hl, _, htimeout⟩
      · omega
      · have hleft : s.timeout l = (hasWakeLock { s with expireTimer := none } .suspend).2 :=
          htimeout
        rcases h.covered l hl (hall l hl) with hle | ⟨k, hk, hauto⟩ | ⟨e', he', hle⟩
        · omega
        · have hauto' : (s.lock k).autoExpire = true := hall k hk
          cases hauto.symm.trans hauto'
        · cases he.symm.trans he'
          omega
  unfold State.expireWakeLocks
  dsimp only
  generalize hasWakeLock { s with expireTimer := none } .suspend = r at hbound huntimed hpos ⊢
  split
  · rename_i hzero
    refine ⟨?_, .armed (.queued rfl)⟩
    intro l hl _
    have hle : r.1.timeout l ≤ r.2 := hbound (by omega) l hl
    exact .inl (hzero ▸ hle)
  · have hfound : r.1.Untimed := huntimed (by omega)
    exact ⟨fun _ _ _ => .inr (.inl hfound), .armed (.untimed hfound)⟩

/-- `suspend` looks at the locks: it ends if one is active, and then nothing is lost. -/
theorem Live.suspendCheck (h : Live s) (ht : Tracked s) : Live s.suspendCheck := by
  have hpruned := pruned_hasWakeLock s .suspend
  refine ⟨hpruned.covered h.covered, ?_⟩
  cases ht.hasWakeLock_answer (t := .suspend) with
  | untimed l hl hauto hr =>
    have hfound : (s.hasWakeLock .suspend).1.Untimed := ht.hasWakeLock_untimed (by omega)
    exact .armed (.untimed hfound)
  | timed hall _ hstart hr =>
    rcases hr with hr | ⟨l, hl, hpos, htimeout⟩
    · refine .checked ?_
      simp [State.suspendCheck, hr]
    · rcases h.covered l hl (hall l hl) with hle | huntimed | ⟨e, he, _⟩
      · omega
      · have hfound := hpruned.untimed huntimed
        exact .armed (.untimed hfound)
      · exact .armed (.timer e (hpruned.expireTimer.trans he))

theorem Live.suspendEnd (h : Live s) (ht : Tracked s)
    (hunknown : (s.lock unknownWakeup).setup = (true, .suspend)) {n : BitVec 32}
    (hworker : s.worker = .suspending n) : Live (s.suspendEnd n) := by
  unfold State.suspendEnd
  dsimp only
  split
  · obtain ⟨hcovered, harmed⟩ := ht.wakeLockInternal_settles hunknown (some halfHz)
    exact ⟨hcovered, .armed (harmed.congr id rfl rfl)⟩
  · rename_i hevent
    refine ⟨h.covered, ?_⟩
    cases h.pending with
    | armed harmed => exact .armed (harmed.congr id rfl rfl)
    | started hother | checked hother => cases hworker.symm.trans hother
    | suspending hsuspending =>
      rw [hworker] at hsuspending
      injection hsuspending with heq
      exact absurd heq.symm hevent

end State

/-! ## Runs -/

/-- The last active lock of the type suspend without a timeout is not destroyed, and no expiry
lies `2 ^ 31` jiffies back. -/
def suspendGuard (s : State) : Label → Prop
  | .wakeLockDestroy l => l ∈ s.activeWakeLocks .suspend → (s.lock l).autoExpire = false →
      ∃ k ∈ s.activeWakeLocks .suspend, k ≠ l ∧ (s.lock k).autoExpire = false
  | .tick d => (s.locksNear d .suspend ∧ s.locksNear d .idle) ∧ s.timerNear d
  | _ => True

instance (s : State) (d : Nat) : Decidable (s.timerNear d) :=
  match h : s.expireTimer with
  | none => .isTrue (by simp [State.timerNear, h])
  | some e => decidable_of_iff (-2 ^ 31 ≤ (e - s.jiffies).toInt - d) (by simp [State.timerNear, h])

instance (s : State) (e : Label) : Decidable (suspendGuard s e) := by
  apply @Label.casesOn _ e <;> intros <;> unfold suspendGuard <;> infer_instance

variable {s : State}

theorem suspendGuard.held {e : Label} (h : suspendGuard s e) : heldGuard s e := by
  cases e with
  | tick d => exact h.1
  | _ => trivial

namespace State

theorem Live.exec {s' : State} {e : Label} (h : Live s) (hvalid : Valid s)
    (hguard : suspendGuard s e) (hexec : s.exec e = some s') : Live s' := by
  have ht := hvalid.tracked
  cases exec_does hexec with
  | wakeLockInit hinit => exact h.wakeLockInit ht hinit
  | wakeLockDestroy _ => exact h.wakeLockDestroy hguard
  | wakeLock hinit | wakeLockTimeout hinit => exact h.wakeLockInternal ht hinit _
  | wakeUnlock _ => exact h.wakeUnlock ht
  | hasWakeLock _ | powerSuspendLate => exact (pruned_hasWakeLock s _).live h
  | tick _ => exact h.tick hguard.1.1 hguard.2
  | expireTimer he hdue => exact h.expireWakeLocks ht he hdue
  | workStart => exact ⟨h.covered, .started rfl⟩
  | suspendCheck => exact h.suspendCheck ht
  | suspendEnter => exact ⟨h.covered, .suspending rfl⟩
  | suspendEnd hworker => exact h.suspendEnd ht hvalid.unknown hworker

theorem live_init (jiffies : BitVec 32) : Live (init jiffies) := by
  have hmain : (init jiffies).Untimed := ⟨mainWakeLock, List.mem_singleton.mpr rfl, rfl⟩
  exact ⟨fun _ _ _ => .inr (.inl hmain), .armed (.untimed hmain)⟩

end State

theorem live_of_reachable (hs : system.ReachableUnder suspendGuard s) : s.Live := by
  refine TransitionSystem.ReachableUnder.invariant_along (P := State.Live) ?_ ?_ hs
  · rintro s ⟨jiffies, rfl⟩
    exact State.live_init jiffies
  · intro s e s' hreach h hguard hexec
    have hheld : system.ReachableUnder heldGuard s := hreach.mono fun _ _ hg => hg.held
    exact h.exec (tracked_of_reachable hheld) hguard hexec

/-- In every run in which the last active lock of the type suspend without a timeout is not
destroyed, such a lock is active, or the timer is pending, or the work `suspend` is queued or
running. -/
theorem suspend_not_lost {s : State} (hs : system.ReachableUnder suspendGuard s) :
    (∃ l, (s.lock l).initialized = true ∧ (s.lock l).active = true ∧
      (s.lock l).type = .suspend ∧ (s.lock l).autoExpire = false) ∨
    s.expireTimer.isSome = true ∨ s.suspendWork = true ∨ s.worker ≠ .idle := by
  have hheld : system.ReachableUnder heldGuard s := hs.mono fun _ _ hg => hg.held
  cases (live_of_reachable hs).pending with
  | armed harmed =>
    cases harmed with
    | untimed huntimed =>
      obtain ⟨l, hl, hauto⟩ := huntimed
      obtain ⟨hinit, hactive, htype⟩ :=
        (((tracked_of_reachable hheld).tracked.agrees l).mem _).mp hl
      exact .inl ⟨l, hinit, hactive, htype, hauto⟩
    | timer e he =>
      rw [he]
      exact .inr (.inl rfl)
    | queued hwork => exact .inr (.inr (.inl hwork))
  | started hworker | checked hworker | suspending hworker =>
    rw [hworker]
    exact .inr (.inr (.inr (by simp)))

/-- `main_wake_lock` is released while a timed lock is active and destroyed: the timer is
still pending. -/
theorem suspend_not_lost_timer : ∃ s : State, s.activeWakeLocks .suspend = [] ∧
    s.suspendWork = false ∧ s.worker = .idle ∧ s.expireTimer.isSome = true := by
  have hstart : system.ReachableUnder suspendGuard (.init 0) := .init ⟨0, rfl⟩
  rcases hstart.exists_observed
    (P := fun s => s.activeWakeLocks .suspend = [] ∧ s.suspendWork = false ∧ s.worker = .idle)
    [.wakeLockInit 2 .suspend, .wakeLockTimeout 2 640, .wakeUnlock mainWakeLock, .tick 5,
      .wakeLockDestroy 2]
    (by decide +kernel) with ⟨s, hs, hactive, hwork, hworker⟩
  have hheld : system.ReachableUnder heldGuard s := hs.mono fun _ _ hg => hg.held
  rcases suspend_not_lost hs with ⟨l, hinit, hact, htype, _⟩ | htimer | hwork' | hworker'
  · have hmem :=
      (((tracked_of_reachable hheld).tracked.agrees l).mem .suspend).mpr ⟨hinit, hact, htype⟩
    rw [hactive] at hmem
    cases hmem
  · exact ⟨s, hactive, hwork, hworker, htimer⟩
  · cases hwork.symm.trans hwork'
  · exact absurd hworker hworker'

/-- A lock is taken, `main_wake_lock` is released, and the lock is destroyed: no lock is
active, and nothing will lead to a suspend. -/
theorem suspend_lost : ∃ s : State, system.Reachable s ∧
    (∀ l, ¬ ((s.lock l).initialized = true ∧ (s.lock l).active = true ∧
      (s.lock l).type = .suspend)) ∧
    s.expireTimer = none ∧ s.suspendWork = false ∧ s.worker = .idle := by
  have hstart : system.ReachableUnder heldGuard (.init 0) := .init ⟨0, rfl⟩
  rcases hstart.exists_observed
    (P := fun s => s.activeWakeLocks .suspend = [] ∧ s.expireTimer = none ∧ s.suspendWork = false ∧
      s.worker = .idle)
    [.wakeLockInit 2 .suspend, .wakeLock 2, .wakeUnlock mainWakeLock, .wakeLockDestroy 2]
    (by decide +kernel) with ⟨s, hs, hactive, hrest⟩
  refine ⟨s, hs.reachable, ?_, hrest⟩
  intro l hl
  have hmem := (((tracked_of_reachable hs).tracked.agrees l).mem .suspend).mpr hl
  rw [hactive] at hmem
  cases hmem

end LteModemKernel.WakeLock
