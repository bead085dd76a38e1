import LteModemKernel.WakeLock.Model

/-!
# The locks that are held

`has_wake_lock` answers from the list of active locks, stops at the first lock without a
timeout and expires locks on its way.  Against this stands the history of each lock: how it was
taken last, if it was not released since.  The invariant `Tracked` relates the flags and the
lists to this history.

A timeout is compared as a signed difference.  An expired lock that stays active for
`2 ^ 31` jiffies reads as unexpired, and this happens to idle locks, for which there is no
timer.

Main results:
- Theorem `scan_answer`: what the loop of `has_wake_lock_locked` returns.
- Theorem `tracked_of_reachable`: flags, lists and history agree in every run.
- Theorem `has_wake_lock_held`: `has_wake_lock` tells which locks are held, and
  `suspend` and `power_suspend_late` go on only if there is none.
-/

namespace LteModemKernel.WakeLock

open Lib Function List Option BitVec State

/-- Whether a lock is set up, and as what. -/
def Lock.setup (x : Lock) : Bool × LockType := (x.initialized, x.type)

variable {s' : State} {r hasLock : Int}

namespace State

variable {s : State} {l k : LockId} {t : LockType} {P : State → Prop} {ls : List LockId}

/-! ## The parts of a step -/

@[simp] theorem listDel_lock : (s.listDel l).lock = s.lock := rfl

@[simp] theorem listDel_active :
    (s.listDel l).activeWakeLocks t = (s.activeWakeLocks t).filter (· ≠ l) := rfl

@[simp] theorem setLock_lock {x : Lock} : (s.setLock l x).lock = update s.lock l x := rfl

@[simp] theorem setLock_active {x : Lock} : (s.setLock l x).activeWakeLocks = s.activeWakeLocks :=
  rfl

@[simp] theorem deactivate_lock :
    (s.deactivate l).lock
      = update s.lock l { s.lock l with active := false, autoExpire := false } := rfl

theorem expireWakeLock_lock_ne (h : k ≠ l) : (s.expireWakeLock l).lock k = s.lock k := by
  simp [expireWakeLock, h]

@[simp] theorem expireWakeLock_timeout : (s.expireWakeLock l).timeout k = s.timeout k := by
  unfold timeout
  by_cases h : k = l
  · subst h
    simp [expireWakeLock, deactivate, setLock, listDel]
  · rw [expireWakeLock_lock_ne h]
    rfl

/-! ## The scan -/

/-- A timed lock whose timeout has run out. -/
def Lapsed (s : State) (l : LockId) : Prop := (s.lock l).autoExpire = true ∧ s.timeout l ≤ 0

/-- What expiring a lapsed lock keeps, the scan keeps. -/
theorem scan_induct (hP : ∀ s l, P s → s.Lapsed l → P (s.expireWakeLock l)) :
    ∀ (ls : List LockId) (m : Int) (s : State), P s → P (scan ls m s).1
  | [], _, _, h => h
  | l :: rest, m, s, h => by
      unfold scan
      split
      · rename_i hauto
        split
        · rename_i hle
          exact scan_induct hP rest m _ (hP s l h ⟨hauto, hle⟩)
        · exact scan_induct hP rest _ s h
      · exact h

theorem hasWakeLock_induct (hP : ∀ s l, P s → s.Lapsed l → P (s.expireWakeLock l)) (s : State)
    (t : LockType) (h : P s) : P (s.hasWakeLock t).1 :=
  scan_induct hP _ _ s h

/-- The answer of a scan: −1 if there is a lock without a timeout, otherwise the largest timeout
among the locks and the value at the start. -/
inductive Answer (s : State) (ls : List LockId) (m : Int) (r : Int) : Prop where
  | untimed (l : LockId) (hl : l ∈ ls) (hauto : (s.lock l).autoExpire = false) (hr : r = -1)
  | timed (hauto : ∀ l ∈ ls, (s.lock l).autoExpire = true)
      (hle : ∀ l ∈ ls, s.timeout l ≤ r) (hm : m ≤ r)
      (hr : r = m ∨ ∃ l ∈ ls, 0 < r ∧ s.timeout l = r)

/-- An answer for the rest of a list is one for the whole list, if its head is timed. -/
theorem Answer.cons {m m' : Int} (h : Answer s ls m' r) (hauto : (s.lock l).autoExpire = true)
    (hle : s.timeout l ≤ m') (hm : m ≤ m') (hm' : m' = m ∨ 0 < m' ∧ s.timeout l = m') :
    Answer s (l :: ls) m r := by
  cases h with
  | untimed k hk hkauto hr => exact .untimed k (mem_cons_of_mem l hk) hkauto hr
  | timed hall hbound hstart hr =>
    refine .timed (forall_mem_cons.mpr ⟨hauto, hall⟩)
      (forall_mem_cons.mpr ⟨Int.le_trans hle hstart, hbound⟩) (Int.le_trans hm hstart) ?_
    rcases hr with hr | ⟨k, hk, hpos, hkr⟩
    · rcases hm' with hm' | ⟨hpos, hl⟩
      · exact .inl (hr.trans hm')
      · exact .inr ⟨l, mem_cons_self, by omega, by omega⟩
    · exact .inr ⟨k, mem_cons_of_mem l hk, hpos, hkr⟩

theorem Answer.congr {m : Int} (h : Answer s' ls m r)
    (hlock : ∀ k ∈ ls, (s'.lock k).autoExpire = (s.lock k).autoExpire)
    (htimeout : ∀ k ∈ ls, s'.timeout k = s.timeout k) : Answer s ls m r := by
  cases h with
  | untimed k hk hkauto hr => exact .untimed k hk ((hlock k hk).symm.trans hkauto) hr
  | timed hall hbound hstart hr =>
    refine .timed ?_ ?_ hstart ?_
    · intro k hk
      rw [← hlock k hk]
      exact hall k hk
    · intro k hk
      rw [← htimeout k hk]
      exact hbound k hk
    · rcases hr with hr | ⟨k, hk, hpos, hkr⟩
      · exact .inl hr
      · exact .inr ⟨k, hk, hpos, (htimeout k hk).symm.trans hkr⟩

/-- The scan answers for the list it is given. -/
theorem scan_answer : ∀ (ls : List LockId) (m : Int) (s : State), ls.Nodup → 0 ≤ m →
    Answer s ls m (scan ls m s).2
  | [], m, s, _, _ => .timed (by simp) (by simp) (Int.le_refl _) (.inl rfl)
  | l :: rest, m, s, hnodup, hm => by
      obtain ⟨hl, hrest⟩ := nodup_cons.mp hnodup
      unfold scan
      split
      · rename_i hauto
        split
        · rename_i hle
          have hans := scan_answer rest m (s.expireWakeLock l) hrest hm
          -- the lock that expires is not met again, as no lock is in the list twice
          have hsame : Answer s rest m (scan rest m (s.expireWakeLock l)).2 := by
            refine hans.congr (fun k hk => ?_) (fun k _ => expireWakeLock_timeout)
            have hne : k ≠ l := fun h => hl (h ▸ hk)
            rw [expireWakeLock_lock_ne hne]
          exact hsame.cons hauto (Int.le_trans hle hm) (Int.le_refl _) (.inl rfl)
        · split
          · exact (scan_answer rest _ s hrest (by omega)).cons hauto (Int.le_refl _) (by omega)
              (.inr ⟨by omega, rfl⟩)
          · exact (scan_answer rest m s hrest hm).cons hauto (by omega) (Int.le_refl _) (.inl rfl)
      · rename_i hauto
        exact .untimed l mem_cons_self (by simpa using hauto) rfl

/-! ## Flags, lists and history -/

/-- The flags of a lock, the lists it is in and its history agree. -/
structure Agrees (lock : Lock) (listed : LockType → Prop) (taken : Option Taken)
    (jiffies : BitVec 32) (elapsed : Int) : Prop where
  /-- An active lock is in the list of its type. -/
  mem : ∀ t, listed t ↔ lock.initialized = true ∧ lock.active = true ∧ lock.type = t
  /-- An active lock without a timeout was taken by `wake_lock`. -/
  untimed : taken = some .untimed ↔
    lock.initialized = true ∧ lock.active = true ∧ lock.autoExpire = false
  /-- An active lock with a timeout expires at its deadline. -/
  timed : lock.initialized = true → lock.active = true → lock.autoExpire = true →
    ∃ d, taken = some (.timed d) ∧ (lock.expires - jiffies).toInt = d - elapsed
  /-- A lock whose deadline is not over is active. -/
  deadline : ∀ d, taken = some (.timed d) → elapsed < d →
    lock.initialized = true ∧ lock.active = true ∧ lock.autoExpire = true

/-- All locks agree with their history, and no lock is in a list twice. -/
structure Tracked (s : State) : Prop where
  nodup : ∀ t, (s.activeWakeLocks t).Nodup
  agrees : ∀ l, Agrees (s.lock l) (l ∈ s.activeWakeLocks ·) (s.taken l) s.jiffies s.elapsed

/-- The locks other than `l` and the time are as before. -/
structure Others (l : LockId) (s s' : State) : Prop where
  lock : ∀ k, k ≠ l → s'.lock k = s.lock k
  taken : ∀ k, k ≠ l → s'.taken k = s.taken k
  jiffies : s'.jiffies = s.jiffies
  elapsed : s'.elapsed = s.elapsed

section

variable (h : Tracked s)
include h

/-- Locks other than `l` are as before, and `l` agrees with its own history. -/
theorem Tracked.store (hothers : Others l s s') (hnodup : ∀ t, (s'.activeWakeLocks t).Nodup)
    (hmem : ∀ t k, k ≠ l → (k ∈ s'.activeWakeLocks t ↔ k ∈ s.activeWakeLocks t))
    (hself : Agrees (s'.lock l) (l ∈ s'.activeWakeLocks ·) (s'.taken l) s'.jiffies s'.elapsed) :
    Tracked s' where
  nodup := hnodup
  agrees k := by
    by_cases hk : k = l
    · exact hk ▸ hself
    · rw [hothers.lock k hk, hothers.taken k hk, hothers.jiffies, hothers.elapsed]
      exact { h.agrees k with mem := fun t => (hmem t k hk).trans ((h.agrees k).mem t) }

/-- A lock becomes inactive, if its history then says that it is not held. -/
theorem Tracked.inactive (hothers : Others l s s')
    (hactive : ∀ t, s'.activeWakeLocks t = (s.activeWakeLocks t).filter (· ≠ l))
    (hinactive : (s'.lock l).initialized = true → (s'.lock l).active ≠ true)
    (huntimed : s'.taken l ≠ some .untimed)
    (hdeadline : ∀ d, s'.taken l = some (.timed d) → d ≤ s'.elapsed) : Tracked s' := by
  refine h.store hothers ?_ ?_ ⟨?_, ?_, ?_, ?_⟩
  · intro t
    rw [hactive]
    exact (h.nodup t).filter _
  · intro t k hk
    rw [hactive]
    simp [hk]
  · intro t
    rw [hactive]
    exact iff_of_false (by simp) fun hl => hinactive hl.1 hl.2.1
  · exact iff_of_false huntimed fun hl => hinactive hl.1 hl.2.1
  · exact fun hinit hact => absurd hact (hinactive hinit)
  · exact fun d htaken hlt => absurd hlt (Int.not_lt.mpr (hdeadline d htaken))

theorem Tracked.expireWakeLock (hl : s.Lapsed l) : Tracked (s.expireWakeLock l) := by
  refine h.inactive (l := l) ⟨fun k hk => expireWakeLock_lock_ne hk, fun _ _ => rfl, rfl, rfl⟩
    (fun _ => rfl) ?_ ?_ ?_
  · simp [State.expireWakeLock]
  · intro htaken
    obtain ⟨_, _, hauto⟩ := (h.agrees l).untimed.mp htaken
    rw [hl.1] at hauto
    cases hauto
  · intro d htaken
    -- the history cannot tell of a later deadline, as the lock would be active with it
    by_contra hlt
    have hlt' : s.elapsed < d := Int.not_le.mp hlt
    obtain ⟨hinit, hact, hauto⟩ := (h.agrees l).deadline d htaken hlt'
    obtain ⟨d', htaken', htimeout⟩ := (h.agrees l).timed hinit hact hauto
    cases htaken'.symm.trans htaken
    have hle : ((s.lock l).expires - s.jiffies).toInt ≤ 0 := hl.2
    omega

theorem Tracked.hasWakeLock : Tracked (s.hasWakeLock t).1 :=
  hasWakeLock_induct (fun _ _ h hl => h.expireWakeLock hl) s t h

theorem Tracked.updateTimer : Tracked (s.updateTimer hasLock) := by
  unfold State.updateTimer
  split
  · exact { h with }
  · split <;> exact { h with }

theorem Tracked.not_mem (hl : (s.lock l).initialized = false) : l ∉ s.activeWakeLocks t := by
  intro hmem
  rw [(h.agrees l).mem, hl] at hmem
  cases hmem.1

theorem Tracked.filter_raw (hl : (s.lock l).initialized = false) :
    (s.activeWakeLocks t).filter (· ≠ l) = s.activeWakeLocks t := by
  refine filter_eq_self.mpr ?_
  intro k hk
  simp only [ne_eq, decide_eq_true_eq]
  rintro rfl
  exact h.not_mem hl hk

/-- A lock that is set up is inactive. -/
theorem Tracked.wakeLockInit (hl : (s.lock l).initialized = false) :
    Tracked (s.wakeLockInit l t) := by
  refine h.inactive (l := l) ⟨?_, ?_, rfl, rfl⟩ (fun _ => (h.filter_raw hl).symm) ?_ ?_ ?_
  · intro k hk
    simp [State.wakeLockInit, hk]
  · intro k hk
    simp only [State.wakeLockInit, update_of_ne hk]
    rfl
  all_goals simp [State.wakeLockInit]

theorem Tracked.wakeLockDestroy : Tracked (s.wakeLockDestroy l) := by
  refine h.inactive (l := l) ⟨?_, ?_, rfl, rfl⟩ (fun _ => rfl) ?_ ?_ ?_
  · intro k hk
    simp [State.wakeLockDestroy, hk]
  · intro k hk
    simp only [State.wakeLockDestroy, update_of_ne hk]
    rfl
  all_goals simp [State.wakeLockDestroy]

theorem Tracked.released : Tracked
    { s.deactivate l with taken := update (s.deactivate l).taken l none } := by
  refine h.inactive (l := l) ⟨?_, ?_, rfl, rfl⟩ (fun _ => rfl) ?_ ?_ ?_
  · intro k hk
    simp [hk]
  · intro k hk
    simp only [update_of_ne hk]
    rfl
  all_goals simp

theorem Tracked.wakeUnlock : Tracked (s.wakeUnlock l) := by
  unfold State.wakeUnlock
  dsimp only
  split
  · exact h.released
  · exact h.released.hasWakeLock.updateTimer

/-- A lock becomes active, if it agrees with its own history then. -/
theorem Tracked.active (hothers : Others l s s')
    (hactive : ∀ t, (s'.activeWakeLocks t).Perm (if t = (s.lock l).type then
      l :: (s.activeWakeLocks t).filter (· ≠ l) else (s.activeWakeLocks t).filter (· ≠ l)))
    (hl : (s'.lock l).initialized = true ∧ (s'.lock l).active = true)
    (htype : (s'.lock l).type = (s.lock l).type)
    (huntimed : s'.taken l = some .untimed ↔ (s'.lock l).autoExpire = false)
    (htimed : (s'.lock l).autoExpire = true →
      ∃ d, s'.taken l = some (.timed d) ∧ s'.timeout l = d - s'.elapsed)
    (hdeadline : ∀ d, s'.taken l = some (.timed d) → (s'.lock l).autoExpire = true) :
    Tracked s' := by
  refine h.store hothers ?_ ?_ ⟨?_, by simp [huntimed, hl], fun _ _ => htimed,
    fun d htaken _ => ⟨hl.1, hl.2, hdeadline d htaken⟩⟩
  · intro t
    have hfilter : ((s.activeWakeLocks t).filter (· ≠ l)).Nodup := (h.nodup t).filter _
    rw [(hactive t).nodup_iff]
    split
    · exact nodup_cons.mpr ⟨by simp, hfilter⟩
    · exact hfilter
  · intro t k hk
    rw [(hactive t).mem_iff]
    split <;> simp [hk]
  · intro t
    rw [(hactive t).mem_iff, htype]
    split
    · rename_i ht
      simp [hl, ht]
    · rename_i ht
      simp [Ne.symm ht]

theorem Tracked.activate (hl : (s.lock l).initialized = true) (timeout : Option (BitVec 32)) :
    Tracked (s.activate l timeout) := by
  refine h.active (l := l) ⟨?_, ?_, ?_, ?_⟩ ?_ ?_ ?_ ?_ ?_ ?_
  · cases timeout <;> exact fun k hk => by simp [State.activate, hk]
  · cases timeout <;> exact fun k hk => update_of_ne hk _ _
  · cases timeout <;> rfl
  · cases timeout <;> rfl
  · intro t
    by_cases ht : t = (s.lock l).type
    · subst ht
      cases timeout <;> simp [State.activate]
    · cases timeout <;> simp [State.activate, ht]
  · cases timeout <;> simp [State.activate, hl]
  · cases timeout <;> simp [State.activate]
  · cases timeout <;> simp [State.activate]
  · cases timeout with
    | none => simp [State.activate]
    | some timeout =>
      intro _
      refine ⟨s.elapsed + timeout.toInt, update_self _ _ _, ?_⟩
      have hexp : s.jiffies + timeout - s.jiffies = timeout := by
        rw [add_comm, add_sub_cancel]
      have hleft : timeout.toInt = s.elapsed + timeout.toInt - s.elapsed := by omega
      simp only [State.activate, State.timeout, setLock_lock, update_self]
      exact (congrArg BitVec.toInt hexp).trans hleft
  · cases timeout <;> simp [State.activate]

theorem Tracked.wakeLockInternal (hl : (s.lock l).initialized = true)
    (timeout : Option (BitVec 32)) : Tracked (s.wakeLockInternal l timeout) := by
  have hactive := h.activate hl timeout
  have hevent : Tracked { s.activate l timeout with
      currentEventNum := (s.activate l timeout).currentEventNum + 1 } :=
    { hactive with }
  unfold State.wakeLockInternal
  dsimp only
  split
  · exact hactive
  · split
    · exact hevent.hasWakeLock.updateTimer
    · exact hevent.updateTimer

end

/-! ## Time -/

/-- The jiffies of a tick can pass before an active lock of the list lies `2 ^ 31` jiffies
behind its expiry. -/
def locksNear (s : State) (d : Nat) (t : LockType) : Prop :=
  ∀ l ∈ s.activeWakeLocks t, (s.lock l).autoExpire = true → -2 ^ 31 ≤ s.timeout l - d

instance (d : Nat) : Decidable (s.locksNear d t) :=
  inferInstanceAs (Decidable (∀ l ∈ s.activeWakeLocks t, _))

end State

/-- A signed difference goes down with the time, as long as it does not wrap. -/
theorem toInt_sub_add {x j : BitVec 32} {d : Nat} (h : -2 ^ 31 ≤ (x - j).toInt - d) :
    (x - (j + BitVec.ofNat 32 d)).toInt = (x - j).toInt - d := by
  have hsub : x - (j + .ofNat 32 d) = (x - j) - .ofNat 32 d := by
    simp only [BitVec.sub_eq_add_neg, BitVec.neg_add, BitVec.add_assoc]
  have hd : (BitVec.ofNat 32 d).toInt = (d : Int).bmod (2 ^ 32) := BitVec.toInt_ofNat' d
  have hlt := toInt_lt (x := x - j)
  rw [hsub, toInt_sub, hd, Int.sub_bmod_bmod]
  exact Int.bmod_eq_of_le (by omega) (by omega)

namespace State

variable {s : State} {l k : LockId} {t : LockType}

theorem Tracked.tick (h : Tracked s) {d : Nat} (hnear : ∀ t, s.locksNear d t) :
    Tracked { s with jiffies := s.jiffies + BitVec.ofNat 32 d, elapsed := s.elapsed + d } := by
  refine ⟨h.nodup, fun l => { h.agrees l with timed := ?_, deadline := ?_ }⟩
  · intro hinit hact hauto
    obtain ⟨dl, htaken, htimeout⟩ := (h.agrees l).timed hinit hact hauto
    have hmem : l ∈ s.activeWakeLocks (s.lock l).type := ((h.agrees l).mem _).mpr ⟨hinit, hact, rfl⟩
    refine ⟨dl, htaken, ?_⟩
    have hpass := toInt_sub_add (hnear _ l hmem hauto)
    show ((s.lock l).expires - (s.jiffies + .ofNat 32 d)).toInt = dl - (s.elapsed + d)
    omega
  · intro dl htaken hlt
    exact (h.agrees l).deadline dl htaken (by
      have : s.elapsed + d < dl := hlt
      omega)

/-! ## The locks that are set up -/

theorem hasWakeLock_setup : ((s.hasWakeLock t).1.lock l).setup = (s.lock l).setup := by
  refine hasWakeLock_induct (P := fun s' => (s'.lock l).setup = (s.lock l).setup)
    ?_ s t rfl
  intro s' k h _
  by_cases hk : l = k
  · subst hk
    simpa [expireWakeLock, Lock.setup] using h
  · rw [expireWakeLock_lock_ne hk]
    exact h

@[simp] theorem updateTimer_lock : (s.updateTimer hasLock).lock = s.lock := by
  unfold updateTimer
  split
  · rfl
  · split <;> rfl

theorem wakeLockInternal_setup {timeout : Option (BitVec 32)} :
    ((s.wakeLockInternal k timeout).lock l).setup = (s.lock l).setup := by
  have hactivate : ((s.activate k timeout).lock l).setup = (s.lock l).setup := by
    by_cases hk : l = k
    · subst hk
      cases timeout <;> simp [activate, Lock.setup]
    · cases timeout <;> simp [activate, hk]
  unfold wakeLockInternal
  dsimp only
  split
  · exact hactivate
  · split
    · rw [updateTimer_lock, hasWakeLock_setup]
      exact hactivate
    · exact hactivate

theorem wakeUnlock_setup : ((s.wakeUnlock k).lock l).setup = (s.lock l).setup := by
  have hdeactivate : ((s.deactivate k).lock l).setup = (s.lock l).setup := by
    by_cases hk : l = k
    · subst hk
      simp [Lock.setup]
    · simp [hk]
  unfold wakeUnlock
  dsimp only
  split
  · exact hdeactivate
  · rw [updateTimer_lock, hasWakeLock_setup]
    exact hdeactivate

/-- What a step does. -/
inductive Does (s : State) : Label → State → Prop where
  | wakeLockInit {l : LockId} {t : LockType} (hl : (s.lock l).initialized = false) :
      Does s (.wakeLockInit l t) (s.wakeLockInit l t)
  | wakeLockDestroy (l : LockId) : Does s (.wakeLockDestroy l) (s.wakeLockDestroy l)
  | wakeLock {l : LockId} (hl : (s.lock l).initialized = true) :
      Does s (.wakeLock l) (s.wakeLockInternal l none)
  | wakeLockTimeout {l : LockId} {timeout} (hl : (s.lock l).initialized = true) :
      Does s (.wakeLockTimeout l timeout) (s.wakeLockInternal l (some timeout))
  | wakeUnlock (l : LockId) : Does s (.wakeUnlock l) (s.wakeUnlock l)
  | hasWakeLock (t : LockType) : Does s (.hasWakeLock t) (s.hasWakeLock t).1
  | tick (d : Nat) : Does s (.tick d)
      { s with jiffies := s.jiffies + BitVec.ofNat 32 d, elapsed := s.elapsed + d }
  | expireTimer {e} (he : s.expireTimer = some e) (hdue : (e - s.jiffies).toInt ≤ 0) :
      Does s .expireTimer s.expireWakeLocks
  | workStart : Does s .workStart { s with suspendWork := false, worker := .started }
  | suspendCheck : Does s .suspendCheck s.suspendCheck
  | suspendEnter : Does s .suspendEnter { s with worker := .suspending s.currentEventNum }
  | powerSuspendLate : Does s .powerSuspendLate (s.hasWakeLock .suspend).1
  | suspendEnd {n} (hworker : s.worker = .suspending n) :
      Does s .suspendEnd (s.suspendEnd n)

theorem exec_does {e : Label} (h : s.exec e = some s') : Does s e s' := by
  cases e with
  | wakeLockInit k t =>
    obtain ⟨hk, ⟨⟩⟩ := ite_none_left_eq_some.mp h
    exact .wakeLockInit (by simpa using hk)
  | wakeLock k | wakeLockTimeout k timeout =>
    obtain ⟨hk, ⟨⟩⟩ := ite_none_right_eq_some.mp h
    constructor
    exact hk
  | wakeLockDestroy k | wakeUnlock k | workStart | suspendCheck | suspendEnter =>
    obtain ⟨-, ⟨⟩⟩ := ite_none_right_eq_some.mp h
    constructor
  | hasWakeLock t | tick d =>
    cases h
    constructor
  | expireTimer =>
    simp only [exec] at h
    split at h
    · cases h
    · rename_i e he
      obtain ⟨hdue, ⟨⟩⟩ := ite_none_right_eq_some.mp h
      exact .expireTimer he hdue
  | powerSuspendLate =>
    simp only [exec] at h
    split at h
    · cases h
      exact .powerSuspendLate
    · cases h
  | suspendEnd =>
    simp only [exec] at h
    split at h
    · rename_i n hworker
      cases h
      exact .suspendEnd hworker
    · cases h

/-- A lock that is set up stays so, with its type, until it is destroyed. -/
theorem exec_setup {e : Label} (h : s.exec e = some s') (hl : (s.lock l).setup = (true, t))
    (he : e ≠ .wakeLockDestroy l) : (s'.lock l).setup = (true, t) := by
  cases exec_does h with
  | @wakeLockInit k t' hk =>
    have hne : l ≠ k := by
      rintro rfl
      rw [Lock.setup, hk] at hl
      cases hl
    simpa [wakeLockInit, hne] using hl
  | wakeLockDestroy k =>
    have hk : l ≠ k := by
      rintro rfl
      exact he rfl
    simpa [wakeLockDestroy, hk] using hl
  | wakeLock _ | wakeLockTimeout _ => exact wakeLockInternal_setup.trans hl
  | wakeUnlock _ => exact wakeUnlock_setup.trans hl
  | hasWakeLock _ | suspendCheck | powerSuspendLate => exact hasWakeLock_setup.trans hl
  | tick _ | workStart | suspendEnter => exact hl
  | expireTimer _ _ =>
    unfold expireWakeLocks
    dsimp only
    split <;> exact hasWakeLock_setup.trans hl
  | suspendEnd _ =>
    unfold suspendEnd
    dsimp only
    split
    · exact wakeLockInternal_setup.trans hl
    · exact hl

end State

/-! ## Runs -/

/-- No active lock lies `2 ^ 31` jiffies behind its expiry. -/
def heldGuard (s : State) : Label → Prop
  | .tick d => s.locksNear d .suspend ∧ s.locksNear d .idle
  | _ => True

instance (s : State) (e : Label) : Decidable (heldGuard s e) := by
  cases e <;> simp only [heldGuard] <;> infer_instance

namespace State

/-- What holds between the steps: the agreement, and `unknown_wakeup` is set up. -/
structure Valid (s : State) : Prop where
  tracked : Tracked s
  unknown : (s.lock unknownWakeup).setup = (true, .suspend)

theorem tracked_blank (jiffies : BitVec 32) : Tracked (blank jiffies) := by
  refine ⟨fun t => nodup_nil, fun l => ?_⟩
  constructor <;> simp [blank, Lock.raw]

theorem valid_init (jiffies : BitVec 32) : Valid (init jiffies) := by
  have hmain : Tracked ((blank jiffies).wakeLockInit mainWakeLock .suspend) :=
    (tracked_blank jiffies).wakeLockInit rfl
  have hlocked : Tracked (((blank jiffies).wakeLockInit mainWakeLock .suspend).wakeLock
      mainWakeLock) :=
    hmain.wakeLockInternal rfl none
  exact ⟨hlocked.wakeLockInit rfl, rfl⟩

theorem Tracked.exec {s : State} {e : Label} (h : Tracked s)
    (hunknown : (s.lock unknownWakeup).setup = (true, .suspend)) (hguard : heldGuard s e)
    (hexec : s.exec e = some s') : Tracked s' := by
  cases exec_does hexec with
  | wakeLockInit hinit => exact h.wakeLockInit hinit
  | wakeLockDestroy _ => exact h.wakeLockDestroy
  | wakeLock hinit | wakeLockTimeout hinit => exact h.wakeLockInternal hinit _
  | wakeUnlock _ => exact h.wakeUnlock
  | hasWakeLock _ | powerSuspendLate => exact h.hasWakeLock
  | tick d =>
    refine h.tick (fun t => ?_)
    cases t with
    | suspend => exact hguard.1
    | idle => exact hguard.2
  | expireTimer _ _ =>
    have hstopped : Tracked { s with expireTimer := none } := { h with }
    unfold expireWakeLocks
    dsimp only
    split
    · exact { hstopped.hasWakeLock with }
    · exact hstopped.hasWakeLock
  | workStart | suspendEnter => exact { h with }
  | suspendCheck => exact { h.hasWakeLock (t := .suspend) with }
  | suspendEnd _ =>
    unfold suspendEnd
    dsimp only
    split
    · exact { h.wakeLockInternal (congrArg Prod.fst hunknown) (some halfHz) with }
    · exact { h with }

end State

theorem tracked_of_reachable {s : State} (hs : system.ReachableUnder heldGuard s) : s.Valid := by
  refine hs.invariant (fun s ⟨jiffies, h⟩ => h ▸ valid_init jiffies) ?_
  intro s e s' h hguard hexec
  refine ⟨h.tracked.exec h.unknown hguard hexec, exec_setup hexec h.unknown ?_⟩
  rintro rfl
  simp [system, exec] at hexec

namespace State

variable {s : State} {l : LockId} {t : LockType}

/-! ## The answer of has_wake_lock -/

/-- A lock of a type was last taken without a timeout and not released since. -/
def HeldUntimed (s : State) (t : LockType) (l : LockId) : Prop :=
  (s.lock l).type = t ∧ s.taken l = some .untimed

/-- A lock of a type was last taken with a timeout that has not run out, and not released since;
so many jiffies remain. -/
def HeldFor (s : State) (t : LockType) (l : LockId) (r : Int) : Prop :=
  (s.lock l).type = t ∧ s.taken l = some (.timed (s.elapsed + r)) ∧ 0 < r

theorem Tracked.heldUntimed_iff (h : Tracked s) :
    s.HeldUntimed t l ↔ l ∈ s.activeWakeLocks t ∧ (s.lock l).autoExpire = false := by
  unfold HeldUntimed
  rw [(h.agrees l).untimed, (h.agrees l).mem]
  tauto

/-- The locks held with a timeout are those of the list whose timeout is positive. -/
theorem Tracked.heldFor_iff (h : Tracked s) :
    s.HeldFor t l r ↔ l ∈ s.activeWakeLocks t ∧ (s.lock l).autoExpire = true ∧
      s.timeout l = r ∧ 0 < r := by
  unfold timeout
  constructor
  · rintro ⟨htype, htaken, hpos⟩
    obtain ⟨hinit, hact, hauto⟩ := (h.agrees l).deadline _ htaken (by omega)
    obtain ⟨d, htaken', htimeout⟩ := (h.agrees l).timed hinit hact hauto
    cases htaken.symm.trans htaken'
    exact ⟨((h.agrees l).mem t).mpr ⟨hinit, hact, htype⟩, hauto, by omega, hpos⟩
  · rintro ⟨hmem, hauto, htimeout, hpos⟩
    obtain ⟨hinit, hact, htype⟩ := ((h.agrees l).mem t).mp hmem
    obtain ⟨d, htaken, htimeout'⟩ := (h.agrees l).timed hinit hact hauto
    have hd : d = s.elapsed + r := by omega
    exact ⟨htype, hd ▸ htaken, hpos⟩

theorem Tracked.hasWakeLock_answer (h : Tracked s) :
    Answer s (s.activeWakeLocks t) 0 (s.hasWakeLock t).2 :=
  scan_answer _ 0 s (h.nodup t) (Int.le_refl 0)

theorem Tracked.hasWakeLock_held (h : Tracked s) (t : LockType) :
    ((s.hasWakeLock t).2 = -1 ↔ ∃ l, s.HeldUntimed t l) ∧
    ((¬ ∃ l, s.HeldUntimed t l) →
      (∀ l r, s.HeldFor t l r → r ≤ (s.hasWakeLock t).2) ∧
      ((s.hasWakeLock t).2 ≠ 0 → ∃ l, s.HeldFor t l (s.hasWakeLock t).2) ∧
      ((s.hasWakeLock t).2 = 0 ↔ ∀ l r, ¬ s.HeldFor t l r)) := by
  have hans := h.hasWakeLock_answer (t := t)
  generalize (s.hasWakeLock t).2 = ret at hans
  cases hans with
  | untimed l hl hauto hr =>
    have hheld : ∃ l, s.HeldUntimed t l := ⟨l, h.heldUntimed_iff.mpr ⟨hl, hauto⟩⟩
    exact ⟨⟨fun _ => hheld, fun _ => hr⟩, fun hnone => absurd hheld hnone⟩
  | timed hall hbound hstart hr =>
    have hnone : ¬ ∃ l, s.HeldUntimed t l := by
      rintro ⟨l, hl⟩
      obtain ⟨hmem, hauto⟩ := h.heldUntimed_iff.mp hl
      rw [hall l hmem] at hauto
      cases hauto
    have hle (l r) (hl : s.HeldFor t l r) : r ≤ ret := by
      obtain ⟨hmem, _, htimeout, _⟩ := h.heldFor_iff.mp hl
      have := hbound l hmem
      omega
    have hmax : ret ≠ 0 → ∃ l, s.HeldFor t l ret := by
      intro hret
      rcases hr with hr | ⟨l, hl, hpos, htimeout⟩
      · exact absurd hr hret
      · exact ⟨l, h.heldFor_iff.mpr ⟨hl, hall l hl, htimeout, hpos⟩⟩
    refine ⟨⟨fun hret => by omega, fun hheld => absurd hheld hnone⟩, fun _ => ⟨hle, hmax, ?_⟩⟩
    constructor
    · intro hret l r hl
      have := hle l r hl
      have := hl.2.2
      omega
    · intro hfree
      by_contra hret
      obtain ⟨l, hl⟩ := hmax hret
      exact hfree l ret hl

/-- No lock of a type is held. -/
def Free (s : State) (t : LockType) : Prop :=
  (∀ l, ¬ s.HeldUntimed t l) ∧ ∀ l r, ¬ s.HeldFor t l r

/-- `has_wake_lock` returns 0 exactly if no lock is held. -/
theorem Tracked.hasWakeLock_zero (h : Tracked s) : (s.hasWakeLock t).2 = 0 ↔ s.Free t := by
  obtain ⟨huntimed, htimed⟩ := h.hasWakeLock_held t
  constructor
  · intro hzero
    have hnone : ¬ ∃ l, s.HeldUntimed t l := by
      rw [← huntimed, hzero]
      decide
    exact ⟨not_exists.mp hnone, (htimed hnone).2.2.mp hzero⟩
  · rintro ⟨hnone, hfree⟩
    exact (htimed (not_exists.mpr hnone)).2.2.mpr hfree

end State

/-- In every run, `has_wake_lock` returns −1 exactly if a lock of the type was last taken
without a timeout and not released since.  Otherwise it returns the largest time that remains
to the locks taken with a timeout that has not run out, and 0 exactly if there is none.
`power_suspend_late` returns 0, and `suspend` goes on, only if no lock is held. -/
theorem has_wake_lock_held {s : State} (hs : system.ReachableUnder heldGuard s) :
    (∀ t,
      ((s.hasWakeLock t).2 = -1 ↔ ∃ l, s.HeldUntimed t l) ∧
      ((¬ ∃ l, s.HeldUntimed t l) →
        (∀ l r, s.HeldFor t l r → r ≤ (s.hasWakeLock t).2) ∧
        ((s.hasWakeLock t).2 ≠ 0 → ∃ l, s.HeldFor t l (s.hasWakeLock t).2) ∧
        ((s.hasWakeLock t).2 = 0 ↔ ∀ l r, ¬ s.HeldFor t l r))) ∧
    (s.powerSuspendLate.2 = 0 → s.Free .suspend) ∧
    (∀ s', s.exec .suspendCheck = some s' → s'.worker ≠ .idle → s.Free .suspend) := by
  have htracked := (tracked_of_reachable hs).tracked
  refine ⟨htracked.hasWakeLock_held, ?_, ?_⟩
  · intro hlate
    refine htracked.hasWakeLock_zero.mp ?_
    simp only [powerSuspendLate] at hlate
    split at hlate
    · cases hlate
    · rename_i hzero
      simpa using hzero
  · intro s' hexec hworker
    refine htracked.hasWakeLock_zero.mp ?_
    simp only [exec, ite_none_right_eq_some, some.injEq] at hexec
    obtain ⟨_, rfl⟩ := hexec
    simp only [suspendCheck] at hworker
    split at hworker
    · exact absurd rfl hworker
    · rename_i hzero
      simpa using hzero

/-- A timed lock is held when `main_wake_lock` is released, and vetoes suspend for the
95 jiffies that remain. -/
theorem has_wake_lock_held_timed : ∃ s : State, (s.hasWakeLock .suspend).2 = 95 ∧
    (∃ l, s.HeldFor .suspend l 95) ∧ s.powerSuspendLate.2 ≠ 0 := by
  have hstart : system.ReachableUnder heldGuard (.init 0) := .init ⟨0, rfl⟩
  rcases hstart.exists_observed
    (P := fun s => (s.hasWakeLock .suspend).2 = 95 ∧ s.powerSuspendLate.2 ≠ 0)
    [.wakeLockInit 2 .suspend, .wakeLockTimeout 2 100, .wakeUnlock mainWakeLock, .tick 5]
    (by decide +kernel) with ⟨s, hs, hret, hlate⟩
  obtain ⟨huntimed, htimed⟩ := (has_wake_lock_held hs).1 .suspend
  have hnone : ¬ ∃ l, s.HeldUntimed .suspend l := by
    rw [← huntimed, hret]
    decide
  have hheld := (htimed hnone).2.1 (by rw [hret]; decide)
  rw [hret] at hheld
  exact ⟨s, hret, hheld, hlate⟩

/-- The idle lock 2 was taken for one jiffy, and `2 ^ 31 + 2` jiffies have passed. -/
def lapsedIdle : State :=
  let s := ((init 0).wakeLockInit 2 .idle).wakeLockTimeout 2 1
  { s with
    jiffies := s.jiffies + BitVec.ofNat 32 (2 ^ 31 + 2)
    elapsed := s.elapsed + (2 ^ 31 + 2 : Nat) }

/-- The history of this state. -/
theorem lapsedIdle_taken (l : LockId) (h : (lapsedIdle.lock l).type = .idle) :
    lapsedIdle.taken l = if l = 2 then some (.timed 1) else none := by
  have htaken : lapsedIdle.taken = update (update (update
      (update (update (fun _ => none) 0 none) 0 (some .untimed)) 1 none) 2 none)
      2 (some (.timed 1)) := rfl
  by_cases h2 : l = 2
  · subst h2
    rfl
  · by_cases h0 : l = 0
    · subst h0
      cases h
    · simp [htaken, h2, h0, update_apply]

/-- The signed difference wraps: `has_wake_lock` reports that time remains, where no lock is
held. -/
theorem has_wake_lock_wraps : system.Reachable lapsedIdle ∧ lapsedIdle.Free .idle ∧
    (lapsedIdle.hasWakeLock .idle).2 = 2 ^ 31 - 1 := by
  have hstart : system.Reachable (.init 0) := .init ⟨0, rfl⟩
  have hrun : TransitionSystem.runLabels exec (init 0)
      [.wakeLockInit 2 .idle, .wakeLockTimeout 2 1, .tick (2 ^ 31 + 2)] = some lapsedIdle := rfl
  have helapsed : lapsedIdle.elapsed = 2 ^ 31 + 2 := rfl
  refine ⟨hstart.runLabels (fun _ _ _ h => h) hrun, ⟨?_, ?_⟩, by decide +kernel⟩
  · rintro l ⟨htype, htaken⟩
    rw [lapsedIdle_taken l htype] at htaken
    split at htaken <;> cases htaken
  · rintro l r ⟨htype, htaken, hpos⟩
    rw [lapsedIdle_taken l htype] at htaken
    split at htaken
    · injection htaken with heq
      injection heq with heq
      omega
    · cases htaken

end LteModemKernel.WakeLock
