import LteModemKernel.Lib.Runs

/-!
# Wake locks

The model of `kernel/power/wakelock.c`.  A wake lock of the type `WAKE_LOCK_SUSPEND`
keeps the system from suspending while it is active.  The active locks of a type are in one
list, all others in the list `inactive_locks`.  When the last lock of this type is released
or times out, the work `suspend` is queued.

Everything that holds `list_lock` is one event.  The work `suspend` runs in a thread of
its own and is a sequence of events.  `unsigned long` has 32 bits.
-/

namespace LteModemKernel.WakeLock

open Lib Function

/-! ## Locks -/

/-- A `struct wake_lock`, by its place among all that there are. -/
abbrev LockId := Nat

/-- `main_wake_lock`. -/
def mainWakeLock : LockId := 0

/-- `unknown_wakeup`. -/
def unknownWakeup : LockId := 1

/-- `WAKE_LOCK_SUSPEND` and `WAKE_LOCK_IDLE`. -/
inductive LockType where
  | suspend | idle
  deriving DecidableEq, Repr

/-- `struct wake_lock`: its flags and `expires`. -/
structure Lock where
  type : LockType
  initialized : Bool
  active : Bool
  autoExpire : Bool
  expires : BitVec 32
  deriving DecidableEq, Repr

/-- Memory in which no lock is set up. -/
def Lock.raw : Lock := ⟨.suspend, false, false, false, 0⟩

/-- How a lock was taken last, if it was not released or destroyed since. -/
inductive Taken where
  /-- By `wake_lock`. -/
  | untimed
  /-- By `wake_lock_timeout`, with the time at which the timeout runs out. -/
  | timed (deadline : Int)
  deriving DecidableEq, Repr

/-- Where the work `suspend` is. -/
inductive Worker where
  | idle
  /-- Before the call of `has_wake_lock`. -/
  | started
  /-- Before `entry_event_num` is read. -/
  | checked
  /-- In `sys_sync` or `pm_suspend`. -/
  | suspending (entryEventNum : BitVec 32)
  deriving DecidableEq, Repr

/-- The state of the wake locks. -/
structure State where
  lock : LockId → Lock
  activeWakeLocks : LockType → List LockId
  inactiveLocks : List LockId
  jiffies : BitVec 32
  currentEventNum : BitVec 32
  /-- `expire_timer`, if it is pending. -/
  expireTimer : Option (BitVec 32)
  /-- `suspend_work` is queued. -/
  suspendWork : Bool
  worker : Worker
  /-- The jiffies that have passed so far. -/
  elapsed : Int
  /-- How the locks were taken last. -/
  taken : LockId → Option Taken

/-- `HZ / 2`, with the `HZ` of the OMAP timer. -/
def halfHz : BitVec 32 := 64

/-- `LONG_MAX`. -/
def longMax : BitVec 32 := 0x7fffffff

namespace State

/-! ## The lists -/

/-- `list_del` of the link of a lock, which is in one of the lists. -/
def listDel (s : State) (l : LockId) : State :=
  { s with
    activeWakeLocks := fun t => (s.activeWakeLocks t).filter (· ≠ l)
    inactiveLocks := s.inactiveLocks.filter (· ≠ l) }

/-- The flags and the expiry of a lock are set. -/
def setLock (s : State) (l : LockId) (lock : Lock) : State :=
  { s with lock := update s.lock l lock }

/-- A lock is moved to `inactive_locks`, with its flags cleared. -/
def deactivate (s : State) (l : LockId) : State :=
  let s := (s.setLock l { s.lock l with active := false, autoExpire := false }).listDel l
  { s with inactiveLocks := l :: s.inactiveLocks }

/-- `expire_wake_lock`. -/
def expireWakeLock (s : State) (l : LockId) : State := s.deactivate l

/-- `lock->expires - jiffies`, as a `long`. -/
def timeout (s : State) (l : LockId) : Int := ((s.lock l).expires - s.jiffies).toInt

/-- The loop of `has_wake_lock_locked`. -/
def scan : List LockId → Int → State → State × Int
  | [], maxTimeout, s => (s, maxTimeout)
  | l :: rest, maxTimeout, s =>
    if (s.lock l).autoExpire then
      if s.timeout l ≤ 0 then scan rest maxTimeout (s.expireWakeLock l)
      else scan rest (if s.timeout l > maxTimeout then s.timeout l else maxTimeout) s
    else (s, -1)

/-- `has_wake_lock_locked`, and `has_wake_lock` around it. -/
def hasWakeLock (s : State) (t : LockType) : State × Int :=
  scan (s.activeWakeLocks t) 0 s

/-- `queue_work` of `suspend_work`. -/
def queueSuspend (s : State) : State := { s with suspendWork := true }

/-- What `wake_lock_internal` and `wake_unlock` do with the time that is left: the timer
is started, or it is stopped and the work is queued if there is no lock. -/
def updateTimer (s : State) (hasLock : Int) : State :=
  if hasLock > 0 then { s with expireTimer := some (s.jiffies + BitVec.ofInt 32 hasLock) }
  else
    let s := { s with expireTimer := none }
    if hasLock = 0 then s.queueSuspend else s

/-! ## The interface -/

/-- `wake_lock_init`, of a lock that is not set up. -/
def wakeLockInit (s : State) (l : LockId) (t : LockType) : State :=
  let s := s.setLock l
    { s.lock l with type := t, initialized := true, active := false, autoExpire := false }
  { s with
    inactiveLocks := l :: s.inactiveLocks
    taken := update s.taken l none }

/-- `wake_lock_destroy`. -/
def wakeLockDestroy (s : State) (l : LockId) : State :=
  let s := (s.setLock l { s.lock l with initialized := false }).listDel l
  { s with taken := update s.taken l none }

/-- A lock is put in the list of its type: at the end with a timeout, otherwise in front. -/
def activate (s : State) (l : LockId) (timeout : Option (BitVec 32)) : State :=
  let t := (s.lock l).type
  let s := s.listDel l
  match timeout with
  | some timeout =>
    let s := s.setLock l
      { s.lock l with active := true, autoExpire := true, expires := s.jiffies + timeout }
    { s with
      activeWakeLocks := update s.activeWakeLocks t (s.activeWakeLocks t ++ [l])
      taken := update s.taken l (some (.timed (s.elapsed + timeout.toInt))) }
  | none =>
    let s := s.setLock l
      { s.lock l with active := true, autoExpire := false, expires := longMax }
    { s with
      activeWakeLocks := update s.activeWakeLocks t (l :: s.activeWakeLocks t)
      taken := update s.taken l (some .untimed) }

/-- `wake_lock_internal`, of a lock that is set up. -/
def wakeLockInternal (s : State) (l : LockId) (timeout : Option (BitVec 32)) : State :=
  let t := (s.lock l).type
  let s := s.activate l timeout
  match t with
  | .idle => s
  | .suspend =>
    let s := { s with currentEventNum := s.currentEventNum + 1 }
    match timeout with
    | some _ => (s.hasWakeLock .suspend).1.updateTimer (s.hasWakeLock .suspend).2
    | none => s.updateTimer (-1)

/-- `wake_lock`. -/
def wakeLock (s : State) (l : LockId) : State := s.wakeLockInternal l none

/-- `wake_lock_timeout`. -/
def wakeLockTimeout (s : State) (l : LockId) (timeout : BitVec 32) : State :=
  s.wakeLockInternal l (some timeout)

/-- `wake_unlock`. -/
def wakeUnlock (s : State) (l : LockId) : State :=
  let t := (s.lock l).type
  let s := s.deactivate l
  let s := { s with taken := update s.taken l none }
  match t with
  | .idle => s
  | .suspend => (s.hasWakeLock .suspend).1.updateTimer (s.hasWakeLock .suspend).2

/-- `expire_wake_locks`, the function of `expire_timer`. -/
def expireWakeLocks (s : State) : State :=
  let r := { s with expireTimer := none }.hasWakeLock .suspend
  if r.2 = 0 then r.1.queueSuspend else r.1

/-- `power_suspend_late`: the system goes to sleep if the result is 0. -/
def powerSuspendLate (s : State) : State × Int :=
  let r := s.hasWakeLock .suspend
  (r.1, if r.2 ≠ 0 then -11 else 0)

/-- The start of `suspend`, with the call of `has_wake_lock`. -/
def suspendCheck (s : State) : State :=
  let r := s.hasWakeLock .suspend
  { r.1 with worker := if r.2 ≠ 0 then .idle else .checked }

/-- The end of `suspend`, after `pm_suspend` has returned. -/
def suspendEnd (s : State) (entryEventNum : BitVec 32) : State :=
  let s' := if s.currentEventNum = entryEventNum then s.wakeLockTimeout unknownWakeup halfHz else s
  { s' with worker := .idle }

/-- No lock is set up. -/
def blank (jiffies : BitVec 32) : State where
  lock := fun _ => .raw
  activeWakeLocks := fun _ => []
  inactiveLocks := []
  jiffies := jiffies
  currentEventNum := 0
  expireTimer := none
  suspendWork := false
  worker := .idle
  elapsed := 0
  taken := fun _ => none

/-- `wakelocks_init`. -/
def init (jiffies : BitVec 32) : State :=
  let s := (blank jiffies).wakeLockInit mainWakeLock .suspend
  let s := s.wakeLock mainWakeLock
  s.wakeLockInit unknownWakeup .suspend

end State

/-! ## The system -/

/-- A step of the wake locks. -/
inductive Label where
  | wakeLockInit (l : LockId) (t : LockType)
  | wakeLockDestroy (l : LockId)
  | wakeLock (l : LockId)
  | wakeLockTimeout (l : LockId) (timeout : BitVec 32)
  | wakeUnlock (l : LockId)
  | hasWakeLock (t : LockType)
  /-- So many jiffies pass. -/
  | tick (d : Nat)
  /-- `expire_timer` fires. -/
  | expireTimer
  /-- The work `suspend` starts. -/
  | workStart
  | suspendCheck
  /-- `entry_event_num` is read. -/
  | suspendEnter
  /-- `pm_suspend` calls `power_suspend_late`. -/
  | powerSuspendLate
  /-- `pm_suspend` returns, with or without success. -/
  | suspendEnd
  deriving DecidableEq

namespace State

/-- The effect of a step; no result where it cannot happen, or where a lock is used that is not
set up. -/
def exec (s : State) : Label → Option State
  | .wakeLockInit l t => if (s.lock l).initialized then none else some (s.wakeLockInit l t)
  | .wakeLockDestroy l =>
    -- the locks of this module are destroyed only when it is unloaded
    if (s.lock l).initialized ∧ l ≠ mainWakeLock ∧ l ≠ unknownWakeup then
      some (s.wakeLockDestroy l)
    else none
  | .wakeLock l => if (s.lock l).initialized then some (s.wakeLock l) else none
  | .wakeLockTimeout l timeout =>
    if (s.lock l).initialized then some (s.wakeLockTimeout l timeout) else none
  | .wakeUnlock l => if (s.lock l).initialized then some (s.wakeUnlock l) else none
  | .hasWakeLock t => some (s.hasWakeLock t).1
  | .tick d => some { s with jiffies := s.jiffies + BitVec.ofNat 32 d, elapsed := s.elapsed + d }
  | .expireTimer =>
    match s.expireTimer with
    | none => none
    | some e => if (e - s.jiffies).toInt ≤ 0 then some s.expireWakeLocks else none
  | .workStart =>
    if s.suspendWork ∧ s.worker = .idle then
      some { s with suspendWork := false, worker := .started }
    else none
  | .suspendCheck => if s.worker = .started then some s.suspendCheck else none
  | .suspendEnter =>
    if s.worker = .checked then some { s with worker := .suspending s.currentEventNum } else none
  | .powerSuspendLate =>
    match s.worker with
    | .suspending _ => some s.powerSuspendLate.1
    | _ => none
  | .suspendEnd =>
    match s.worker with
    | .suspending entryEventNum => some (s.suspendEnd entryEventNum)
    | _ => none

end State

/-- The wake locks from `wakelocks_init` on. -/
def system : TransitionSystem State Label where
  init s := ∃ jiffies, s = State.init jiffies
  step s l s' := s.exec l = some s'

end LteModemKernel.WakeLock
