import LteModemKernel.Lib.Runs

/-!
# The virtual timer and a panic of the BP

The AP starts its timer by a write of the virtual register `IPC_VR_DMTIMER1_GPT_TCRR`.  When it
expires, the BP sets a bit of `IPC_VR_DMTIMER1_GPT_TISR` and sends a message, and the subscribed
handler is called.  A flag tells `mailbox_vr_bp_panicked` that a timer is running.

Main results:

- Theorem `starts_answered`: where no timer is started inside the handler, and the status bit is set
  when a panic meets a timer that runs, every start is followed by a call of the handler.
- Theorem `start_unanswered`: a panic before the timer has expired.
-/

namespace LteModemKernel.VrShortmsg

open Lib List

/-- The messages in mailbox 6. -/
inductive Msg where
  /-- The BP has written the status register. -/
  | tisr
  | panic
  deriving DecidableEq

/-- The virtual timer, with matching versions and a subscribed handler. -/
structure State where
  tisr : BitVec 32
  tcrr : BitVec 32
  bpProcessingTimer : Bool
  bpPanicked : Bool
  mailbox : List Msg
  /-- The handler was called for a message and has not returned. -/
  handling : Bool
  /-- Starts that have passed the tests of `mailbox_vr_write`. -/
  checked : Nat
  /-- Starts that have written the register; each is given by the number of calls of the handler
  before it. -/
  written : List Nat
  /-- Starts that have returned 0. -/
  started : List Nat
  /-- Calls of the handler. -/
  calls : Nat
  deriving DecidableEq

open State

inductive Label where
  | startCheck
  | startWrite (value : BitVec 32)
  | startReturn (i : Nat)
  | bpWrite (value : BitVec 32)
  | bpSend (msg : Msg)
  /-- The interrupt of mailbox 6. -/
  | irq
  | handlerReturn
  deriving DecidableEq

namespace State

def Expired (s : State) : Prop := s.tisr &&& 2#32 ≠ 0#32

instance (s : State) : Decidable s.Expired := inferInstanceAs (Decidable (_ ≠ _))

/-- `mailbox_vr_write` of the status register. -/
def vrWriteTisr (s : State) (value : BitVec 32) : State :=
  if s.bpPanicked then s else { s with tisr := s.tisr ^^^ value }

/-- `mailbox_vr_bp_write_dmtimer1_gpt_tisr`, up to the call of the handler. -/
def bpWriteTisr (s : State) : State :=
  if s.Expired then { s.vrWriteTisr 2#32 with calls := s.calls + 1, handling := true } else s

/-- Its end, if the handler was called. -/
def handlerReturn (s : State) : State :=
  if s.handling then { s with bpProcessingTimer := false, handling := false } else s

/-- `mailbox_vr_bp_panicked`, with interrupts disabled. -/
def bpPanic (s : State) : State :=
  let s := { s with bpPanicked := true }
  if s.bpProcessingTimer then s.bpWriteTisr.handlerReturn else s

/-- The effect of a step.  The panic replaces the handler of the mailbox, which handles one message
at a time. -/
def exec (s : State) : Label → Option State
  | .startCheck => if s.bpPanicked then none else some { s with checked := s.checked + 1 }
  | .startWrite value =>
    if s.checked = 0 then none
    else some { s with
      checked := s.checked - 1
      bpProcessingTimer := true
      tcrr := value
      written := s.calls :: s.written }
  | .startReturn i => s.written[i]?.map fun n => { s with
      written := s.written.eraseIdx i
      started := if s.bpPanicked then s.started else n :: s.started }
  | .bpWrite value => some { s with tisr := value }
  | .bpSend msg => some { s with mailbox := s.mailbox ++ [msg] }
  | .irq =>
    if s.handling || s.bpPanicked then none
    else
      match s.mailbox with
      | [] => none
      | .tisr :: rest => some { s with mailbox := rest }.bpWriteTisr
      | .panic :: rest => some { s with mailbox := rest }.bpPanic
  | .handlerReturn => if s.handling then some s.handlerReturn else none

/-- After each start that has returned 0 the handler was called. -/
def Answered (s : State) : Prop := ∀ n ∈ s.started, n < s.calls

instance (s : State) : Decidable s.Answered := inferInstanceAs (Decidable (∀ n ∈ _, _))

/-- No timer is started while the handler runs, and a panic meets a start without an answer only
after the timer has expired. -/
def guard (s : State) : Label → Prop
  | .startWrite _ => s.handling = false
  | .irq => s.mailbox.head? = some .panic → s.Answered ∨ s.Expired
  | _ => True

instance (s : State) (l : Label) : Decidable (s.guard l) := by
  cases l <;> unfold guard <;> infer_instance

def initial : State := ⟨0, 0, false, false, [], false, 0, [], [], 0⟩

end State

/-- The system of the AP and the BP. -/
def system : TransitionSystem State Label where
  init s := s = initial
  step s l s' := s.exec l = some s'

namespace State

/-- While a start has no answer, the flag is set and the handler does not run. -/
structure Tracked (s : State) : Prop where
  le : ∀ n ∈ s.started ++ s.written, n ≤ s.calls
  flag : s.calls ∈ s.started ++ s.written → s.bpPanicked = false →
    s.bpProcessingTimer = true ∧ s.handling = false
  answered : s.bpPanicked = true → s.Answered

variable {s s' : State} {l : Label}

theorem vrWriteTisr_same {value : BitVec 32} :
    (s.vrWriteTisr value).started = s.started ∧ (s.vrWriteTisr value).written = s.written := by
  unfold vrWriteTisr
  split <;> exact ⟨rfl, rfl⟩

/-- A call of the handler answers all starts. -/
theorem Tracked.called (h : s.Tracked) (hstarted : s'.started = s.started)
    (hwritten : s'.written = s.written) (hcalls : s'.calls = s.calls + 1) : s'.Tracked := by
  have hlt : ∀ n ∈ s'.started ++ s'.written, n < s'.calls := by
    rw [hstarted, hwritten, hcalls]
    exact fun n hn => Nat.lt_succ_of_le (h.le n hn)
  exact ⟨fun n hn => Nat.le_of_lt (hlt n hn), fun hdue => absurd (hlt _ hdue) (Nat.lt_irrefl _),
    fun _ n hn => hlt n (mem_append_left _ hn)⟩

/-- A panic comes while no start is without an answer, or the timer has expired. -/
theorem Tracked.bpPanic (h : s.Tracked) (hhandling : s.handling = false)
    (hpanicked : s.bpPanicked = false) (hguard : s.Answered ∨ s.Expired) : s.bpPanic.Tracked := by
  have hsame : s.Answered → Tracked { s with bpPanicked := true } := fun hanswered =>
    ⟨h.le, fun _ hpanic => Bool.noConfusion hpanic, fun _ => hanswered⟩
  unfold State.bpPanic
  dsimp only
  split
  · unfold bpWriteTisr
    split
    · exact h.called rfl rfl rfl
    · rename_i hexpired
      rw [handlerReturn, if_neg (Bool.eq_false_iff.mp hhandling)]
      exact hsame (hguard.resolve_right hexpired)
  · rename_i hflag
    refine hsame fun n hn => Nat.lt_of_le_of_ne (h.le n (mem_append_left _ hn)) ?_
    rintro rfl
    exact hflag (h.flag (mem_append_left _ hn) hpanicked).1

theorem Tracked.exec (h : s.Tracked) (hguard : s.guard l) (hexec : s.exec l = some s') :
    s'.Tracked := by
  cases l with
  | startCheck =>
    simp only [exec] at hexec
    split at hexec <;> cases hexec
    exact { h with }
  | startWrite value =>
    simp only [exec] at hexec
    split at hexec <;> cases hexec
    refine ⟨fun n hn => ?_, fun _ _ => ⟨rfl, hguard⟩, h.answered⟩
    rcases mem_cons.mp (perm_middle.mem_iff.mp hn) with rfl | hn
    · exact Nat.le_refl _
    · exact h.le n hn
  | startReturn i =>
    obtain ⟨n, hn, rfl⟩ := Option.map_eq_some_iff.mp hexec
    have hsub (k)
        (hk : k ∈ (if s.bpPanicked then s.started else n :: s.started) ++ s.written.eraseIdx i) :
        k ∈ s.started ++ s.written := by
      rw [mem_append] at hk ⊢
      refine hk.elim (fun hk => ?_) fun hk => .inr (mem_of_mem_eraseIdx hk)
      split at hk
      · exact .inl hk
      · rcases mem_cons.mp hk with rfl | hk
        · exact .inr (mem_of_getElem? hn)
        · exact .inl hk
    refine ⟨fun k hk => h.le k (hsub k hk), fun hdue => h.flag (hsub _ hdue), fun hpanic => ?_⟩
    have hpanicked : s.bpPanicked = true := hpanic
    have hanswered := h.answered hpanicked
    simpa only [Answered, hpanicked, if_true] using hanswered
  | bpWrite | bpSend =>
    cases hexec
    exact { h with }
  | irq =>
    simp only [exec] at hexec
    split at hexec
    · cases hexec
    · rename_i hready
      obtain ⟨hhandling, hpanicked⟩ : s.handling = false ∧ s.bpPanicked = false := by
        simpa using hready
      split at hexec <;> cases hexec
      · unfold bpWriteTisr
        split
        · exact h.called vrWriteTisr_same.1 vrWriteTisr_same.2 rfl
        · exact { h with }
      · rename_i rest hmailbox
        have hrest : Tracked { s with mailbox := rest } := { h with }
        exact hrest.bpPanic hhandling hpanicked (hguard (by rw [hmailbox]; rfl))
  | handlerReturn =>
    simp only [exec] at hexec
    split at hexec <;> cases hexec
    rename_i hhandling
    rw [handlerReturn, if_pos hhandling]
    refine { h with flag := fun hdue hpanicked => ?_ }
    cases hhandling.symm.trans (h.flag hdue hpanicked).2

end State

/-- Where the steps meet the guard, every start that returned 0 was followed by a call of the
handler once the panic message has been processed. -/
theorem starts_answered {s : State} (hs : system.ReachableUnder guard s)
    (hpanicked : s.bpPanicked = true) : s.Answered := by
  have h : s.Tracked := by
    refine hs.invariant ?_ fun _ _ _ h hguard hexec => h.exec hguard hexec
    rintro _ rfl
    exact ⟨by decide, by decide, by decide⟩
  exact h.answered hpanicked

/-- The timer has expired, and the panic comes before the message. -/
theorem starts_answered_expired :
    ∃ s, system.ReachableUnder guard s ∧ s.bpPanicked = true ∧ s.started = [0] ∧
      s.Answered := by
  have h0 : system.ReachableUnder guard initial := .init rfl
  obtain ⟨s, hs, hpanicked, hstarted⟩ := h0.exists_observed
    (P := fun s => s.bpPanicked = true ∧ s.started = [0])
    [.startCheck, .startWrite 100#32, .startReturn 0, .bpWrite 2#32, .bpSend .panic, .irq]
    (by decide)
  exact ⟨s, hs, hpanicked, hstarted, starts_answered hs hpanicked⟩

/-- The BP panics while the timer runs: the status bit is not set, and the handler is not
called. -/
theorem start_unanswered : ∃ s, system.Reachable s ∧ s.bpPanicked = true ∧ ¬s.Answered := by
  have h0 : system.Reachable initial := .start rfl
  exact h0.exists_observed (P := fun s => s.bpPanicked = true ∧ ¬s.Answered)
    [.startCheck, .startWrite 100#32, .startReturn 0, .bpSend .panic, .irq]
    (by decide)

end LteModemKernel.VrShortmsg
