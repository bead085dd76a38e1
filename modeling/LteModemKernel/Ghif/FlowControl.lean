import LteModemKernel.Ghif.Conservation

/-!
# Flow control of the uplink

A call of `IPC_4GHIF_submit_ul` that runs short of room or memory sets `b_ul_pause`,
and the processing of an ACK that finds it set schedules `ul_resume_tasklet`.  For this to
work there has to be an ACK to come.

Main results:

- Theorem `Uplink.Due.change`: a resume that is due stays so until it runs.
- Theorem `ulResume_not_lost`: when the resume of a call that ran short is still to come.
- Theorem `ulResume_lost`: the flag is set when no ACK is to come, or cleared again before the
  call has ended.
-/

namespace LteModemKernel.Ghif

open Lib Bool List Uplink

/-! ## Frames outstanding -/

/-- A call waits between a failed allocation and the setting of `b_ul_pause`. -/
def UlCall.failing : UlCall → Bool
  | .pause _ _ => true
  | _ => false

/-- A call has set `b_ul_pause` for lack of room or memory, and is about to end. -/
def UlCall.short : UlCall → Bool
  | .start _ _ .resourcesFull => true
  | _ => false

/-- No ACK is processed between a failed allocation and the setting of `b_ul_pause`. -/
def flowGuard (s : State) : Event → Prop
  | .mailbox | .bpReady | .dlCompleted =>
    s.ul.call.failing = false ∨ s.ul.fifoAckDl.getMsg 0 = none
  | _ => True

instance (s : State) (e : Event) : Decidable (flowGuard s e) := by
  apply @Event.casesOn _ e <;> intros <;> unfold flowGuard <;> infer_instance

/-- When no resume is lost: a frame is outstanding when `b_ul_pause` is set after a failed
allocation, and between the setting of the flag and the end of the call no ACK is processed that
finds room. -/
def resumeGuard (s : State) : Event → Prop
  | .submitUlStep => s.ul.call.failing = true → s.ul.outstanding ≠ []
  | .mailbox | .bpReady | .dlCompleted =>
    s.ul.call.short = true → s.ul.fifoAckDl.getMsg 0 = none ∨ s.ul.fifoUl.spaceLeft = 0
  | _ => True

instance (s : State) (e : Event) : Decidable (resumeGuard s e) := by
  apply @Event.casesOn _ e <;> intros <;> unfold resumeGuard <;> infer_instance

/-- A resume is to come: the uplink is paused and a frame is outstanding. -/
def Uplink.Owed (u : Uplink) : Prop := u.bUlPause = true ∧ u.outstanding ≠ []

/-- A resume is to come or is scheduled. -/
def Uplink.Due (u : Uplink) : Prop := u.Owed ∨ u.ulResumeTasklet = true

/-- What a step of the uplink keeps: it frees no frame and clears no flag, but for the resume
that runs. -/
structure Kept (u : Uplink) (e : Event) (u' : Uplink) : Prop where
  freed : u'.freed = u.freed
  accepted : u.accepted.length ≤ u'.accepted.length
  pause : u.bUlPause = true → u'.bUlPause = true
  resume : e ≠ .ulResume → u.ulResumeTasklet = true → u'.ulResumeTasklet = true
  starved : u'.starved = true → u.starved = true ∨ u.call.short = true

theorem UlChange.kept {apReady : Bool} {u u' : Uplink} {e : Event} (hinv : UlInv apReady u)
    (hchange : UlChange apReady u e u') : Kept u e u' := by
  have hwf := hinv.wf
  cases hchange with
  | refused status hcall hstatus =>
    refine ⟨rfl, le_rfl, id, fun _ => id, fun hs => .inl ?_⟩
    cases status <;> first | exact hstatus.elim | simpa [ulReturn] using hs
  | noRoom | paused => exact ⟨rfl, le_rfl, fun _ => rfl, fun _ => id, .inl⟩
  | reserved => exact ⟨rfl, by simp, id, fun _ => id, .inl⟩
  | nothing hcall =>
    refine ⟨rfl, le_rfl, id, fun _ => id, fun _ => .inr ?_⟩
    rw [hcall] at hwf ⊢
    rcases hwf.2 with ⟨-, hlength⟩ | ⟨rfl, -⟩
    · exact absurd (eq_nil_of_length_eq_zero hlength.symm) hwf.1.ne
    · rfl
  | started hcall hadr =>
    refine ⟨rfl, le_rfl, id, fun _ => id, fun hs => ?_⟩
    refine (or_eq_true_iff.mp hs).imp_right fun hstatus => ?_
    rw [hcall, of_decide_eq_true hstatus]
    rfl
  | transferred hdma hok =>
    rcases hinv.sdmaUlCallback hdma with ⟨f, hcallback, -⟩
    cases hok.symm.trans hcallback
    exact ⟨rfl, le_rfl, id, fun _ => id, .inl⟩
  | resumed => exact ⟨rfl, le_rfl, id, absurd rfl, .inl⟩
  | _ => exact ⟨rfl, le_rfl, id, fun _ => id, .inl⟩

namespace Custody

variable {apReady : Bool} {u u' : Uplink}

variable (h : Custody apReady u)
include h

theorem length_outstanding : u.freed.length + u.outstanding.length = u.accepted.length := by
  have hlength := h.conserved.length_eq
  rw [length_map, length_append] at hlength
  exact hlength.symm

/-- Frames stay outstanding while none is freed. -/
theorem outstanding_ne_nil {apReady' : Bool} (h' : Custody apReady' u')
    (hfreed : u'.freed = u.freed) (haccepted : u.accepted.length ≤ u'.accepted.length)
    (hne : u.outstanding ≠ []) : u'.outstanding ≠ [] := by
  have hlength := h.length_outstanding
  have hlength' := h'.length_outstanding
  have hpos := length_pos_iff.mpr hne
  rw [hfreed] at hlength'
  apply length_pos_iff.mp
  omega

theorem outstanding_ulChange {e : Event} (hinv : UlInv apReady u)
    (hchange : UlChange apReady u e u') (hne : u.outstanding ≠ []) : u'.outstanding ≠ [] := by
  have hkept := hchange.kept hinv
  exact h.outstanding_ne_nil (h.ulChange hinv hchange) hkept.freed hkept.accepted hne

theorem outstanding_of_live (hlive : u.mm.live ≠ []) : u.outstanding ≠ [] := by
  have hlength := h.blocks.length_eq
  rw [length_map, length_map] at hlength
  have hpos := length_pos_iff.mpr hlive
  apply length_pos_iff.mp
  omega

theorem length_contents_le (hhistory : u.taken ++ u.fifoUl.contents = u.added) :
    u.fifoUl.contents.length ≤ (frames u.fifoUl.contents).length + 1 := by
  have hlength := congrArg length h.cnf
  rw [← hhistory, frames_append, length_append, length_append, length_append] at hlength
  have htaken : (frames u.taken).length ≤ u.taken.length := length_filter_le _ _
  have hcnfs : (initCnfs apReady).length ≤ 1 := by cases apReady <;> decide
  omega

theorem outstanding_of_no_room (hhistory : u.taken ++ u.fifoUl.contents = u.added)
    (hspace : u.fifoUl.spaceLeft < 254) : u.outstanding ≠ [] := by
  have hlength := Fifo.length_add_spaceLeft u.fifoUl
  have hframes := h.length_contents_le hhistory
  apply length_pos_iff.mp
  rw [outstanding, inFlight, length_append, length_map,
    length_append, length_append]
  omega

end Custody

/-! ## The steps -/

section

variable {apReady : Bool} {u u' : Uplink} {e : Event} {fuel : Nat} {s s' : State}

section

variable (hinv : UlInv apReady u) (hcustody : Custody apReady u)
  (hchange : UlChange apReady u e u')
include hinv hcustody hchange

theorem Uplink.Owed.ulChange (h : u.Owed) : u'.Owed := by
  exact ⟨(hchange.kept hinv).pause h.1, hcustody.outstanding_ulChange hinv hchange h.2⟩

/-- A call that runs short leaves a frame outstanding, and pauses the uplink. -/
theorem short_ulChange (hhistory : u.taken ++ u.fifoUl.contents = u.added)
    (hpause : e = .submitUlStep → u.call.failing = true → u.outstanding ≠ []) :
    (u'.call.failing = true → u.call.failing = true ∨ u'.outstanding ≠ []) ∧
      (u'.call.short = true → u.call.short = true ∨ u'.Owed) := by
  have hout := hcustody.outstanding_ulChange hinv hchange
  cases hchange with
  | refused | entered | loopEnd | hasRoom | reserved | nothing | started => exact ⟨nofun, nofun⟩
  | noRoom hcall hlength hspace =>
    have hwf := hinv.wf
    rw [hcall] at hwf
    have hpackets := hwf.1.length
    unfold maxNbFrames at hpackets
    have hadr := hwf.2
    have hne := hout (hcustody.outstanding_of_no_room hhistory (by omega))
    exact ⟨nofun, fun _ => .inr ⟨rfl, hne⟩⟩
  | noMemory hcall hp halloc =>
    rcases hcustody.mm.alloc (hinv.alloc_size hcall hp) with ⟨_, -, -, hlive⟩ | ⟨_, _, halloc', -⟩
    · exact ⟨fun _ => .inr (hout (hcustody.outstanding_of_live hlive)), nofun⟩
    · cases halloc.symm.trans halloc'
  | paused hcall =>
    have hne := hout (hpause rfl (by rw [hcall]; rfl))
    exact ⟨nofun, fun _ => .inr ⟨rfl, hne⟩⟩
  | transferred hdma hok =>
    rcases hinv.sdmaUlCallback hdma with ⟨f, hcallback, -⟩
    cases hok.symm.trans hcallback
    exact ⟨.inl, .inl⟩
  | completed | resumed | bpRead | bpAck => exact ⟨.inl, .inl⟩

end

/-- An ACK that finds the uplink paused schedules the resume, or finds no room. -/
theorem Uplink.processAck_resume (hcustody' : Custody apReady u')
    (hhistory : u'.taken ++ u'.fifoUl.contents = u'.added) {adr : UInt32}
    (hok : u.processAck adr = .ok u') :
    (u.fifoUl.spaceLeft ≠ 0 ∧ u'.starved = false ∧ u'.ulResumeTasklet = true) ∨
      u'.starved = u.starved ∧ u'.ulResumeTasklet = u.ulResumeTasklet ∧
        (u.bUlPause = true → u'.Owed) := by
  unfold processAck tryResume at hok
  split at hok
  · cases hok
  split_ifs at hok with hresume
  · cases hok
    exact .inl ⟨Nat.ne_of_gt hresume.2, rfl, rfl⟩
  · cases hok
    refine .inr ⟨rfl, rfl, fun hpause => ⟨hpause, hcustody'.outstanding_of_no_room hhistory ?_⟩⟩
    have hspace : ¬u.fifoUl.spaceLeft > 0 := fun hspace => hresume ⟨hpause, hspace⟩
    change u.fifoUl.spaceLeft < 254
    omega

/-- What the ACKs keep, with the invariants of the uplink at hand. -/
theorem Uplink.processAcks_custody {P : Uplink → Prop} (hu : P u)
    (hstep : ∀ {u u' : Uplink} {adr : UInt32}, P u → Custody apReady u' →
      u'.taken ++ u'.fifoUl.contents = u'.added → u.processAck adr = .ok u' → P u')
    (hcustody : Custody apReady u) (hhistory : u.taken ++ u.fifoUl.contents = u.added)
    (hok : u.processAcks fuel = .ok u') : P u' := by
  refine (processAcks_induction (P := fun u => P u ∧ Custody apReady u ∧
    u.taken ++ u.fifoUl.contents = u.added) ⟨hu, hcustody, hhistory⟩ ?_ hok).1
  rintro u v adr ⟨hu, hcustody, hhistory⟩ hget hack
  rcases hcustody.processAck hget with ⟨_, hack', hcustody', -⟩
  cases hack.symm.trans hack'
  have hhistory' : v.taken ++ v.fifoUl.contents = v.added := by
    rcases processAck_frame hack with ⟨_, _, _, _, _, _, rfl⟩
    exact hhistory
  exact ⟨hstep hu hcustody' hhistory' hack, hcustody', hhistory'⟩

/-- A resume that is due stays so until it runs. -/
theorem Uplink.Due.change (hs : system.Reachable s) (hchange : Change s e s')
    (hne : e ≠ .ulResume) (h : s.ul.Due) : s'.ul.Due := by
  have hinv := ulInv_of_reachable hs
  have hcustody := custody_of_reachable hs
  cases hchange with
  | same e | closed | dl hdl => exact h
  | opened hclosed =>
    rw [(State.openIpc_frame (fresh_of_reachable hs)).1]
    exact h
  | initCnf hbp hap hadd =>
    have hcustody' := hcustody.change (fresh_of_reachable hs) hinv (.initCnf hbp hap hadd)
    exact h.imp_left (.imp_right (hcustody.outstanding_ne_nil hcustody' rfl le_rfl))
  | ul hul => exact h.imp (Uplink.Owed.ulChange hinv hcustody hul) ((hul.kept hinv).resume hne)
  | processed hprocess hul hdl =>
    refine processAcks_custody h ?_ hcustody (fifoUl_history hs) hul
    intro u u' adr h hcustody' hhistory' hack
    rcases processAck_resume hcustody' hhistory' hack with ⟨-, -, hset⟩ | ⟨-, hsame, howed⟩
    · exact .inr hset
    · exact h.imp (fun h => howed h.1) hsame.trans

/-- After a shortage a resume is to come. -/
structure FlowInv (u : Uplink) : Prop where
  short : u.call.short = true → u.Owed
  starved : u.starved = true → u.Owed

namespace FlowInv

/-- A step of the uplink keeps the flow control in order. -/
theorem ulChange (h : FlowInv u) (hinv : UlInv apReady u) (hcustody : Custody apReady u)
    (hhistory : u.taken ++ u.fifoUl.contents = u.added)
    (hpause : e = .submitUlStep → u.call.failing = true → u.outstanding ≠ [])
    (hchange : UlChange apReady u e u') : FlowInv u' := by
  have howed : u.Owed → u'.Owed := Uplink.Owed.ulChange hinv hcustody hchange
  refine ⟨fun hs => ?_, fun hs => ?_⟩
  · rcases (short_ulChange hinv hcustody hchange hhistory hpause).2 hs with hs | h'
    · exact howed (h.short hs)
    · exact h'
  · exact howed (((hchange.kept hinv).starved hs).elim h.starved h.short)

theorem processAcks (h : FlowInv u) (hspace : u.call.short = true → u.fifoUl.spaceLeft = 0)
    (hcustody : Custody apReady u) (hhistory : u.taken ++ u.fifoUl.contents = u.added)
    (hok : u.processAcks fuel = .ok u') : FlowInv u' := by
  refine (processAcks_custody (P := fun u => FlowInv u ∧
    (u.call.short = true → u.fifoUl.spaceLeft = 0)) ⟨h, hspace⟩ ?_ hcustody hhistory hok).1
  rintro u u' adr ⟨h, hspace⟩ hcustody' hhistory' hack
  have hresume := processAck_resume hcustody' hhistory' hack
  have hcall : u'.call = u.call ∧ u'.fifoUl = u.fifoUl := by
    rcases processAck_frame hack with ⟨_, _, _, _, _, _, rfl⟩
    exact ⟨rfl, rfl⟩
  rw [hcall.1, hcall.2]
  refine ⟨⟨?_, ?_⟩, hspace⟩
  · rw [hcall.1]
    intro hs
    rcases hresume with ⟨hroom, -⟩ | ⟨-, -, howed⟩
    · exact absurd (hspace hs) hroom
    · exact howed (h.short hs).1
  · intro hs
    rcases hresume with ⟨-, hclear, -⟩ | ⟨hsame, -, howed⟩
    · cases hclear.symm.trans hs
    · exact howed (h.starved (hsame.symm.trans hs)).1

/-- An event that meets the condition keeps the flow control in order. -/
theorem change (hs : system.Reachable s) (h : FlowInv s.ul) (hguard : resumeGuard s e)
    (hchange : Change s e s') : FlowInv s'.ul := by
  have hinv := ulInv_of_reachable hs
  have hcustody := custody_of_reachable hs
  have hhistory := fifoUl_history hs
  cases hchange with
  | same e | closed | dl hdl => exact h
  | opened hclosed =>
    rw [(State.openIpc_frame (fresh_of_reachable hs)).1]
    exact h
  | initCnf hbp hap hadd =>
    have hcustody' := hcustody.change (fresh_of_reachable hs) hinv (.initCnf hbp hap hadd)
    have hout := hcustody.outstanding_ne_nil hcustody' rfl le_rfl
    exact ⟨fun hs => (h.short hs).imp_right hout, fun hs => (h.starved hs).imp_right hout⟩
  | ul hul => exact h.ulChange hinv hcustody hhistory (fun he => by subst he; exact hguard) hul
  | processed hprocess hul hdl =>
    have hspace : s.ul.call.short = true →
        s.ul.fifoAckDl.getMsg 0 = none ∨ s.ul.fifoUl.spaceLeft = 0 := by
      cases hprocess with
      | mailbox | bpReady | dlCompleted => exact hguard
    by_cases hnone : s.ul.fifoAckDl.getMsg 0 = none
    · unfold Uplink.fifoAckProcessDlMsg Uplink.processAcks at hul
      rw [hnone] at hul
      cases hul
      exact h
    · exact h.processAcks (fun hs => (hspace hs).resolve_left hnone) hcustody hhistory hul

end FlowInv

end

/-! ## Runs -/

/-- Where a frame is outstanding when `b_ul_pause` is set after a failed allocation, and no resume
is scheduled between the setting of the flag and the end of the call: after a call that ran
short, and until a resume is scheduled, the uplink is paused and a frame is not yet
acknowledged. -/
theorem ulResume_not_lost {s : State} (hs : system.ReachableUnder resumeGuard s)
    (hstarved : s.ul.starved = true) : s.ul.bUlPause = true ∧ s.ul.outstanding ≠ [] := by
  refine FlowInv.starved ?_ hstarved
  refine TransitionSystem.ReachableUnder.invariant_along (P := fun s : State => FlowInv s.ul)
    ?_ ?_ hs
  · rintro _ rfl
    exact ⟨nofun, nofun⟩
  · intro s e s' hreach h hguard hstep
    exact h.change hreach.reachable hguard (State.act_change hstep)

/-- The run until the AP is ready. -/
def readyRun : List Event :=
  [.openIpc, .bpWriteDl ⟨.initReq, 0, 0, 0⟩, .mailbox, .bpReady, .ready]

/-- A packet that takes a page of the memory. -/
def pagePacket : SdmaPacket := ⟨.ulData, 1, 8000, 5⟩

/-- A call for as many packets, with their transfer. -/
def fillRun (n : Nat) : List Event :=
  .submitUl (List.replicate n pagePacket) :: List.replicate (2 * n + 2) .submitUlStep ++
    [.sdmaUl, .ulComplete]

/-- The run up to a failed allocation. -/
def failedRun : List Event :=
  readyRun ++ fillRun 31 ++ fillRun 17 ++ [.submitUl [pagePacket], .submitUlStep, .submitUlStep]

theorem ulResume_not_lost_no_memory :
    ∃ s : State, s.ul.starved = true ∧ s.ul.bUlPause = true ∧ s.ul.outstanding ≠ [] := by
  rcases exists_observed_under (P := fun s => s.ul.starved) resumeGuard
    (failedRun ++ [.submitUlStep, .submitUlStep]) (by decide +kernel) (by decide +kernel) with
    ⟨s, hs, hobs⟩
  exact ⟨s, hobs, ulResume_not_lost hs hobs⟩

/-- The BP acknowledges all frames, and the ACKs are processed. -/
def ackRun : List Event := .replicate 49 .bpReadUl ++ .replicate 48 (.bpAckUl 0) ++ [.mailbox]

/-- All frames are acknowledged between a failed allocation and the setting of
`b_ul_pause`: the flag is set, no resume is scheduled, and no ACK will come.  Or they are
acknowledged, and the resume runs, between the setting of the flag and the end of the call: the
flag is clear. -/
theorem ulResume_lost :
    (∃ s : State, system.Reachable s ∧ s.ul.call = .idle ∧
      s.ul.starved = true ∧ s.ul.ulResumeTasklet = false ∧ s.ul.outstanding = []) ∧
    ∃ s : State, system.Reachable s ∧ s.ul.call = .idle ∧
      s.ul.starved = true ∧ s.ul.ulResumeTasklet = false ∧ s.ul.bUlPause = false :=
  ⟨exists_observed (failedRun ++ ackRun ++ [.submitUlStep, .submitUlStep]) (by decide +kernel),
    exists_observed (failedRun ++ [.submitUlStep] ++ ackRun ++ [.ulResume, .submitUlStep])
      (by decide +kernel)⟩

end LteModemKernel.Ghif
