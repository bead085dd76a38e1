import LteModemKernel.DataDriver.Ownership

/-!
# The uplink does not stall

A run of `lte_dd_sdma_tx` that finds the device busy or throttled does nothing, so packets
are left in a FIFO.  They are served because the completion of the transfer, or the resume that
the 4GHIF driver owes, runs it again.

Main results:

- Theorem `Live.change`: under a condition on the steps, the device that is not busy has no
  packets, or a run is scheduled, or it is throttled and a resume is due.
- Theorem `tx_not_stalled`: under that condition the uplink does not stall.
- Theorem `tx_stalled`: without it, packets are left in a FIFO for which no run will come.
-/

namespace LteModemKernel.DataDriver

open Lib Function List Option Finset Bool
open Ghif (SdmaPacket Status Event Uplink UlCall UlChange UlInv)

/-! ## Resumes that are due -/

variable {e : Event} {apReady : Bool} {u u' : Uplink}

/-- A call that ran short leaves a frame outstanding until it sets `b_ul_pause`; from then on a
resume is due. -/
structure Short (u : Uplink) : Prop where
  failing : u.call.failing = true → u.outstanding ≠ []
  due : u.call.short = true → u.Due

theorem Short.of_idle (hcall : u.call = .idle) : Short u := by
  constructor <;> rw [hcall] <;> exact nofun

theorem Short.act {s s' : Ghif.State} (hs : Ghif.system.Reachable s) (hact : s.act e = some s')
    (hne : e ≠ .ulResume) (hguard : Ghif.flowGuard s e) (h : Short s.ul) : Short s'.ul := by
  have hchange := Ghif.State.act_change hact
  have hdue := Uplink.Due.change hs hchange hne
  have hinv := Ghif.ulInv_of_reachable hs
  have hcustody := Ghif.custody_of_reachable hs
  have hcustody' := hcustody.change (Ghif.fresh_of_reachable hs) hinv hchange
  cases hchange with
  | same | closed | dl => exact h
  | opened =>
    rw [(Ghif.State.openIpc_frame (Ghif.fresh_of_reachable hs)).1]
    exact h
  | initCnf =>
    exact ⟨fun hcall => hcustody.outstanding_ne_nil hcustody' rfl le_rfl (h.failing hcall),
      fun hcall => hdue (h.due hcall)⟩
  | ul hul =>
    rcases Ghif.short_ulChange hinv hcustody hul (Ghif.fifoUl_history hs) fun _ => h.failing with
      ⟨hfailing, hshort⟩
    constructor
    · intro hcall
      rcases hfailing hcall with hcall | hout
      · exact hcustody.outstanding_ulChange hinv hul (h.failing hcall)
      · exact hout
    · intro hcall
      exact (hshort hcall).elim (fun hcall => hdue (h.due hcall)) .inl
  | processed hprocess hul hdl =>
    have hquiet : s.ul.call.failing = false ∨ s.ul.fifoAckDl.getMsg 0 = none := by
      cases hprocess with
      | mailbox | bpReady | dlCompleted => exact hguard
    rcases hquiet with hcall | hnone
    · rcases Uplink.processAcks_frame hul with ⟨mm, freed, pause, resume, starved, f, rfl⟩
      exact ⟨fun hset => absurd (hcall.symm.trans hset) false_ne_true,
        fun hcall => hdue (h.due hcall)⟩
    · unfold Uplink.fifoAckProcessDlMsg Uplink.processAcks at hul
      rw [hnone] at hul
      cases hul
      exact h

theorem due_of_resourcesFull {nb : Nat} (hinv : UlInv apReady u) (h : Short u)
    (hchange : UlChange apReady u .submitUlStep u') (hdue : u.Due → u'.Due)
    (hidle : u'.call = .idle) (hresult : u'.result = some (.resourcesFull, nb)) : u'.Due := by
  have hwf := hinv.wf
  cases hchange with
  | loopEnd | noRoom | hasRoom | noMemory | reserved | paused => cases hidle
  | nothing hcall =>
    rw [hcall] at hwf
    rcases hwf.2 with ⟨-, hlength⟩ | ⟨rfl, -⟩
    · exact absurd (eq_nil_of_length_eq_zero hlength.symm) hwf.1.ne
    · exact hdue (h.due (by rw [hcall]; rfl))
  | started hcall hadr =>
    cases hresult
    exact hdue (h.due (by rw [hcall]; rfl))

/-! ## The condition -/

/-- The run is in `IPC_4GHIF_submit_ul`, or has not yet handled its status. -/
def TxRun.waits : TxRun → Bool
  | .submitted _ | .returned _ _ _ => true
  | _ => false

/-- The 4GHIF driver takes a list of valid packets. -/
def State.takesList (s : State) : Bool :=
  s.ipc.bIpc4ghifOpen && s.ipc.bBpReady && s.ipc.bApReady && s.txSdmaPacket.all (·.validUl)

/-- The run is about to call `IPC_4GHIF_submit_ul`. -/
def State.submits (s : State) (i : Nat) : Bool :=
  match s.runs[i]? with
  | some (.submit _) => true
  | _ => false

/-- When the uplink does not stall: besides the conditions on flushes and completions, no ACK is
processed between a failed allocation and the setting of `b_ul_pause`, no resume comes while a
run waits for or has not handled a status, and a list is given to the 4GHIF driver only when it
takes it. -/
def liveGuard (s : State) (l : Label) : Prop :=
  ddGuard s l ∧
  match l with
  | .ipc e => Ghif.flowGuard s.ipc e
  | .ulResume => (s.active.all fun r => !r.waits) = true
  | .run i => s.submits i = true → s.takesList = true
  | _ => True

instance (s : State) (l : Label) : Decidable (liveGuard s l) := by
  apply @Label.casesOn _ l <;> intros <;> unfold liveGuard <;> infer_instance

/-! ## The invariant -/

/-- The device works, or will be made to work. -/
structure Live (s : State) : Prop where
  call : Short s.ipc.ul
  returned : ∀ pni status nb, .returned pni status nb ∈ s.active →
    status = .resourcesFull ∧ s.ipc.ul.Due
  throttle : s.txThrottle = true → s.ipc.ul.Due
  serves : s.txBusy = false → ∀ pni, s.Waiting pni → 0 < s.scheduled ∨ s.txThrottle = true

namespace State

variable {k pni : Ni} {s : State}

/-- Packets are removed. -/
theorem waiting_of_flushTxDataFifo (h : (s.flushTxDataFifo k).Waiting pni) : s.Waiting pni := by
  rcases removePackets_spec k .flushed nofun 65 s with ⟨f, hf, hcontents⟩
  rw [flushTxDataFifo, hf] at h
  by_cases hk : pni = k
  · subst hk
    have hne := h.2
    rw [fifo_handBack, hcontents] at hne
    refine ⟨?_, fun hnil => hne (by rw [hnil, drop_nil])⟩
    simpa [handBack, setFifo] using h.1
  · simpa [Waiting, handBack, setFifo, fifo, hk] using h

theorem waiting_of_update {info : NetInfo} {cnt : Nat} (hempty : info.hTxDataFifo.contents = [])
    (hwaiting : ({ s with niInterfaces := update s.niInterfaces k info,
                          niInterfacesCnt := cnt } : State).Waiting pni) : s.Waiting pni := by
  by_cases hk : pni = k
  · subst hk
    refine absurd ?_ hwaiting.2
    simp only [fifo, update_self]
    exact hempty
  · unfold Waiting fifo at hwaiting
    simp only [update_of_ne hk] at hwaiting
    exact hwaiting

theorem waiting_of_createNetIface (h : s.createNetIface.Waiting pni) : s.Waiting pni := by
  unfold createNetIface at h
  split at h
  · exact h
  · exact waiting_of_update rfl h

theorem waiting_of_deleteNetIface (h : (s.deleteNetIface k).Waiting pni) : s.Waiting pni := by
  unfold deleteNetIface at h
  split_ifs at h <;> try exact h
  exact waiting_of_flushTxDataFifo (waiting_of_update rfl h)

end State

namespace Live

variable {s s' : State}

/-- A step that concerns neither what is below nor a run. -/
theorem frame (h : Live s) (hipc : s'.ipc = s.ipc) (hactive : s'.active = s.active)
    (hthrottle : s'.txThrottle = s.txThrottle)
    (hserves : s'.txBusy = false → ∀ pni, s'.Waiting pni → 0 < s'.scheduled ∨ s.txThrottle = true) :
    Live s' where
  call := by
    rw [hipc]
    exact h.call
  returned := by
    rw [hipc, hactive]
    exact h.returned
  throttle := by
    rw [hipc, hthrottle]
    exact h.throttle
  serves := by
    rw [hthrottle]
    exact hserves

theorem txDataStart (h : Live s) (pni : Ni) (pskb : Skb) : Live (s.txDataStart pni pskb) := by
  unfold State.txDataStart
  split_ifs
  · exact h
  · cases (s.fifo pni).insert pskb with
    | none => exact h
    | some f =>
      exact h.frame rfl rfl rfl (fun _ _ _ => Or.inl (Nat.succ_pos _))

/-- `lte_dd_sdma_tx` starts: it finds the device busy or throttled, or no packet waits, or
it makes the device busy. -/
theorem sdmaTx (h : Live s) (howned : s.queues.Owned) (h0 : (s.niInterfaces 0).created = true) :
    Live ({ s with scheduled := s.scheduled - 1 } : State).sdmaTx := by
  unfold State.sdmaTx
  by_cases hbusy : s.txBusy = true
  · rw [if_pos (or_eq_true_iff.mpr (Or.inl hbusy))]
    exact h.frame rfl rfl rfl (fun hnot => absurd (hnot.symm.trans hbusy) false_ne_true)
  by_cases hthrottle : s.txThrottle = true
  · rw [if_pos (or_eq_true_iff.mpr (Or.inr hthrottle))]
    exact h.frame rfl rfl rfl (fun _ _ _ => .inr hthrottle)
  have hflags : ¬(s.txBusy || s.txThrottle) = true := fun hor =>
    (or_eq_true_iff.mp hor).elim hbusy hthrottle
  rw [if_neg hflags]
  rcases hlookup : ({ s with scheduled := s.scheduled - 1 } : State).niInterfaceFifoLookup with
    ⟨index, _ | ⟨pni, num⟩⟩
  · have hnone : ∀ pni, ¬s.Waiting pni :=
      State.not_waiting_of_lookup (s := { s with scheduled := s.scheduled - 1 }) ⟨h0, howned.cnt⟩
        hlookup
    exact h.frame rfl rfl rfl (fun _ pni hwaiting => absurd hwaiting (hnone pni))
  · refine ⟨h.call, ?_, h.throttle, nofun⟩
    intro pni' status nb hmem
    apply h.returned pni' status nb
    change _ ∈ (s.runs ++ [_]).filter _ at hmem
    rw [filter_append] at hmem
    rcases mem_append.mp hmem with hmem | hmem
    · exact hmem
    · cases List.mem_singleton.mp hmem

theorem of_busy (hcall : Short s'.ipc.ul)
    (hreturned : ∀ pni status nb, .returned pni status nb ∈ s'.active →
      status = .resourcesFull ∧ s'.ipc.ul.Due)
    (hthrottle : s'.txThrottle = true → s'.ipc.ul.Due) (hbusy : s'.txBusy = true) : Live s' :=
  ⟨hcall, hreturned, hthrottle, fun hnot => absurd (hnot.symm.trans hbusy) false_ne_true⟩

theorem returned_of_singleton {r : TxRun} (hactive : s.active = [r])
    (hr : ∀ pni status nb, r ≠ .returned pni status nb) :
    ∀ pni status nb, .returned pni status nb ∈ s.active →
      status = .resourcesFull ∧ s.ipc.ul.Due := by
  intro pni status nb hmem
  rw [hactive] at hmem
  exact absurd (List.mem_singleton.mp hmem).symm (hr pni status nb)

/-- A round of the loop that builds the list, or its end. -/
theorem buildStep {num : Nat} (h : Live s) (hbuilding : Building s pni num)
    (hi : s.runs[i]? = some (.build pni num)) : Live (s.buildStep i pni num) := by
  have hbusy := (Phase.buildStep hbuilding hi).2
  unfold State.buildStep at hbusy ⊢
  split_ifs at hbusy ⊢
  · cases hpeek : (s.fifo pni).peekOffset s.txSdmaXfer.length with
    | some pskb =>
      rw [hpeek] at hbusy
      exact of_busy h.call h.returned h.throttle hbusy
    | none =>
      rw [hpeek] at hbusy
      cases hlast : s.txSdmaXfer.getLast? with
      | some last =>
        rw [hlast] at hbusy
        exact of_busy h.call h.returned h.throttle hbusy
      | none =>
        rw [hlast] at hbusy
        cases hbusy
  · refine of_busy h.call (returned_of_singleton (r := .submit pni) ?_
      (fun _ _ _ => nofun)) h.throttle hbusy
    exact (filter_eq_singleton hbuilding.active hi rfl).2.1 (.submit pni)

/-- A list is given to the 4GHIF driver, which takes it. -/
theorem submit (h : Live s) (hs : Ghif.system.Reachable s.ipc) (hsubmitting : Submitting s pni)
    (hi : s.runs[i]? = some (.submit pni)) (htakes : s.takesList = true)
    (hact : s.ipc.act (.submitUl s.txSdmaPacket) = some ipc) :
    Live ({ s with ipc := ipc, runs := s.runs.set i (.submitted pni) } : State).settle := by
  have hdue := Uplink.Due.change hs (Ghif.State.act_change hact) Event.noConfusion
  have hlength : s.txSdmaPacket.length = s.txSdmaXfer.length := by
    rw [State.txSdmaPacket, hsubmitting.packetCnt, take_length, length_map]
  have hpos := length_pos_iff.mpr hsubmitting.ne
  have hmax := hsubmitting.max
  have hlist : ¬(s.txSdmaPacket = [] ∨ s.txSdmaPacket.length > Ghif.maxNbFrames) := by
    rintro (hnil | hlong)
    · rw [hnil, length_nil] at hlength
      omega
    · omega
  simp only [State.takesList, and_eq_true] at htakes
  rcases htakes with ⟨⟨⟨hopen, hbp⟩, hap⟩, hvalid⟩
  have hany : s.txSdmaPacket.any (fun p => !p.validUl) = false := by
    rw [List.any_eq_false]
    intro p hp
    rw [all_eq_true.mp hvalid p hp]
    exact false_ne_true
  have hipc := (Ghif.State.act_submitUl hact).2
  simp only [Uplink.submitUl, hopen, hbp, hap, hsubmitting.flag, if_neg hlist, hany, Bool.not_true,
    false_eq_true, if_false] at hipc
  have hcall : ipc.ul.call ≠ .idle := by
    rw [hipc]
    exact UlCall.noConfusion
  rw [State.settle_of_call hcall]
  refine of_busy ?_ (returned_of_singleton (r := .submitted pni) ?_
    (fun _ _ _ => TxRun.noConfusion)) ?_ hsubmitting.busy
  · rw [hipc]
    exact ⟨Bool.noConfusion, Bool.noConfusion⟩
  · exact (filter_eq_singleton hsubmitting.active hi rfl).2.1 (.submitted pni)
  · exact fun hset => hdue (h.throttle hset)

/-- The status is `IPC_4GHIF_STATUS_RESOURCES_FULL`: the device is throttled. -/
theorem throttled {nb : Nat} (h : Live s) (hfull : Full s pni nb)
    (hi : s.runs[i]? = some (.returned pni .resourcesFull nb)) :
    Live { s.handleStatus pni .resourcesFull nb with runs := s.runs.eraseIdx i } := by
  have hdue : s.ipc.ul.Due := (h.returned pni .resourcesFull nb (by
    rw [hfull.active]
    exact List.mem_singleton_self _)).2
  have hipc := (State.sameBelow_handleStatus s pni .resourcesFull nb).1
  have hthrottle : (s.handleStatus pni .resourcesFull nb).txThrottle = true := by
    unfold State.handleStatus
    split_ifs <;> rfl
  refine ⟨?_, ?_, ?_, fun _ _ _ => Or.inr hthrottle⟩
  · rw [hipc]
    exact h.call
  · intro pni' status nb' hmem
    change _ ∈ (s.runs.eraseIdx i).filter _ at hmem
    rw [(filter_eq_singleton hfull.active hi rfl).2.2] at hmem
    cases hmem
  · rw [hipc]
    exact fun _ => hdue

theorem callStep (h : Live s) (hs : Ghif.system.Reachable s.ipc) (hcalled : Called s pni)
    (hact : s.ipc.act .submitUlStep = some ipc) : Live ({ s with ipc := ipc } : State).settle := by
  have hshort := h.call.act hs hact nofun trivial
  have hdue := Uplink.Due.change hs (Ghif.State.act_change hact) nofun
  have hinv := Ghif.ulInv_of_reachable hs
  rcases Ghif.State.act_submitUlStep hact with ⟨hcall, ul, hstep, rfl⟩
  have hthrottle (hset : s.txThrottle = true) : ul.Due := hdue (h.throttle hset)
  have hchange : UlChange s.ipc.bApReady s.ipc.ul .submitUlStep ul ∨ ul = s.ipc.ul :=
    Ghif.Uplink.submitUlStep_change hcall hstep
  rcases hchange with hchange | rfl
  · have hbase := (hcalled.accepted_take _).trans hcalled.done
    cases DataDriver.callStep hinv hcall hbase hchange with
    | goes hcall' =>
      rw [State.settle_of_call hcall']
      exact of_busy hshort (returned_of_singleton (r := .submitted pni) hcalled.active
        (fun _ _ _ => nofun)) hthrottle hcalled.busy
    | @ends status nb hcall' hresult hend =>
      rcases State.settle_of_idle (s := { s with ipc := { s.ipc with ul := ul } })
        hcalled.active hcall' hresult with ⟨runs, hsettle, hruns⟩
      rw [hsettle]
      refine of_busy hshort ?_ hthrottle hcalled.busy
      intro pni' status' nb' hmem
      change _ ∈ runs.filter _ at hmem
      rw [hruns] at hmem
      have hreturned := List.mem_singleton.mp (List.mem_of_mem_filter hmem)
      have hkind := of_mem_filter hmem
      cases hreturned
      generalize ul.bSdmaUlTransferOnGoing = flag at hend
      cases hend with
      | all => cases hkind
      | some | none => exact ⟨rfl, due_of_resourcesFull hinv h.call hchange hdue hcall' hresult⟩
  · rw [State.settle_of_call hcall]
    exact of_busy h.call h.returned h.throttle hcalled.busy

/-- A run of `lte_dd_sdma_tx` goes on. -/
theorem run (h : Live s) (hs : Ghif.system.Reachable s.ipc)
    (hguard : s.submits i = true → s.takesList = true) (hstep : RunStep s i s') : Live s' := by
  cases hstep with
  | ended hactive => exact h.frame rfl hactive rfl h.serves
  | build hbuilding hi => exact h.buildStep hbuilding hi
  | submit hsubmitting hi hact =>
    refine h.submit hs hsubmitting hi (hguard ?_) hact
    rw [State.submits, hi]
  | @dropped pni status hrefused hi =>
    -- the status would be one of full resources
    have hmem : .returned pni status 0 ∈ s.active := by
      rw [hrefused.active]
      exact List.mem_singleton_self _
    have hstatus := hrefused.refuses
    rw [(h.returned pni status 0 hmem).1] at hstatus
    cases hstatus
  | throttled hfull hi => exact h.throttled hfull hi

theorem ipcStep (h : Live s) (hphase : Phase s) (hs : Ghif.system.Reachable s.ipc)
    (hinternal : ipcInternal e = true) (hguard : Ghif.flowGuard s.ipc e)
    (hact : s.ipc.act e = some ipc) : Live ({ s with ipc := ipc } : State).settle := by
  rcases hphase.ipcStep hs hinternal hact with ⟨rfl, pni, hcalled⟩ | ⟨-, hphase'⟩
  · exact h.callStep hs hcalled hact
  · rw [hphase'.settle]
    have hne : e ≠ .ulResume := by
      rintro rfl
      cases hinternal
    have hdue := Uplink.Due.change hs (Ghif.State.act_change hact) hne
    exact ⟨h.call.act hs hact hne hguard,
      fun pni status nb hmem => (h.returned pni status nb hmem).imp_right hdue,
      fun hset => hdue (h.throttle hset), h.serves⟩

theorem ulResume (hphase : Phase s) (hguard : (s.active.all fun r => !r.waits) = true)
    (hact : s.ipc.act .ulResume = some ipc) : Live ({ s with ipc := ipc } : State).ulResumeCb := by
  have hnot : ∀ {r : TxRun}, r.waits = true → r ∉ s.active := by
    intro r hwaits hmem
    have hno := all_eq_true.mp hguard r hmem
    rw [hwaits] at hno
    cases hno
  have hcall : s.ipc.ul.call = .idle := by
    by_contra hne
    rcases hphase.called_of_call hne with ⟨pni, hcalled⟩
    refine hnot (r := .submitted pni) rfl ?_
    rw [hcalled.active]
    exact List.mem_singleton_self _
  rcases Ghif.State.act_ulResume hact with ⟨-, rfl⟩
  refine ⟨.of_idle hcall, ?_, nofun, fun _ _ _ => Or.inl (Nat.succ_pos _)⟩
  intro pni status nb hmem
  exact absurd hmem (hnot (r := .returned pni status nb) rfl)

theorem ulComplete (h : Live s) (hs : Ghif.system.Reachable s.ipc)
    (htransferring : Transferring s pni) (hact : s.ipc.act .ulComplete = some ipc) :
    Live ({ s with ipc := ipc } : State).ulCompleteCb := by
  have hdue := Uplink.Due.change hs (Ghif.State.act_change hact) nofun
  rcases Ghif.State.act_ulComplete hact with ⟨-, rfl⟩
  have hlisted' : Listed { s with ipc := { s.ipc with ul :=
      s.ipc.ul.ulCompleteTaskletFunction } } pni s.txSdmaPacketCnt :=
    { htransferring with }
  rcases State.ulCompleteCb_spec hlisted' htransferring.pos htransferring.le with ⟨f, hcb, -⟩
  rw [hcb]
  refine ⟨.of_idle htransferring.call, ?_, fun hset => hdue (h.throttle hset),
    fun _ _ _ => Or.inl (Nat.succ_pos _)⟩
  intro pni' status nb hmem
  change _ ∈ s.active at hmem
  rw [htransferring.active] at hmem
  cases hmem

/-- A step that meets the condition keeps the device working. -/
theorem change {l : Label} (h : Live s) (hsound : Sound s) (hs : Ghif.system.Reachable s.ipc)
    (hguard : liveGuard s l) (hexec : s.exec l = some s') : Live s' := by
  have hkeep {t : State} (hipc : t.ipc = s.ipc) (hactive : t.active = s.active)
      (hthrottle : t.txThrottle = s.txThrottle) (hbusy : t.txBusy = s.txBusy)
      (hscheduled : t.scheduled = s.scheduled)
      (hwaiting : (∀ {pni}, t.Waiting pni → s.Waiting pni)) : Live t := by
    refine h.frame hipc hactive hthrottle ?_
    rw [hbusy, hscheduled]
    exact fun hnot pni hpni => h.serves hnot pni (hwaiting hpni)
  cases State.exec_does hexec with
  | enqueue pni pskb => exact h.txDataStart pni pskb
  | flush pni =>
    unfold State.busControlFlush
    split_ifs
    · rcases State.removePackets_spec pni .flushed nofun 65 s with ⟨f, hf, -⟩
      have hwaiting : ∀ {k : Ni}, (s.flushTxDataFifo pni).Waiting k → s.Waiting k :=
        State.waiting_of_flushTxDataFifo
      rw [State.flushTxDataFifo, hf] at hwaiting ⊢
      exact hkeep rfl rfl rfl rfl rfl hwaiting
    · exact h
  | drain pni =>
    unfold State.busControlTxDrain
    split_ifs
    · exact h.frame rfl rfl rfl (fun _ _ _ => Or.inl (Nat.succ_pos _))
    · exact h
  | create =>
    have hwaiting : ∀ {k : Ni}, s.createNetIface.Waiting k → s.Waiting k :=
      State.waiting_of_createNetIface
    unfold State.createNetIface at hwaiting ⊢
    cases halloc : s.niInterfaceAlloc with
    | none => exact h
    | some pni =>
      rw [halloc] at hwaiting
      exact hkeep rfl rfl rfl rfl rfl hwaiting
  | delete pni =>
    have hwaiting : ∀ {k : Ni}, (s.deleteNetIface pni).Waiting k → s.Waiting k :=
      State.waiting_of_deleteNetIface
    unfold State.deleteNetIface at hwaiting ⊢
    split_ifs at hwaiting ⊢ <;> try exact h
    rcases State.removePackets_spec pni .flushed nofun 65 s with ⟨f, hf, -⟩
    rw [State.flushTxDataFifo, hf] at hwaiting ⊢
    exact hkeep rfl rfl rfl rfl rfl hwaiting
  | multiPacket b => exact hkeep rfl rfl rfl rfl rfl id
  | sdmaTx => exact h.sdmaTx hsound.owned hsound.lte0
  | run hi hstep => exact h.run hs hguard.2 (hsound.phase.runStep hi hstep)
  | ulComplete hact =>
    rcases hsound.phase.transferring_of_tasklet hs hguard.1 (Ghif.State.act_ulComplete hact).1 with
      ⟨pni, htransferring⟩
    exact h.ulComplete hs htransferring hact
  | ulResume hact => exact ulResume hsound.phase hguard.2 hact
  | ipc hinternal hact => exact h.ipcStep hsound.phase hs hinternal hguard.2 hact

end Live

/-! ## Runs -/

theorem ddGuard_of_liveGuard {s : State} (hs : system.ReachableUnder liveGuard s) :
    system.ReachableUnder ddGuard s := by
  induction hs with
  | init h => exact .init h
  | step _ hguard hstep ih => exact .step ih hguard.1 hstep

theorem live_init : Live State.init where
  call := .of_idle rfl
  returned := fun _ _ _ hmem => nomatch hmem
  throttle hset := nomatch hset
  serves := by
    intro _ pni hwaiting
    exact absurd (sound_init.owned.once pni) hwaiting.2

theorem live_of_reachable {s : State} (hs : system.ReachableUnder liveGuard s) : Live s := by
  refine TransitionSystem.ReachableUnder.invariant_along (P := Live) ?_ ?_ hs
  · rintro _ rfl
    exact live_init
  · intro s l s' hreach h hguard hstep
    have hreach' := ddGuard_of_liveGuard hreach
    exact h.change (sound_of_reachable hreach') (ipc_reachable hreach') hguard hstep

/-- In every run that meets the condition: where the device is not busy and packets wait in the
FIFO of a created interface, a run of `lte_dd_sdma_tx` is scheduled, or the device is
throttled and the 4GHIF driver owes a resume: it is paused with a frame that is not yet
acknowledged, or its resume is scheduled. -/
theorem tx_not_stalled {s : State} (hs : system.ReachableUnder liveGuard s) (pni : Ni)
    (hcreated : (s.niInterfaces pni).created = true) (hne : (s.fifo pni).contents ≠ [])
    (hbusy : s.txBusy = false) :
    0 < s.scheduled ∨ s.txThrottle = true ∧
      (s.ipc.ul.bUlPause = true ∧ s.ipc.ul.outstanding ≠ [] ∨ s.ipc.ul.ulResumeTasklet = true) := by
  have hlive := live_of_reachable hs
  rcases hlive.serves hbusy pni ⟨hcreated, hne⟩ with hscheduled | hthrottle
  · exact Or.inl hscheduled
  · exact Or.inr ⟨hthrottle, hlive.throttle hthrottle⟩

/-- A packet that takes a page of the memory. -/
def pageSkb : Skb := ⟨1, 1, 8000, 5⟩

/-- As many packets are enqueued, transferred and completed. -/
def pageRun (n : Nat) : List Label :=
  replicate n (.enqueue 0 pageSkb) ++ replicate n .sdmaTx ++
    replicate (n + 2) (.run 0) ++ replicate (2 * n + 2) (.ipc .submitUlStep) ++
    [.run 0, .ipc .sdmaUl, .ulComplete, .sdmaTx]

/-- The run up to a failed allocation. -/
def shortRun : List Label :=
  Ghif.readyRun.map .ipc ++ pageRun 31 ++ pageRun 17 ++ oneRun pageSkb ++
    [.ipc .submitUlStep, .ipc .submitUlStep]

theorem tx_not_stalled_throttled : ∃ s : State, (s.fifo 0).contents = [pageSkb] ∧
    s.txBusy = false ∧ (0 < s.scheduled ∨ s.txThrottle = true ∧
      (s.ipc.ul.bUlPause = true ∧ s.ipc.ul.outstanding ≠ [] ∨
        s.ipc.ul.ulResumeTasklet = true)) := by
  rcases exists_observed_under
    (P := fun s => (s.niInterfaces 0).created = true ∧ (s.fifo 0).contents = [pageSkb] ∧
      s.txBusy = false) liveGuard
    (shortRun ++ [.ipc .submitUlStep, .ipc .submitUlStep, .run 0])
    (by decide +kernel) (by decide +kernel) with ⟨s, hs, hcreated, hcontents, hbusy⟩
  refine ⟨s, hcontents, hbusy, tx_not_stalled hs 0 hcreated ?_ hbusy⟩
  rw [hcontents]
  exact cons_ne_nil _ _

/-- All frames are acknowledged between a failed allocation and the setting of
`b_ul_pause`: the device is throttled with a packet in its FIFO, no run is scheduled, and no
frame is left whose ACK would bring a resume. -/
theorem tx_stalled : ∃ s : State, system.Reachable s ∧ (s.niInterfaces 0).created = true ∧
    (s.fifo 0).contents = [pageSkb] ∧ s.txBusy = false ∧ s.scheduled = 0 ∧ s.runs = [] ∧
    s.txThrottle = true ∧ s.ipc.ul.outstanding = [] ∧ s.ipc.ul.ulResumeTasklet = false := by
  exact exists_observed_under (fun _ _ => True)
    (shortRun ++ (Ghif.ackRun ++ .replicate 2 .submitUlStep).map .ipc ++ [.run 0])
    (.trivial _ _) (by decide +kernel)

end LteModemKernel.DataDriver
