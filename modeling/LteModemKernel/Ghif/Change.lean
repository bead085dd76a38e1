import LteModemKernel.Ghif.Model

/-!
# What an event can do

One inversion of the events of the driver, from which the invariants of the uplink and of the
downlink are derived.

Main results:

- Theorem `State.act_change`: what an event can do to the state.
- Theorem `fresh_of_reachable`: nothing has happened until the BP is ready.
-/

namespace LteModemKernel.Ghif

open Lib Option Bool TransitionSystem

variable {s s' : State} {u : Uplink} {e : Event} {apReady : Bool} {d : Downlink} {P : State → Prop}

/-! ## Uplink and downlink -/

/-- The lists of packets that `IPC_4GHIF_submit_ul` lets through. -/
structure ValidPackets (packets : List SdmaPacket) : Prop where
  ne : packets ≠ []
  length : packets.length ≤ maxNbFrames
  valid : ∀ p ∈ packets, p.validUl = true

/-- The statuses of a call that is refused; `IPC_4GHIF_STATUS_BUSY` is one of them during a
transfer. -/
def Status.Refuses (busy : Bool) : Status → Prop
  | .ok | .resourcesFull => False
  | .busy => busy = true
  | _ => True

/-- What an event that concerns the uplink alone does to it. -/
inductive UlChange (apReady : Bool) (u : Uplink) : Event → Uplink → Prop where
  | refused {packets} (status : Status) (hcall : u.call = .idle)
      (hstatus : status.Refuses u.bSdmaUlTransferOnGoing) :
      UlChange apReady u (.submitUl packets) (u.ulReturn status 0)
  | entered {packets} (hready : apReady = true) (hcall : u.call = .idle)
      (hbusy : u.bSdmaUlTransferOnGoing = false) (hpackets : ValidPackets packets) :
      UlChange apReady u (.submitUl packets) { u with call := .room packets [], result := none }
  | loopEnd {packets adr}
      (hcall : u.call = .room packets adr) (hlength : adr.length = packets.length) :
      UlChange apReady u .submitUlStep { u with call := .start packets adr .ok }
  | noRoom {packets adr}
      (hcall : u.call = .room packets adr) (hlength : adr.length ≠ packets.length)
      (hspace : u.fifoUl.spaceLeft ≤ adr.length) :
      UlChange apReady u .submitUlStep { u with
        bUlPause := true, call := .start packets adr .resourcesFull }
  | hasRoom {packets adr}
      (hcall : u.call = .room packets adr) (hlength : adr.length ≠ packets.length)
      (hspace : adr.length < u.fifoUl.spaceLeft) :
      UlChange apReady u .submitUlStep { u with call := .alloc packets adr }
  | noMemory {packets adr p mm}
      (hcall : u.call = .alloc packets adr) (hp : packets[adr.length]? = some p)
      (halloc : Buddy.dataUlMmBuddyAlloc u.mm.mm (BitVec.ofNat 16 p.bufSize) = .ok (mm, none)) :
      UlChange apReady u .submitUlStep { u with
        mm := ⟨mm, u.mm.live⟩, call := .pause packets adr }
  | reserved {packets adr p mm a}
      (hcall : u.call = .alloc packets adr) (hp : packets[adr.length]? = some p)
      (halloc : Buddy.dataUlMmBuddyAlloc u.mm.mm (BitVec.ofNat 16 p.bufSize) =
        .ok (mm, some a)) :
      UlChange apReady u .submitUlStep { u with
        mm := ⟨mm, ⟨a, BitVec.ofNat 16 p.bufSize⟩ :: u.mm.live⟩
        accepted := u.accepted ++ [(p, UInt32.ofNat a)]
        call := .room packets (adr ++ [UInt32.ofNat a]) }
  | paused {packets adr}
      (hcall : u.call = .pause packets adr) :
      UlChange apReady u .submitUlStep { u with
        bUlPause := true, call := .start packets adr .resourcesFull }
  | nothing {packets status}
      (hcall : u.call = .start packets [] status) :
      UlChange apReady u .submitUlStep (u.ulReturn .resourcesFull 0)
  | started {packets adr status}
      (hcall : u.call = .start packets adr status) (hadr : adr ≠ []) :
      UlChange apReady u .submitUlStep { u with
        call := .idle
        result := some (status, adr.length)
        starved := u.starved || status = .resourcesFull
        sdmaUlPacketNb := adr.length
        msgTable := fill u.msgTable (ulMsgs packets adr)
        bSdmaUlTransferOnGoing := true
        dmaUl := true }
  | transferred {u'} (hdma : u.dmaUl = true) (hok : u.sdmaUlCallback = .ok u') :
      UlChange apReady u .sdmaUl u'
  | completed (htasklet : u.ulCompleteTasklet = true) :
      UlChange apReady u .ulComplete u.ulCompleteTaskletFunction
  | resumed (htasklet : u.ulResumeTasklet = true) :
      UlChange apReady u .ulResume u.ulResumeTaskletFunction
  | bpRead {msg} (hget : u.fifoUl.getMsg 0 = some msg) :
      UlChange apReady u .bpReadUl (u.bpReadUl msg)
  | bpAck {i msg fifoAckDl} (hheld : u.bpHeld[i]? = some msg)
      (hadd : u.fifoAckDl.addMsg msg.startAddress = some fifoAckDl) :
      UlChange apReady u (.bpAckUl i) { u with
        fifoAckDl := fifoAckDl, bpHeld := u.bpHeld.eraseIdx i }

/-- What an event that concerns the downlink alone does to it. -/
inductive DlChange (d : Downlink) : Event → Downlink → Prop where
  | received : DlChange d .receiveDl { d with receiveDlTasklet := false }
  | polled {r} (hok : d.getDlFramesNb = .ok r) :
      DlChange d .getDlFramesNb r.1
  | submitted (isOpen bpReady apReady : Bool) (packets : List SdmaPacket) :
      DlChange d (.submitDl packets) (d.submitDl isOpen bpReady apReady packets).1
  | transferred {d'} (hdma : d.dmaDl = true) (hok : d.sdmaDlCallback = .ok d') :
      DlChange d .sdmaDl d'
  | completing (htasklet : d.dlCompleteTasklet = true) :
      DlChange d .dlComplete { d with
        dlCompleteTasklet := false, bSdmaDlTransferOnGoing := false, dlCompleting := true }
  | bpWrote {msg fifoDl} (hvalid : msg.validDl d.bpStarted = true)
      (hadd : d.fifoDl.addMsg msg = some fifoDl) :
      DlChange d (.bpWriteDl msg) { d with
        fifoDl := fifoDl
        bpStarted := true
        written := if msg.type = .initReq then d.written else d.written ++ [msg] }
  | bpAckRead {adr} (hget : d.fifoAckUl.getMsg 0 = some adr) :
      DlChange d .bpReadAck (d.bpReadAck adr)

/-- The events that process the messages of the BP, with the downlink as they find it. -/
inductive Processing (d : Downlink) : Event → Downlink → Prop where
  | mailbox : Processing d .mailbox d
  | bpReady (htasklet : d.bpReadyTasklet = true) :
      Processing d .bpReady { d with bpReadyTasklet := false, bProcessDlMsgOnGoing := false }
  | dlCompleted (hcompleting : d.dlCompleting = true) :
      Processing d .dlCompleted { d with dlCompleting := false, bProcessDlMsgOnGoing := false }

/-- What an event does to the state. -/
inductive Change (s : State) : Event → State → Prop where
  | same (e : Event) : Change s e s
  | opened (hclosed : s.bIpc4ghifOpen = false) : Change s .openIpc s.openIpc.1
  | closed : Change s .closeIpc { s with bIpc4ghifOpen := false }
  | initCnf {fifoUl} (hbp : s.bBpReady = true) (hap : s.bApReady = false)
      (hadd : s.ul.fifoUl.addMsg State.initCnfMsg = some fifoUl) :
      Change s .ready { s with
        ul := { s.ul with fifoUl := fifoUl, added := s.ul.added ++ [State.initCnfMsg] }
        bApReady := true }
  | ul {e : Event} {u : Uplink} (h : UlChange s.bApReady s.ul e u) : Change s e { s with ul := u }
  | dl {e : Event} {d} (h : DlChange s.dl e d) : Change s e { s with dl := d }
  | processed {e : Event} {u : Uplink} {d d' bpReady}
      (hprocess : Processing s.dl e d) (hul : s.ul.fifoAckProcessDlMsg = .ok u)
      (hdl : d.fifoProcessDlMsg s.bBpReady = .ok (d', bpReady)) :
      Change s e { s with ul := u, dl := d', bBpReady := bpReady }

/-! ## The inversion -/

/-- A call of `IPC_4GHIF_submit_ul` is refused or enters its loop. -/
theorem Uplink.submitUl_change (hcall : u.call = .idle) {isOpen bpReady : Bool}
    {packets : List SdmaPacket} :
    UlChange apReady u (.submitUl packets) (u.submitUl isOpen bpReady apReady packets) := by
  unfold submitUl
  split_ifs with hopen hbp hap hbusy hlength hvalid
  · exact .refused _ hcall trivial
  · exact .refused _ hcall trivial
  · exact .refused _ hcall trivial
  · exact .refused _ hcall hbusy
  · exact .refused _ hcall trivial
  · exact .refused _ hcall trivial
  · push Not at hlength
    refine .entered (by simpa using hap) hcall (eq_false_of_not_eq_true hbusy)
      ⟨hlength.1, hlength.2, ?_⟩
    intro p hp
    by_contra hne
    exact hvalid (List.any_eq_true.mpr ⟨p, hp, by simpa using hne⟩)

theorem Uplink.submitUlStep_change {u' : Uplink} (hbusy : u.call ≠ .idle)
    (h : u.submitUlStep = .ok u') : UlChange apReady u .submitUlStep u' ∨ u' = u := by
  unfold submitUlStep at h
  split at h
  · next hcall => exact absurd hcall hbusy
  · next packets adr hcall =>
    cases h
    left
    unfold testRoom
    split_ifs with hlength hspace
    · exact .loopEnd hcall hlength
    · exact .noRoom hcall hlength hspace
    · exact .hasRoom hcall hlength (not_le.mp hspace)
  · next packets adr hcall =>
    unfold allocBlock at h
    split at h
    · cases h
      exact .inr rfl
    · next p hp =>
      left
      split at h
      · cases h
      · next mm halloc =>
        cases h
        exact .noMemory hcall hp halloc
      · next mm a halloc =>
        cases h
        exact .reserved hcall hp halloc
  · next packets adr hcall =>
    cases h
    exact .inl (.paused hcall)
  · next packets adr status hcall =>
    cases h
    left
    unfold startTransfer
    split_ifs with hadr
    · subst hadr
      exact .nothing hcall
    · exact .started hcall hadr

theorem bind_eq_ok {ε α β : Type} {x : Except ε α} {f : α → Except ε β} {y : β} :
    x >>= f = .ok y ↔ ∃ a, x = .ok a ∧ f a = .ok y := by
  cases x <;> simp [bind, Except.bind]

theorem State.processMsgs_ok (h : s.processMsgs = .ok s') :
    ∃ ul dl bpReady, s.ul.fifoAckProcessDlMsg = .ok ul ∧
      s.dl.fifoProcessDlMsg s.bBpReady = .ok (dl, bpReady) ∧
      s' = { s with ul := ul, dl := dl, bBpReady := bpReady } := by
  rcases bind_eq_ok.mp h with ⟨ul, hul, h⟩
  rcases bind_eq_ok.mp h with ⟨r, hdl, ⟨⟩⟩
  exact ⟨ul, r.1, r.2, hul, hdl, rfl⟩

/-- An event that happens has a result of its function. -/
theorem State.act_eq_some (h : s.act e = some s') : s.exec e = some (.ok s') := by
  rcases bind_eq_some_iff.mp h with ⟨r, hexec, hr⟩
  cases r <;> cases hr
  exact hexec

theorem ok_of_map {ε α β : Type} {r : Except ε α} {f : α → β} {b : β}
    (h : some (r.map f) = some (.ok b)) : ∃ a, r = .ok a ∧ f a = b := by
  cases r with
  | error text => cases h
  | ok a =>
    cases h
    exact ⟨a, rfl, rfl⟩

theorem State.act_submitUl {packets : List SdmaPacket}
    (h : s.act (.submitUl packets) = some s') : s.ul.call = .idle ∧ s' = { s with
      ul := s.ul.submitUl s.bIpc4ghifOpen s.bBpReady s.bApReady packets } := by
  rcases ite_none_right_eq_some.mp (act_eq_some h) with ⟨hcall, ⟨⟩⟩
  exact ⟨hcall, rfl⟩

theorem State.act_submitUlStep (h : s.act .submitUlStep = some s') :
    s.ul.call ≠ .idle ∧ ∃ ul, s.ul.submitUlStep = .ok ul ∧ s' = { s with ul := ul } := by
  rcases ite_none_left_eq_some.mp (act_eq_some h) with ⟨hcall, hexec⟩
  rcases ok_of_map hexec with ⟨ul, hul, rfl⟩
  exact ⟨hcall, ul, hul, rfl⟩

theorem State.act_ulComplete (h : s.act .ulComplete = some s') :
    s.ul.ulCompleteTasklet = true ∧ s' = { s with ul := s.ul.ulCompleteTaskletFunction } := by
  rcases ite_none_right_eq_some.mp (act_eq_some h) with ⟨htasklet, ⟨⟩⟩
  exact ⟨htasklet, rfl⟩

theorem State.act_ulResume (h : s.act .ulResume = some s') :
    s.ul.ulResumeTasklet = true ∧ s' = { s with ul := s.ul.ulResumeTaskletFunction } := by
  rcases ite_none_right_eq_some.mp (act_eq_some h) with ⟨htasklet, ⟨⟩⟩
  exact ⟨htasklet, rfl⟩

theorem State.processMsgs_change (hprocess : Processing s.dl e d)
    (h : ({ s with dl := d } : State).processMsgs = .ok s') : Change s e s' := by
  rcases processMsgs_ok h with ⟨ul, dl, bpReady, hul, hdl, rfl⟩
  exact .processed hprocess hul hdl

theorem State.act_change (h : s.act e = some s') : Change s e s' := by
  have hexec := act_eq_some h
  cases e with
  | openIpc =>
    cases hexec
    by_cases hopen : s.bIpc4ghifOpen = true
    · rw [openIpc, if_pos hopen]
      exact .same _
    · exact .opened (eq_false_of_not_eq_true hopen)
  | closeIpc =>
    cases hexec
    unfold closeIpc
    split_ifs
    · exact .same _
    · exact .closed
  | ready =>
    rcases ok_of_map hexec with ⟨r, hr, rfl⟩
    unfold ready at hr
    split_ifs at hr with hopen hbp hap <;> try (cases hr; exact .same _)
    simp only [Uplink.addMsgs] at hr
    split at hr
    · cases hr
    · next fifoUl hadd =>
      cases hr
      exact .initCnf (by simpa using hbp) (eq_false_of_not_eq_true hap) hadd
  | submitUl packets =>
    rcases act_submitUl h with ⟨hcall, rfl⟩
    exact .ul (Uplink.submitUl_change hcall)
  | submitUlStep =>
    rcases act_submitUlStep h with ⟨hcall, ul, hul, rfl⟩
    rcases Uplink.submitUlStep_change hcall hul with hchange | rfl
    · exact .ul hchange
    · exact .same _
  | sdmaUl =>
    rcases ite_none_right_eq_some.mp hexec with ⟨hdma, hexec⟩
    rcases ok_of_map hexec with ⟨ul, hul, rfl⟩
    exact .ul (.transferred hdma hul)
  | ulComplete =>
    rcases act_ulComplete h with ⟨htasklet, rfl⟩
    exact .ul (.completed htasklet)
  | ulResume =>
    rcases act_ulResume h with ⟨htasklet, rfl⟩
    exact .ul (.resumed htasklet)
  | mailbox =>
    rcases ite_none_right_eq_some.mp hexec with ⟨-, hexec⟩
    exact processMsgs_change .mailbox (some.inj hexec)
  | bpReady =>
    rcases ite_none_right_eq_some.mp hexec with ⟨htasklet, hexec⟩
    exact processMsgs_change (.bpReady htasklet) (some.inj hexec)
  | receiveDl =>
    rcases ite_none_right_eq_some.mp hexec with ⟨-, ⟨⟩⟩
    exact .dl .received
  | getDlFramesNb =>
    rcases ok_of_map hexec with ⟨r, hr, rfl⟩
    exact .dl (.polled hr)
  | submitDl packets =>
    cases hexec
    exact .dl (.submitted _ _ _ _)
  | sdmaDl =>
    rcases ite_none_right_eq_some.mp hexec with ⟨hdma, hexec⟩
    rcases ok_of_map hexec with ⟨dl, hdl, rfl⟩
    exact .dl (.transferred hdma hdl)
  | dlComplete =>
    rcases ite_none_right_eq_some.mp hexec with ⟨htasklet, ⟨⟩⟩
    exact .dl (.completing htasklet.1)
  | dlCompleted =>
    rcases ite_none_right_eq_some.mp hexec with ⟨hcompleting, hexec⟩
    exact processMsgs_change (.dlCompleted hcompleting) (some.inj hexec)
  | bpReadUl =>
    rcases map_eq_some_iff.mp hexec with ⟨msg, hget, ⟨⟩⟩
    exact .ul (.bpRead hget)
  | bpAckUl i =>
    rcases map_eq_some_iff.mp hexec with ⟨ul, hack, ⟨⟩⟩
    unfold Uplink.bpAckUl at hack
    split at hack
    · cases hack
    · next msg hheld =>
      rcases map_eq_some_iff.mp hack with ⟨fifoAckDl, hadd, rfl⟩
      exact .ul (.bpAck hheld hadd)
  | bpWriteDl msg =>
    rcases ite_none_right_eq_some.mp hexec with ⟨hvalid, hexec⟩
    rcases map_eq_some_iff.mp hexec with ⟨dl, hwrite, ⟨⟩⟩
    rcases map_eq_some_iff.mp hwrite with ⟨fifoDl, hadd, rfl⟩
    exact .dl (.bpWrote hvalid hadd)
  | bpReadAck =>
    rcases map_eq_some_iff.mp hexec with ⟨adr, hget, ⟨⟩⟩
    exact .dl (.bpAckRead hget)

theorem exists_observed (events : List Event)
    (hrun : ∃ s ∈ runLabels State.act State.init events, P s) : ∃ s, system.Reachable s ∧ P s :=
  Reachable.exists_observed events (.init rfl) hrun

theorem exists_observed_under (guard : State → Event → Prop) (events : List Event)
    (hguard : Guarded State.act guard State.init events)
    (hrun : ∃ s ∈ runLabels State.act State.init events, P s) :
    ∃ s, system.ReachableUnder guard s ∧ P s :=
  ReachableUnder.exists_observed events (.init rfl) ⟨hguard, hrun⟩

/-! ## Until the BP is ready -/

/-- Until the BP is ready nothing has happened on the uplink, besides calls that were
refused. -/
structure Fresh (s : State) : Prop where
  ap : s.bApReady = false
  ul : s.ul = { Uplink.init with result := s.ul.result }

/-- Once the BP is ready it stays so. -/
theorem Downlink.fifoProcessDlMsg_ready {d' : Downlink} {r : Bool}
    (h : d.fifoProcessDlMsg true = .ok (d', r)) : r = true := by
  simp only [fifoProcessDlMsg, Bool.not_true, Bool.false_eq_true, if_false] at h
  split_ifs at h with hbusy
  · cases h
    rfl
  · rcases bind_eq_ok.mp h with ⟨d'', -, h⟩
    split_ifs at h <;> cases h <;> rfl

theorem State.openIpc_bBpReady (s : State) : s.openIpc.1.bBpReady = s.bBpReady := by
  unfold openIpc
  split_ifs <;> rfl

theorem Change.bBpReady (h : Change s e s') (hready : s.bBpReady = true) : s'.bBpReady = true := by
  cases h with
  | same e | closed | initCnf hbp hap hadd | ul h | dl h => exact hready
  | opened hclosed =>
    rw [State.openIpc_bBpReady]
    exact hready
  | processed hprocess hul hdl =>
    rw [hready] at hdl
    exact Downlink.fifoProcessDlMsg_ready hdl

/-- Opening the driver changes nothing on the uplink. -/
theorem State.openIpc_frame (hfresh : s.bBpReady = false → Fresh s) :
    s.openIpc.1.ul = s.ul ∧ s.openIpc.1.bApReady = s.bApReady := by
  unfold openIpc
  split_ifs with hopen hbp
  · exact ⟨rfl, rfl⟩
  · exact ⟨rfl, rfl⟩
  · refine ⟨?_, rfl⟩
    rw [(hfresh (eq_false_of_not_eq_true hbp)).ul]
    rfl

theorem Fresh.ulChange {u' : Uplink} (hu : u = { Uplink.init with result := u.result })
    (h : UlChange false u e u') : u' = { Uplink.init with result := u'.result } := by
  have hcall : u.call = .idle := by rw [hu]; rfl
  cases h with
  | refused status hcall hstatus =>
    rw [hu]
    cases status <;> first | exact hstatus.elim | rfl
  | entered hready => cases hready
  | loopEnd h | noRoom h | hasRoom h | noMemory h | reserved h | paused h | nothing h | started h =>
    cases hcall.symm.trans h
  | transferred h _ | completed h | resumed h | bpRead h | bpAck h _ =>
    rw [hu] at h
    cases h

theorem fresh_of_reachable (hs : system.Reachable s) : s.bBpReady = false → Fresh s := by
  refine Reachable.invariant (P := fun s => s.bBpReady = false → Fresh s)
    ?_ ?_ hs
  · rintro _ rfl _
    exact ⟨rfl, rfl⟩
  · intro s e s' h hstep hbp'
    have hchange := State.act_change hstep
    have hbp : s.bBpReady = false := by
      by_contra hne
      have hready := hchange.bBpReady (eq_true_of_not_eq_false hne)
      cases hbp'.symm.trans hready
    have hfresh := h hbp
    cases hchange with
    | same e => exact hfresh
    | opened hclosed =>
      rcases State.openIpc_frame (fun _ => hfresh) with ⟨hul, hap⟩
      exact ⟨hap.trans hfresh.ap, by rw [hul]; exact hfresh.ul⟩
    | closed | dl hdl => exact ⟨hfresh.ap, hfresh.ul⟩
    | initCnf hready hap hadd =>
      cases hbp.symm.trans hready
    | ul hul =>
      rw [hfresh.ap] at hul
      exact ⟨hfresh.ap, Fresh.ulChange hfresh.ul hul⟩
    | processed hprocess hul hdl =>
      refine ⟨hfresh.ap, ?_⟩
      rw [hfresh.ul] at hul
      cases hul
      rfl

end LteModemKernel.Ghif
