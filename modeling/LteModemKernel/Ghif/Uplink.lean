import LteModemKernel.Ghif.Change

/-!
# Room in the uplink FIFO

`IPC_4GHIF_submit_ul` tests the room in `FIFO_UL` when it accepts a frame; the slot is
taken later, in the callback of the sDMA controller.  So the slots of the accepted frames are
reserved: the call, and after it the transfer, hold a claim on as many of the free slots.

Main results:

- Theorem `UlInv.ulChange`: the claims are covered by the free slots in every state.
- Theorem `fifoUl_never_overflows`: the callback never finds the FIFO full, and unread
  messages stay as they are.
-/

namespace LteModemKernel.Ghif

open Lib List State Nat Bool

/-! ## Loops -/

/-- Messages that there is room for are appended. -/
theorem Uplink.addMsgs_spec (text : String) {msgs : List FifoMsg} {u : Uplink}
    (h : msgs.length ≤ u.fifoUl.spaceLeft) :
    ∃ fifoUl, u.addMsgs text msgs = .ok { u with fifoUl := fifoUl, added := u.added ++ msgs } ∧
      fifoUl.contents = u.fifoUl.contents ++ msgs := by
  induction msgs generalizing u with
  | nil => exact ⟨u.fifoUl, by rw [addMsgs, append_nil], by rw [append_nil]⟩
  | cons msg rest ih =>
    rcases Fifo.addMsg_cons h with ⟨f, hadd, hroom, hcontents⟩
    rcases ih (u := { u with fifoUl := f, added := u.added ++ [msg] }) hroom with
      ⟨f', hrest, hcontents'⟩
    exact ⟨f', by simp [addMsgs, hadd, hrest], hcontents'.trans hcontents⟩

theorem Uplink.tryResume_frame (u : Uplink) : ∃ pause resume starved,
    u.tryResume = { u with
      bUlPause := pause, ulResumeTasklet := resume, starved := starved } := by
  unfold tryResume
  split_ifs <;> exact ⟨_, _, _, rfl⟩

variable {u u' : Uplink} {e : Event} {fuel : Nat} {s s' : State}

theorem Uplink.processAck_frame {adr : UInt32} (h : u.processAck adr = .ok u') :
    ∃ mm freed pause resume starved fifoAckDl, u' = { u with
      mm := mm, freed := freed, bUlPause := pause, ulResumeTasklet := resume,
      starved := starved, fifoAckDl := fifoAckDl } := by
  unfold processAck at h
  split at h
  · cases h
  · next mm _ =>
    rcases tryResume_frame { u with mm := mm, freed := u.freed ++ [adr] } with
      ⟨pause, resume, starved, hresume⟩
    simp only [hresume] at h
    cases h
    exact ⟨_, _, _, _, _, _, rfl⟩

/-- What the processing of one ACK keeps, the loop keeps. -/
@[elab_as_elim]
theorem Uplink.processAcks_induction {P : Uplink → Prop} (hu : P u)
    (hstep : ∀ {u u' : Uplink} {adr : UInt32}, P u → u.fifoAckDl.getMsg 0 = some adr →
      u.processAck adr = .ok u' → P u') (h : u.processAcks fuel = .ok u') : P u' := by
  induction fuel generalizing u with
  | zero =>
    cases h
    exact hu
  | succ fuel ih =>
    unfold processAcks at h
    split at h
    · cases h
      exact hu
    · next adr hget =>
      rcases bind_eq_ok.mp h with ⟨u₁, hack, h⟩
      exact ih (hstep hu hget hack) h

theorem Uplink.processAcks_frame (h : u.processAcks fuel = .ok u') :
    ∃ mm freed pause resume starved fifoAckDl, u' = { u with
      mm := mm, freed := freed, bUlPause := pause, ulResumeTasklet := resume,
      starved := starved, fifoAckDl := fifoAckDl } := by
  refine processAcks_induction ?_ ?_ h
  · exact ⟨_, _, _, _, _, _, rfl⟩
  · rintro _ _ _ ⟨_, _, _, _, _, _, rfl⟩ - hack
    rcases processAck_frame hack with ⟨_, _, _, _, _, _, rfl⟩
    exact ⟨_, _, _, _, _, _, rfl⟩

/-! ## The invariant -/

/-- The number of slots that a call has claimed. -/
def UlCall.claimed : UlCall → Nat
  | .idle => 0
  | .room _ adr | .pause _ adr | .start _ adr _ => adr.length
  | .alloc _ adr => adr.length + 1

/-- A call is about a list of packets that passed the checks, and has not reserved more
blocks than there are packets; its status is a success if there is one for each. -/
def UlCall.Wf : UlCall → Prop
  | .idle => True
  | .room packets adr => ValidPackets packets ∧ adr.length ≤ packets.length
  | .start packets adr status => ValidPackets packets ∧
      (status = .ok ∧ adr.length = packets.length ∨
        status = .resourcesFull ∧ adr.length < packets.length)
  | .alloc packets adr | .pause packets adr =>
    ValidPackets packets ∧ adr.length < packets.length

/-- The uplink is in order: at most one of a call, a transfer and its completion is under
way, and the free slots of `FIFO_UL` cover what is claimed. -/
structure UlInv (apReady : Bool) (u : Uplink) : Prop where
  flag : u.bSdmaUlTransferOnGoing = (u.dmaUl || u.ulCompleteTasklet)
  once : u.dmaUl = true → u.ulCompleteTasklet = false
  calm : u.call ≠ .idle → u.bSdmaUlTransferOnGoing = false
  ready : u.call ≠ .idle ∨ u.dmaUl = true → apReady = true
  room : u.call.claimed + (if u.dmaUl then u.sdmaUlPacketNb else 0) ≤ u.fifoUl.spaceLeft
  wf : u.call.Wf

namespace UlInv

variable {apReady : Bool}

section

variable (h : UlInv apReady u)
include h

theorem not_of_not_flag (hcalm : u.bSdmaUlTransferOnGoing = false) :
    u.dmaUl = false ∧ u.ulCompleteTasklet = false :=
  or_eq_false_iff.mp (h.flag.symm.trans hcalm)

theorem not_dma (hcall : u.call ≠ .idle) : u.dmaUl = false :=
  (h.not_of_not_flag (h.calm hcall)).1

theorem idle_of_dma (hdma : u.dmaUl = true) : u.call = .idle := by
  by_contra hcall
  cases hdma.symm.trans (h.not_dma hcall)

theorem claimed_le : u.call.claimed ≤ u.fifoUl.spaceLeft :=
  le_trans (le_add_right _ _) h.room

/-- A step of a call that does not start the transfer. -/
theorem step {b c : UlCall} (hcall : u.call = b) (hbusy : b ≠ .idle)
    (hnext : b.claimed ≤ u.fifoUl.spaceLeft → b.Wf → c.claimed ≤ u.fifoUl.spaceLeft ∧ c.Wf) :
    UlInv apReady { u with call := c } := by
  subst hcall
  rcases hnext h.claimed_le h.wf with ⟨hroom, hwf⟩
  refine ⟨h.flag, h.once, fun _ => h.calm hbusy, fun _ => h.ready (.inl hbusy), ?_, hwf⟩
  rw [h.not_dma hbusy]
  exact hroom

/-- The callback of the sDMA controller finds room for the messages of its transfer. -/
theorem sdmaUlCallback (hdma : u.dmaUl = true) :
    ∃ fifoUl, u.sdmaUlCallback = .ok { u with
        fifoUl := fifoUl, added := u.added ++ u.transferMsgs, dmaUl := false,
        ulCompleteTasklet := true } ∧
      fifoUl.contents = u.fifoUl.contents ++ u.transferMsgs := by
  have hroom := h.room
  rw [if_pos hdma] at hroom
  have hlength : u.transferMsgs.length = u.sdmaUlPacketNb := by
    rw [Uplink.transferMsgs, length_map, length_range]
  rcases Uplink.addMsgs_spec
    "4GHIF ERROR in sdma_4ghif_ul_callback: no space in FIFO for DATA UL msg\n"
    (show u.transferMsgs.length ≤ u.fifoUl.spaceLeft by omega) with ⟨f, hadd, hcontents⟩
  refine ⟨f, ?_, hcontents⟩
  rw [Uplink.sdmaUlCallback, hadd]
  rfl

/-- The callback hands the claim of the transfer over to the messages it adds. -/
theorem transferred (hdma : u.dmaUl = true) (hok : u.sdmaUlCallback = .ok u') :
    UlInv apReady u' := by
  rcases h.sdmaUlCallback hdma with ⟨f, hcallback, hcontents⟩
  cases hok.symm.trans hcallback
  have hidle := h.idle_of_dma hdma
  refine ⟨?_, ?_, ?_, ?_, ?_, h.wf⟩
  · rw [h.flag, hdma]
    rfl
  · exact nofun
  · intro hcall
    exact absurd hidle hcall
  · intro hcase
    exact h.ready (.inr hdma)
  · rw [hidle]
    exact zero_le _

theorem ulChange (hchange : UlChange apReady u e u') : UlInv apReady u' := by
  cases hchange with
  | refused status hcall hstatus =>
    have hkept : UlInv apReady { u with call := .idle } := hcall ▸ { h with }
    exact { hkept with }
  | entered hready hcall hbusy hpackets =>
    refine ⟨h.flag, h.once, fun _ => hbusy, fun _ => hready, ?_, hpackets, zero_le _⟩
    rw [(h.not_of_not_flag hbusy).1]
    exact zero_le _
  | loopEnd hcall hlength =>
    exact h.step hcall nofun fun hroom hwf => ⟨hroom, hwf.1, .inl ⟨rfl, hlength⟩⟩
  | noRoom hcall hlength hspace =>
    have hstep := h.step (c := .start _ _ .resourcesFull) hcall nofun fun hroom hwf =>
      ⟨hroom, hwf.1, .inr ⟨rfl, lt_of_le_of_ne hwf.2 hlength⟩⟩
    exact { hstep with }
  | hasRoom hcall hlength hspace =>
    exact h.step hcall nofun fun _ hwf => ⟨hspace, hwf.1, lt_of_le_of_ne hwf.2 hlength⟩
  | noMemory hcall hp halloc =>
    have hstep := h.step (c := .pause _ _) hcall nofun fun hroom hwf =>
      ⟨le_of_succ_le hroom, hwf⟩
    exact { hstep with }
  | @reserved packets adr p mm a hcall hp halloc =>
    have hstep := h.step (c := .room packets (adr ++ [UInt32.ofNat a])) hcall nofun
      fun hroom hwf => ⟨by rw [UlCall.claimed, length_append]; exact hroom, hwf.1,
        by rw [length_append]; exact hwf.2⟩
    exact { hstep with }
  | paused hcall =>
    have hstep := h.step (c := .start _ _ .resourcesFull) hcall nofun fun hroom hwf =>
      ⟨hroom, hwf.1, .inr ⟨rfl, hwf.2⟩⟩
    exact { hstep with }
  | nothing hcall =>
    have hstep := h.step (c := .idle) hcall nofun fun _ _ => ⟨zero_le _, trivial⟩
    exact { hstep with }
  | started hcall hadr =>
    have hne : u.call ≠ .idle := by rw [hcall]; exact nofun
    have htasklet := (h.not_of_not_flag (h.calm hne)).2
    have hroom := h.claimed_le
    rw [hcall] at hroom
    refine ⟨rfl, fun _ => htasklet, ?_, fun _ => h.ready (.inl hne), ?_, trivial⟩
    · intro hidle
      exact absurd rfl hidle
    · change 0 + _ ≤ _
      rw [zero_add]
      exact hroom
  | transferred hdma hok => exact h.transferred hdma hok
  | completed htasklet =>
    have hdma : u.dmaUl = false := by
      by_contra hne
      have honce := h.once (eq_true_of_not_eq_false hne)
      cases htasklet.symm.trans honce
    refine ⟨?_, fun _ => rfl, fun _ => rfl, h.ready, h.room, h.wf⟩
    change false = (u.dmaUl || false)
    rw [hdma]
    rfl
  | resumed htasklet | bpAck hheld hadd => exact { h with }
  | bpRead hget =>
    refine { h with room := le_trans h.room ?_ }
    have hbefore := Fifo.length_add_spaceLeft u.fifoUl
    have hafter := Fifo.length_add_spaceLeft (u.fifoUl.incrementReadInd 1)
    rw [Fifo.getMsg_zero hget, length_cons] at hbefore
    change u.fifoUl.spaceLeft ≤ (u.fifoUl.incrementReadInd 1).spaceLeft
    omega

end

theorem idle_of_not_ready (h : UlInv false u) : u.call = .idle ∧ u.dmaUl = false := by
  constructor
  · by_contra hcall
    cases h.ready (.inl hcall)
  · by_contra hdma
    cases h.ready (.inr (eq_true_of_not_eq_false hdma))

/-- A step of the driver or of the BP keeps the invariant. -/
theorem change (hfresh : s.bBpReady = false → Fresh s) (h : UlInv s.bApReady s.ul)
    (hchange : Change s e s') : UlInv s'.bApReady s'.ul := by
  cases hchange with
  | same e | closed | dl hdl => exact h
  | opened hclosed =>
    rcases openIpc_frame hfresh with ⟨hul, hap⟩
    rw [hul, hap]
    exact h
  | initCnf hbp hap hadd =>
    rw [hap] at h
    rcases h.idle_of_not_ready with ⟨hidle, hdma⟩
    refine ⟨h.flag, h.once, h.calm, fun _ => rfl, ?_, h.wf⟩
    rw [hidle, hdma]
    exact zero_le _
  | ul hul => exact h.ulChange hul
  | processed hprocess hul hdl =>
    rcases Uplink.processAcks_frame hul with ⟨mm, freed, pause, resume, starved, f, rfl⟩
    exact { h with }

end UlInv

theorem ulInv_of_reachable (hs : system.Reachable s) : UlInv s.bApReady s.ul := by
  refine TransitionSystem.ReachableUnder.invariant_along
    (P := fun s : State => UlInv s.bApReady s.ul) ?_ ?_ hs
  · rintro _ rfl
    exact ⟨rfl, fun _ => rfl, fun _ => rfl, by decide, zero_le _, trivial⟩
  · intro s e s' hreach h _ hstep
    exact h.change (fresh_of_reachable hreach) (act_change hstep)

/-! ## The messages in the FIFO -/

/-- What an event does to `FIFO_UL`: messages are added behind the unread ones, or the BP
reads the first one. -/
inductive FifoUlChange (u u' : Uplink) : Prop where
  | appended (msgs : List FifoMsg) (hcontents : u'.fifoUl.contents = u.fifoUl.contents ++ msgs)
      (hadded : u'.added = u.added ++ msgs) (htaken : u'.taken = u.taken)
  | read (msg : FifoMsg) (hcontents : u.fifoUl.contents = msg :: u'.fifoUl.contents)
      (hadded : u'.added = u.added) (htaken : u'.taken = u.taken ++ [msg])

theorem FifoUlChange.same (hfifo : u'.fifoUl = u.fifoUl) (hadded : u'.added = u.added)
    (htaken : u'.taken = u.taken) : FifoUlChange u u' :=
  .appended [] (by rw [hfifo, append_nil]) (by rw [hadded, append_nil]) htaken

/-- A step of the uplink at `FIFO_UL`. -/
theorem UlInv.fifoUl_ulChange {apReady : Bool} (h : UlInv apReady u)
    (hchange : UlChange apReady u e u') : FifoUlChange u u' := by
  cases hchange with
  | transferred hdma hok =>
    rcases h.sdmaUlCallback hdma with ⟨f, hcallback, hcontents⟩
    cases hok.symm.trans hcallback
    exact .appended _ hcontents rfl rfl
  | bpRead hget => exact .read _ (Fifo.getMsg_zero hget) rfl rfl
  | refused | entered | loopEnd | noRoom | hasRoom | noMemory | reserved | paused | nothing
  | started | completed | resumed | bpAck => exact .same rfl rfl rfl

theorem UlInv.fifoUl_change (hfresh : s.bBpReady = false → Fresh s) (h : UlInv s.bApReady s.ul)
    (hchange : Change s e s') : FifoUlChange s.ul s'.ul := by
  cases hchange with
  | same e | closed | dl hdl => exact .same rfl rfl rfl
  | opened hclosed =>
    rw [(openIpc_frame hfresh).1]
    exact .same rfl rfl rfl
  | initCnf hbp hap hadd => exact .appended _ (Fifo.addMsg_contents hadd).2 rfl rfl
  | ul hul => exact h.fifoUl_ulChange hul
  | processed hprocess hul hdl =>
    rcases Uplink.processAcks_frame hul with ⟨mm, freed, pause, resume, starved, f, rfl⟩
    exact .same rfl rfl rfl

theorem fifoUl_history (hs : system.Reachable s) :
    s.ul.taken ++ s.ul.fifoUl.contents = s.ul.added := by
  refine TransitionSystem.ReachableUnder.invariant_along
    (P := fun s : State => s.ul.taken ++ s.ul.fifoUl.contents = s.ul.added) ?_ ?_ hs
  · rintro _ rfl
    rfl
  · intro s e s' hreach h _ hstep
    have hchange := (ulInv_of_reachable hreach).fifoUl_change (fresh_of_reachable hreach)
      (act_change hstep)
    cases hchange with
    | appended msgs hcontents hadded htaken =>
      rw [htaken, hcontents, hadded, ← h, append_assoc]
    | read msg hcontents hadded htaken =>
      rw [htaken, hadded, ← h, hcontents, append_assoc]
      rfl

/-- `FIFO_UL` never overflows: it holds at most 255 messages, all that was put there and
not read; an event takes away only what the BP reads and adds only behind the unread messages;
and the callback of the sDMA controller does not panic. -/
theorem fifoUl_never_overflows {s : State} (hs : system.Reachable s) :
    s.ul.fifoUl.contents.length ≤ 255 ∧
    s.ul.taken ++ s.ul.fifoUl.contents = s.ul.added ∧
    (∀ e s', s.act e = some s' → ∃ read rest new,
      s.ul.fifoUl.contents = read ++ rest ∧ s'.ul.fifoUl.contents = rest ++ new ∧
      s'.ul.taken = s.ul.taken ++ read ∧ s'.ul.added = s.ul.added ++ new) ∧
    ∀ text, s.exec .sdmaUl ≠ some (.error text) := by
  have hinv := ulInv_of_reachable hs
  refine ⟨?_, fifoUl_history hs, ?_, ?_⟩
  · have hlength := Fifo.length_add_spaceLeft s.ul.fifoUl
    omega
  · intro e s' hact
    cases hinv.fifoUl_change (fresh_of_reachable hs) (act_change hact) with
    | appended msgs hcontents hadded htaken =>
      exact ⟨[], _, msgs, rfl, hcontents, by rw [htaken, append_nil], hadded⟩
    | read msg hcontents hadded htaken =>
      exact ⟨[msg], _, [], hcontents, (append_nil _).symm, htaken, by rw [hadded, append_nil]⟩
  · intro text hexec
    simp only [exec] at hexec
    split_ifs at hexec with hdma
    rcases hinv.sdmaUlCallback hdma with ⟨f, hcallback, -⟩
    rw [hcallback] at hexec
    cases hexec

/-- The run up to the transfer of a packet. -/
def oneFrameRun : List Event :=
  [.openIpc, .bpWriteDl ⟨.initReq, 0, 0, 0⟩, .mailbox, .bpReady, .ready,
    .submitUl [⟨.ulData, 1, 100, 5⟩], .submitUlStep, .submitUlStep, .submitUlStep, .submitUlStep]

theorem fifoUl_never_overflows_transfer :
    ∃ s : State, (s.ul.dmaUl = true ∧ s.ul.fifoUl.contents.length ≤ 255) ∧
      ∀ text, s.exec .sdmaUl ≠ some (.error text) := by
  rcases exists_observed (P := fun s => s.ul.dmaUl) oneFrameRun (by decide +kernel) with
    ⟨s, hs, hdma⟩
  have hprop := fifoUl_never_overflows hs
  exact ⟨s, ⟨hdma, hprop.1⟩, hprop.2.2.2⟩

end LteModemKernel.Ghif
