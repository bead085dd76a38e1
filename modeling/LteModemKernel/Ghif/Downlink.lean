import LteModemKernel.Ghif.Conservation

/-!
# Acknowledgement of downlink frames

`fifo_4ghif_get_frame_info` copies the descriptions of the frames at the front of
`FIFO_DL` to a table.  `IPC_4GHIF_submit_dl` releases the slots of the frames it
moves, and the callback of the sDMA controller acknowledges them from the table.  So the table
has to stay as it is from the one to the other.

Main results:

- Theorem `DlInv.change`: the table belongs to the frames in transfer, as long as the
  tasklets that allow it to be filled again keep away from a transfer.
- Theorem `dlFrames_acked_once`: under that condition the released frames are
  acknowledged in order, each once.
- Theorem `dlFrames_acked_wrongly`: a driver that is closed and opened again during a
  transfer acknowledges the wrong frame.
-/

namespace LteModemKernel.Ghif

open Lib List Nat Bool Downlink FifoMsg Fifo

/-! ## The table of frames -/

/-- The table holds the frames at the front of `FIFO_DL`, and there is room for their
ACKs. -/
def Announced (d : Downlink) : Prop :=
  d.incomingMsgs <+: d.fifoDl.contents ∧ d.incomingDlPacketNb ≤ d.fifoAckUl.spaceLeft

/-- The frames that `fifo_4ghif_get_frame_info` finds. -/
theorem frameInfo_spec {f : Fifo FifoMsg} {space fuel index : Nat} {msgs : List FifoMsg}
    (h : frameInfo f space fuel index = .ok msgs) (hindex : index ≤ f.contents.length) :
    msgs <+: f.contents.drop index ∧ msgs.length ≤ space - index := by
  induction fuel generalizing index msgs with
  | zero =>
    cases h
    exact ⟨ nil_prefix, zero_le _⟩
  | succ fuel ih =>
    rw [frameInfo, getMsg_eq f hindex] at h
    split at h
    · cases h
      exact ⟨ nil_prefix, zero_le _⟩
    · next msg hget =>
      rcases List.getElem?_eq_some_iff.mp hget with ⟨hlt, hmsg⟩
      split_ifs at h with htype hlength hspace
      · cases h
        exact ⟨ nil_prefix, zero_le _⟩
      · rcases ok_of_map (congrArg some h) with ⟨rest, hrest, rfl⟩
        rcases ih hrest hlt with ⟨hfront, hlen⟩
        constructor
        · rw [drop_eq_getElem_cons hlt, hmsg]
          exact cons_prefix_cons.mpr ⟨rfl, hfront⟩
        · rw [length_cons]
          omega

variable {func : String}

theorem Downlink.getFrameInfo_spec {d d' : Downlink} (h : d.getFrameInfo func = .ok d') :
    ∃ table nb, d' = { d with msgTable := table, incomingDlPacketNb := nb } ∧ Announced d' := by
  unfold getFrameInfo at h
  split at h
  · cases h
  · next msgs hinfo =>
    cases h
    rcases frameInfo_spec hinfo (zero_le _) with ⟨hfront, hlength⟩
    refine ⟨_, _, rfl, ?_, hlength⟩
    rw [incomingMsgs, map_fill]
    exact hfront

/-! ## The invariant -/

/-- The downlink is in order. -/
structure DlInv (d : Downlink) : Prop where
  started : d.bpStarted = true
  history : d.released ++ d.fifoDl.contents = d.written
  acks : d.ackTaken ++ d.fifoAckUl.contents = d.acked
  acked : d.acked ++ (if d.dmaDl then d.transferMsgs.map startAddress else []) =
    d.released.map startAddress
  flag : d.bSdmaDlTransferOnGoing = (d.dmaDl || d.dlCompleteTasklet)
  once : d.dmaDl = true → d.dlCompleteTasklet = false
  completing : d.dlCompleting = true → d.dmaDl = false
  busy : d.dmaDl = true → d.bProcessDlMsgOnGoing = true
  room : d.dmaDl = true → d.sdmaDlPacketNb ≤ d.fifoAckUl.spaceLeft
  announced : d.bSdmaDlTransferOnGoing = false → d.bProcessDlMsgOnGoing = true →
    d.dlCompleting = false → Announced d

/-- Until the BP is ready there is at most its `INIT_REQ`, with the frames behind it. -/
structure FreshDl (d : Downlink) : Prop where
  readInd : d.fifoDl.readInd = 0
  ackUl : d.fifoAckUl.readInd = 0 ∧ d.fifoAckUl.writeInd = 0
  incoming : d.incomingDlPacketNb = 0
  calm : d.bProcessDlMsgOnGoing = false ∧ d.bSdmaDlTransferOnGoing = false ∧ d.dmaDl = false ∧
    d.dlCompleteTasklet = false ∧ d.dlCompleting = false ∧ d.bpReadyTasklet = false
  histories : d.released = [] ∧ d.acked = [] ∧ d.ackTaken = []
  contents : if d.bpStarted then
      ∃ msg, msg.type = .initReq ∧ d.fifoDl.contents = msg :: d.written
    else d.fifoDl.contents = [] ∧ d.written = []

/-- When the downlink is kept in order: `bp_ready_tasklet` does not run while a transfer is
under way, and `IPC_4GHIF_submit_dl` is not called in the callback of
`dl_complete_tasklet`. -/
def dlGuard (s : State) : Event → Prop
  | .bpReady => s.dl.dmaDl = false
  | .submitDl _ => s.dl.dlCompleting = false
  | _ => True

instance (s : State) (e : Event) : Decidable (dlGuard s e) := by
  cases e <;> unfold dlGuard <;> infer_instance

theorem FifoMsg.validDl_type {msg : FifoMsg} {started : Bool} (h : msg.validDl started = true)
    (hstarted : started = true) : msg.type ≠ .initReq := by
  intro htype
  rw [hstarted, validDl, if_pos rfl, htype] at h
  cases h

variable {s : State} {e : Event}

namespace DlInv

variable {d d' : Downlink}

section

variable (h : DlInv d)
include h

theorem acked_of_not_dma (hdma : d.dmaDl = false) :
    d.acked = d.released.map startAddress := by
  have hacked := h.acked
  rw [hdma] at hacked
  rw [← hacked]
  exact (append_nil _).symm

theorem not_dma_of_not_flag (hflag : d.bSdmaDlTransferOnGoing = false) :
    d.dmaDl = false ∧ d.dlCompleteTasklet = false := by
  exact or_eq_false_iff.mp (h.flag.symm.trans hflag)

/-- The table is filled again while there is no transfer. -/
theorem refill (hdma : d.dmaDl = false) {table : Nat → FifoMsg} {nb : Nat}
    (hannounced : Announced { d with msgTable := table, incomingDlPacketNb := nb })
    (process receive : Bool) : DlInv { d with
      msgTable := table, incomingDlPacketNb := nb, bProcessDlMsgOnGoing := process,
      receiveDlTasklet := receive } where
  started := h.started
  history := h.history
  acks := h.acks
  acked := by
    rw [h.acked_of_not_dma hdma, hdma]
    exact append_nil _
  flag := h.flag
  once := h.once
  completing := h.completing
  busy hdma' := absurd (hdma.symm.trans hdma') false_ne_true
  room := h.room
  announced _ _ _ := hannounced

theorem fifoProcessDlMsg {r : Bool} (hok : d.fifoProcessDlMsg true = .ok (d', r)) : DlInv d' := by
  simp only [Downlink.fifoProcessDlMsg, Bool.not_true, Bool.false_eq_true, if_false] at hok
  split_ifs at hok with hbusy
  · cases hok
    exact h
  · have hdma : d.dmaDl = false := by
      by_contra hne
      exact hbusy (h.busy (eq_true_of_not_eq_false hne))
    rcases bind_eq_ok.mp hok with ⟨d₁, hinfo, hok⟩
    rcases getFrameInfo_spec hinfo with ⟨table, nb, rfl, hannounced⟩
    split_ifs at hok <;> cases hok
    · exact h.refill hdma hannounced true true
    · exact h.refill hdma hannounced d.bProcessDlMsgOnGoing d.receiveDlTasklet

theorem getDlFramesNb {r : Downlink × Status × List PacketInfo} (hok : d.getDlFramesNb = .ok r) :
    DlInv r.1 := by
  unfold Downlink.getDlFramesNb at hok
  split_ifs at hok with hbusy
  · cases hok
    exact h
  · have hdma := (h.not_dma_of_not_flag (eq_false_of_not_eq_true hbusy)).1
    rcases bind_eq_ok.mp hok with ⟨d₁, hinfo, hok⟩
    rcases getFrameInfo_spec hinfo with ⟨table, nb, rfl, hannounced⟩
    split_ifs at hok <;> cases hok
    · exact h.refill hdma hannounced true d.receiveDlTasklet
    · exact h.refill hdma hannounced d.bProcessDlMsgOnGoing d.receiveDlTasklet

/-- `IPC_4GHIF_submit_dl` hands frames of the table over to the transfer. -/
theorem startTransfer (hflag : d.bSdmaDlTransferOnGoing = false)
    (hprocess : d.bProcessDlMsgOnGoing = true) (hcompleting : d.dlCompleting = false) {nb : Nat}
    (hnb : nb ≤ d.incomingDlPacketNb) :
    DlInv (startTransfer { d with sdmaDlPacketNb := nb }) := by
  rcases h.announced hflag hprocess hcompleting with ⟨hfront, hroom⟩
  rcases h.not_dma_of_not_flag hflag with ⟨hdma, htasklet⟩
  have hlength : d.incomingMsgs.length = d.incomingDlPacketNb := by
    rw [incomingMsgs, length_map, length_range]
  have hle : nb ≤ d.fifoDl.contents.length := by
    have hle := hfront.length_le
    omega
  have htable : (range nb).map d.msgTable = d.incomingMsgs.take nb := by
    rw [incomingMsgs, ← map_take, take_range, min_eq_left hnb]
  have htake : (range nb).map d.msgTable = d.fifoDl.contents.take nb := by
    rw [htable, prefix_iff_eq_take.mp hfront, take_take, hlength, min_eq_left hnb]
  refine ⟨h.started, ?_, h.acks, ?_, ?_, fun _ => htasklet, ?_, fun _ => hprocess, ?_, ?_⟩
  · change d.released ++ d.fifoDl.contents.take nb ++
      (d.fifoDl.incrementReadInd (.ofNat 256 nb)).contents = d.written
    rw [incrementReadInd_contents d.fifoDl hle, append_assoc, take_append_drop]
    exact h.history
  · change d.acked ++ ((range nb).map d.msgTable).map startAddress =
      (d.released ++ d.fifoDl.contents.take nb).map startAddress
    rw [h.acked_of_not_dma hdma, htake, map_append]
  · rfl
  · intro hcompleting'
    exact absurd (hcompleting.symm.trans hcompleting') false_ne_true
  · intro _
    exact le_trans hnb hroom
  · exact nofun

theorem submitDl (hcompleting : d.dlCompleting = false) (isOpen bpReady apReady : Bool)
    (packets : List SdmaPacket) : DlInv (d.submitDl isOpen bpReady apReady packets).1 := by
  unfold Downlink.submitDl
  split_ifs with hopen hbp hap hbusy hprocess hlength <;> try exact h
  have hflag := eq_false_of_not_eq_true hbusy
  have hdma := (h.not_dma_of_not_flag hflag).1
  dsimp only
  split_ifs
  · refine { h with acked := ?_, room := ?_ }
    · rw [h.acked_of_not_dma hdma, hdma]
      exact append_nil _
    · intro hdma'
      exact absurd (hdma.symm.trans hdma') false_ne_true
  · exact h.startTransfer hflag (by simpa using hprocess) hcompleting (min_le_right _ _)

end

theorem addAcks_spec (text : String) {adrs : List UInt32}
    (h : adrs.length ≤ d.fifoAckUl.spaceLeft) :
    ∃ f, d.addAcks text adrs = .ok { d with fifoAckUl := f, acked := d.acked ++ adrs } ∧
      f.contents = d.fifoAckUl.contents ++ adrs := by
  induction adrs generalizing d with
  | nil => exact ⟨d.fifoAckUl, by rw [addAcks, append_nil], by rw [append_nil]⟩
  | cons adr rest ih =>
    rcases addMsg_cons h with ⟨f, hadd, hroom, hcontents⟩
    rcases ih (d := { d with fifoAckUl := f, acked := d.acked ++ [adr] }) hroom with
      ⟨f', hrest, hcontents'⟩
    exact ⟨f', by simp [addAcks, hadd, hrest], hcontents'.trans hcontents⟩

theorem sdmaDlCallback (h : DlInv d) (hdma : d.dmaDl = true) :
    ∃ f, d.sdmaDlCallback = .ok { d with
        fifoAckUl := f, acked := d.acked ++ d.transferMsgs.map startAddress,
        dmaDl := false, dlCompleteTasklet := true } ∧
      f.contents = d.fifoAckUl.contents ++ d.transferMsgs.map startAddress := by
  have hlength : (d.transferMsgs.map startAddress).length = d.sdmaDlPacketNb := by
    rw [length_map, transferMsgs, length_map, length_range]
  rcases addAcks_spec
    "4GHIF ERROR in sdma_4ghif_dl_callback: no space in FIFO for ACK DL msg\n"
    (d := d) (le_of_eq_of_le hlength (h.room hdma)) with ⟨f, hadd, hcontents⟩
  refine ⟨f, ?_, hcontents⟩
  rw [Downlink.sdmaDlCallback, hadd]
  rfl

/-- The frames of the transfer are acknowledged. -/
theorem transferred (h : DlInv d) (hdma : d.dmaDl = true) (hok : d.sdmaDlCallback = .ok d') :
    DlInv d' := by
  rcases h.sdmaDlCallback hdma with ⟨f, hcallback, hcontents⟩
  cases hok.symm.trans hcallback
  have hacked := h.acked
  rw [if_pos hdma] at hacked
  refine ⟨h.started, h.history, ?_, ?_, ?_, ?_, fun _ => rfl, ?_, ?_, ?_⟩
  · rw [hcontents, ← append_assoc, h.acks]
  · change d.acked ++ _ ++ [] = _
    rw [append_nil]
    exact hacked
  · rw [h.flag, hdma]
    rfl
  iterate 3 exact nofun
  · intro hflag
    rw [h.flag, hdma] at hflag
    cases hflag

theorem dlChange (h : DlInv s.dl) (hguard : dlGuard s e) (hchange : DlChange s.dl e d') :
    DlInv d' := by
  cases hchange with
  | received => exact { h with }
  | polled hok => exact h.getDlFramesNb hok
  | submitted isOpen bpReady apReady packets =>
    exact h.submitDl hguard isOpen bpReady apReady packets
  | transferred hdma hok => exact h.transferred hdma hok
  | completing htasklet =>
    have hdma : s.dl.dmaDl = false := by
      by_contra hne
      have honce := h.once (eq_true_of_not_eq_false hne)
      cases htasklet.symm.trans honce
    refine ⟨h.started, h.history, h.acks, h.acked, ?_, fun _ => rfl, fun _ => hdma, h.busy,
      h.room, ?_⟩
    · rw [hdma]
      rfl
    · exact nofun
  | @bpWrote msg fifoDl hvalid hadd =>
    have hcontents := (addMsg_contents hadd).2
    refine { h with started := rfl, history := ?_, announced := ?_ }
    · rw [hcontents, ← append_assoc, h.history, if_neg (validDl_type hvalid h.started)]
    · intro hflag hprocess hcompleting
      rcases h.announced hflag hprocess hcompleting with ⟨hfront, hroom⟩
      refine ⟨hfront.trans ?_, hroom⟩
      rw [hcontents]
      exact prefix_append _ _
  | bpAckRead hget =>
    have hcontents := getMsg_zero hget
    have hspace : s.dl.fifoAckUl.spaceLeft ≤ (s.dl.fifoAckUl.incrementReadInd 1).spaceLeft := by
      have hbefore := length_add_spaceLeft s.dl.fifoAckUl
      have hafter := length_add_spaceLeft (s.dl.fifoAckUl.incrementReadInd 1)
      rw [hcontents, length_cons] at hbefore
      omega
    refine { h with acks := ?_, room := ?_, announced := ?_ }
    · change s.dl.ackTaken ++ [_] ++ (s.dl.fifoAckUl.incrementReadInd 1).contents = s.dl.acked
      rw [← h.acks, hcontents, append_assoc]
      rfl
    · intro hdma
      exact le_trans (h.room hdma) hspace
    · intro hflag hprocess hcompleting
      rcases h.announced hflag hprocess hcompleting with ⟨hfront, hroom⟩
      exact ⟨hfront, le_trans hroom hspace⟩

/-- The message processing of the mailbox interrupt and of the tasklets. -/
theorem processing (h : DlInv s.dl) (hguard : dlGuard s e) (hprocess : Processing s.dl e d) :
    DlInv d := by
  cases hprocess with
  | mailbox => exact h
  | bpReady htasklet =>
    refine { h with busy := ?_, announced := ?_ }
    · intro hdma
      exact absurd (hguard.symm.trans hdma) false_ne_true
    · exact nofun
  | dlCompleted hcompleting =>
    refine { h with completing := ?_, busy := ?_, announced := ?_ }
    · exact nofun
    · intro hdma
      exact absurd ((h.completing hcompleting).symm.trans hdma) false_ne_true
    · exact nofun

end DlInv

/-! ## Until the BP is ready -/

namespace FreshDl

variable {d d' : Downlink}

theorem fifoAckUl_contents (h : FreshDl d) : d.fifoAckUl.contents = [] := by
  have hlength := length_contents d.fifoAckUl
  rw [h.ackUl.1, h.ackUl.2] at hlength
  exact eq_nil_of_length_eq_zero hlength

theorem getFrameInfo (h : FreshDl d) (hok : d.getFrameInfo func = .ok d') :
    ∃ table, d' = { d with msgTable := table, incomingDlPacketNb := 0 } := by
  have hcontents := h.contents
  by_cases hstarted : d.bpStarted = true
  · rw [if_pos hstarted] at hcontents
    rcases hcontents with ⟨msg, htype, hfifo⟩
    have hget : d.fifoDl.getMsg (.ofNat 256 0) = some msg := by
      rw [getMsg_eq _ (zero_le _), hfifo]
      rfl
    have hinfo : frameInfo d.fifoDl d.fifoAckUl.spaceLeft maxNbFrames 0 =
        .error .invalidMsgType := by
      simp only [maxNbFrames, frameInfo, hget, htype, MsgType.isDl]
      rfl
    rw [Downlink.getFrameInfo, hinfo] at hok
    cases hok
  · rw [if_neg hstarted] at hcontents
    rcases getFrameInfo_spec hok with ⟨table, nb, rfl, hfront, -⟩
    refine ⟨table, ?_⟩
    have hlength := hfront.length_le
    rw [hcontents.1, incomingMsgs, length_map, length_range] at hlength
    change nb ≤ 0 at hlength
    rw [le_zero.mp hlength]

theorem dlChange (h : FreshDl d) (hchange : DlChange d e d') : FreshDl d' := by
  rcases h.calm with ⟨hprocess, hflag, hdma, htasklet, hcompleting, hready⟩
  cases hchange with
  | received => exact { h with }
  | polled hok =>
    simp only [getDlFramesNb, hflag, false_eq_true, if_false] at hok
    rcases bind_eq_ok.mp hok with ⟨d₁, hinfo, hok⟩
    rcases h.getFrameInfo hinfo with ⟨table, rfl⟩
    cases hok
    exact { h with incoming := rfl }
  | submitted isOpen bpReady apReady packets =>
    have hsame : (d.submitDl isOpen bpReady apReady packets).1 = d := by
      unfold submitDl
      split_ifs with hopen hbp hap hbusy hnone hlength <;> try rfl
      exact absurd (by rw [hprocess]; rfl) hnone
    rw [hsame]
    exact h
  | transferred hdma' => exact absurd (hdma.symm.trans hdma') false_ne_true
  | completing htasklet' => exact absurd (htasklet.symm.trans htasklet') false_ne_true
  | @bpWrote msg fifoDl hvalid hadd =>
    have hcontents := (addMsg_contents hadd).2
    refine { h with readInd := (addMsg_readInd hadd).trans h.readInd, contents := ?_ }
    have hbefore := h.contents
    cases hstarted : d.bpStarted with
    | false =>
      rw [hstarted] at hvalid hbefore
      have htype : msg.type = .initReq := of_decide_eq_true hvalid
      refine ⟨msg, htype, ?_⟩
      rw [hcontents, hbefore.1, if_pos htype, hbefore.2]
      rfl
    | true =>
      rw [hstarted] at hvalid hbefore
      rcases hbefore with ⟨first, hfirst, hfifo⟩
      refine ⟨first, hfirst, ?_⟩
      rw [hcontents, hfifo, if_neg (validDl_type hvalid rfl)]
      rfl
  | bpAckRead hget =>
    rw [getMsg, h.ackUl.1, h.ackUl.2] at hget
    cases hget

/-- `INIT_REQ` is the first message that is read. -/
theorem fifoProcessDlMsg (h : FreshDl d) {r : Bool} (hok : d.fifoProcessDlMsg false = .ok (d', r)) :
    (r = false ∧ FreshDl d') ∨ (r = true ∧ DlInv d') := by
  rcases h.calm with ⟨hprocess, hflag, hdma, htasklet, hcompleting, hready⟩
  simp only [Downlink.fifoProcessDlMsg, hprocess, Bool.false_eq_true, if_false, Bool.not_false,
    if_true] at hok
  split at hok
  · cases hok
    exact .inl ⟨rfl, h⟩
  · next msg hget =>
    split_ifs at hok with htype
    cases hok
    refine .inr ⟨rfl, ?_⟩
    have hfront := getMsg_zero hget
    have hcontents := h.contents
    rcases h.histories with ⟨hreleased, hacked, htaken⟩
    by_cases hstarted : d.bpStarted = true
    · rw [if_pos hstarted] at hcontents
      rcases hcontents with ⟨first, -, hfifo⟩
      have hwritten : (d.fifoDl.incrementReadInd 1).contents = d.written := by
        rw [hfifo] at hfront
        exact (cons.inj hfront).2.symm
      refine ⟨hstarted, ?_, ?_, ?_, ?_, fun _ => htasklet, fun _ => hdma, fun _ => rfl, ?_, ?_⟩
      · rw [hreleased, hwritten]
        rfl
      · rw [htaken, h.fifoAckUl_contents, hacked]
        rfl
      · rw [hacked, hdma, hreleased]
        rfl
      · rw [hflag, hdma, htasklet]
        rfl
      · intro hdma'
        exact absurd (hdma.symm.trans hdma') false_ne_true
      · intro _ _ _
        rw [h.incoming]
        exact ⟨ nil_prefix, zero_le _⟩
    · rw [if_neg hstarted] at hcontents
      rw [hcontents.1] at hfront
      cases hfront

end FreshDl

theorem FreshDl.openIpc (h : FreshDl s.dl) (hbp : s.bBpReady = false)
    (hclosed : s.bIpc4ghifOpen = false) : FreshDl s.openIpc.1.dl := by
  have hfifo : ({ s.dl.fifoDl with readInd := 0 } : Fifo FifoMsg) = s.dl.fifoDl := by
    rw [← h.readInd]
  rcases h.calm with ⟨hprocess, hflag, hdma, htasklet, hcompleting, hready⟩
  simp only [State.openIpc, hclosed, hbp, false_eq_true, if_false, hfifo]
  refine ⟨h.readInd, ⟨rfl, rfl⟩, h.incoming, ?_, h.histories, h.contents⟩
  exact ⟨hprocess, hflag, hdma, htasklet, hcompleting, by rw [hready]; rfl⟩

/-- The downlink before and after the BP is ready. -/
inductive DlOrder (s : State) : Prop where
  | fresh (hbp : s.bBpReady = false) (h : FreshDl s.dl)
  | ready (hbp : s.bBpReady = true) (h : DlInv s.dl)

/-- Every event that meets the condition keeps the downlink in order. -/
theorem DlOrder.change {s' : State} (h : DlOrder s) (hguard : dlGuard s e)
    (hchange : Change s e s') : DlOrder s' := by
  cases h with
  | fresh hbp h =>
    cases hchange with
    | same e | closed | ul hul => exact .fresh hbp h
    | opened hclosed =>
      exact .fresh ((State.openIpc_bBpReady s).trans hbp) (h.openIpc hbp hclosed)
    | initCnf hbp' => exact absurd (hbp.symm.trans hbp') false_ne_true
    | dl hdl => exact .fresh hbp (h.dlChange hdl)
    | processed hprocess hul hdl =>
      rw [hbp] at hdl
      cases hprocess with
      | mailbox =>
        rcases h.fifoProcessDlMsg hdl with ⟨hr, hfresh⟩ | ⟨hr, hready⟩
        · exact .fresh hr hfresh
        · exact .ready hr hready
      | bpReady htasklet =>
        exact absurd (h.calm.2.2.2.2.2.symm.trans htasklet) false_ne_true
      | dlCompleted hcompleting =>
        exact absurd (h.calm.2.2.2.2.1.symm.trans hcompleting) false_ne_true
  | ready hbp h =>
    cases hchange with
    | same e | closed | initCnf hbp' | ul hul => exact .ready hbp h
    | opened hclosed =>
      refine .ready ((State.openIpc_bBpReady s).trans hbp) ?_
      simp only [State.openIpc, hclosed, hbp, false_eq_true, if_false, if_true]
      exact { h with }
    | dl hdl => exact .ready hbp (h.dlChange hguard hdl)
    | processed hprocess hul hdl =>
      rw [hbp] at hdl
      exact .ready (fifoProcessDlMsg_ready hdl)
        ((h.processing hguard hprocess).fifoProcessDlMsg hdl)

theorem dlOrder_of_reachable (hs : system.ReachableUnder dlGuard s) : DlOrder s := by
  refine TransitionSystem.ReachableUnder.invariant ?_ ?_ hs
  · rintro _ rfl
    exact .fresh rfl ⟨rfl, ⟨rfl, rfl⟩, rfl, ⟨rfl, rfl, rfl, rfl, rfl, rfl⟩, ⟨rfl, rfl, rfl⟩,
      ⟨rfl, rfl⟩⟩
  · intro s e s' h hguard hstep
    exact h.change hguard (State.act_change hstep)

/-! ## The acknowledgements -/

/-- The addresses of the frames in transfer: released and not yet acknowledged. -/
def Downlink.inTransfer (d : Downlink) : List UInt32 :=
  if d.dmaDl then d.transferMsgs.map startAddress else []

/-- Where `bp_ready_tasklet` never runs during a transfer and `IPC_4GHIF_submit_dl` is
never called in the callback of `dl_complete_tasklet`: the frames that
`IPC_4GHIF_submit_dl` releases are the first frames of `FIFO_DL`; what is put in
`FIFO_ACK_UL` are their addresses, in order and each once, up to those in transfer; and
the callback of the sDMA controller does not panic. -/
theorem dlFrames_acked_once {s : State} (hs : system.ReachableUnder dlGuard s) :
    s.dl.acked ++ s.dl.inTransfer = s.dl.released.map startAddress ∧
    s.dl.ackTaken ++ s.dl.fifoAckUl.contents = s.dl.acked ∧
    s.dl.released <+: s.dl.written ∧
    ∀ text, s.exec .sdmaDl ≠ some (.error text) := by
  cases dlOrder_of_reachable hs with
  | fresh hbp h =>
    rcases h.histories with ⟨hreleased, hacked, htaken⟩
    have hdma := h.calm.2.2.1
    refine ⟨?_, ?_, ?_, ?_⟩
    · rw [hacked, hreleased, inTransfer, hdma]
      rfl
    · rw [htaken, hacked, h.fifoAckUl_contents]
      rfl
    · rw [hreleased]
      exact nil_prefix
    · intro text hexec
      simp only [State.exec, hdma] at hexec
      cases hexec
  | ready hbp h =>
    refine ⟨h.acked, h.acks, ?_, ?_⟩
    · rw [← h.history]
      exact prefix_append _ _
    · intro text hexec
      simp only [State.exec] at hexec
      split_ifs at hexec with hdma
      rcases h.sdmaDlCallback hdma with ⟨f, hcallback, -⟩
      rw [hcallback] at hexec
      cases hexec

/-- The run up to the transfer of a DL frame with address 1. -/
def oneDlFrameRun : List Event :=
  [.openIpc, .bpWriteDl ⟨.initReq, 0, 0, 0⟩, .mailbox, .bpReady, .ready,
    .bpWriteDl ⟨.dlData, 5, 100, 1⟩, .mailbox, .receiveDl, .submitDl [⟨.none, 1, 8188, 0⟩]]

theorem dlFrames_acked_once_frame :
    ∃ s : State, (s.dl.dmaDl = true ∧ s.dl.released.length = 1) ∧
      s.dl.acked ++ s.dl.inTransfer = s.dl.released.map startAddress := by
  rcases exists_observed_under
    (P := fun s => s.dl.dmaDl = true ∧ s.dl.released.length = 1) dlGuard oneDlFrameRun
    (by decide +kernel) (by decide +kernel) with ⟨s, hs, hobs⟩
  exact ⟨s, hobs, (dlFrames_acked_once hs).1⟩

/-- The driver is closed and opened again while the transfer of the frame with address 1 is
under way and the BP has written another frame: `bp_ready_tasklet` fills the table again,
and the callback acknowledges the address 2. -/
theorem dlFrames_acked_wrongly : ∃ s : State, system.Reachable s ∧
    (s.dl.dmaDl = false ∧ s.dl.released.map startAddress = [1]) ∧ s.dl.acked = [2] := by
  exact exists_observed
    (oneDlFrameRun ++ [.bpWriteDl ⟨.dlData, 5, 100, 2⟩, .closeIpc, .openIpc, .bpReady, .sdmaDl])
    (by decide +kernel)

end LteModemKernel.Ghif
