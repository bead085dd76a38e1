import LteModemKernel.Ghif.Uplink

/-!
# Conservation of uplink frames

A frame that `IPC_4GHIF_submit_ul` accepts is first held by the call, then by the transfer,
by `FIFO_UL`, by the BP and at last, as an address, by `FIFO_ACK_DL`.  The blocks of
the memory manager that are handed out are the blocks of the frames that someone holds.

Main results:

- Theorem `Custody.change`: every event keeps the frames and their blocks together.
- Theorem `ulFrames_conserved`: accepted frames are put in `FIFO_UL` in order, each
  once; their blocks are freed exactly once, when their ACK is processed.
-/

namespace LteModemKernel.Ghif

open Lib List Uplink

/-! ## Where the frames are -/

/-- The messages of the frames that a call has accepted. -/
def UlCall.msgs : UlCall → List FifoMsg
  | .idle => []
  | .room packets adr | .alloc packets adr | .pause packets adr | .start packets adr _ =>
    ulMsgs packets adr

/-- The frames that are accepted and not yet in `FIFO_UL`. -/
def Uplink.pendingMsgs (u : Uplink) : List FifoMsg :=
  (if u.dmaUl then u.transferMsgs else []) ++ u.call.msgs

/-- The messages that describe a frame: all but `INIT_CNF`. -/
def frames (msgs : List FifoMsg) : List FifoMsg :=
  msgs.filter fun msg => msg.type ≠ .initCnf

/-- The frames whose ACK the BP has not yet written. -/
def Uplink.inFlight (u : Uplink) : List FifoMsg :=
  u.bpHeld ++ frames u.fifoUl.contents ++ u.pendingMsgs

/-- The addresses of the frames whose ACK is not yet processed. -/
def Uplink.outstanding (u : Uplink) : List UInt32 :=
  u.fifoAckDl.contents ++ u.inFlight.map FifoMsg.startAddress

/-- The message of an accepted packet. -/
def acceptedMsg (pa : SdmaPacket × UInt32) : FifoMsg := pa.1.ulMsg pa.2

/-- What `IPC_4GHIF_ready` has put in `FIFO_UL`. -/
def initCnfs (apReady : Bool) : List FifoMsg :=
  if apReady then [State.initCnfMsg] else []

/-- The frames and their blocks are together. -/
structure Custody (apReady : Bool) (u : Uplink) : Prop where
  cnf : u.added = initCnfs apReady ++ frames u.added
  published : frames u.added ++ u.pendingMsgs = u.accepted.map acceptedMsg
  quiet : apReady = false → u.accepted = []
  valid : ∀ pa ∈ u.accepted, pa.1.validUl = true
  mm : u.mm.Inv
  blocks : (u.mm.live.map Buddy.Block.adr).Perm (u.outstanding.map UInt32.toNat)
  conserved : (u.accepted.map Prod.snd).Perm (u.freed ++ u.outstanding)

/-! ## Lists of messages -/

theorem SdmaPacket.ulMsg_type (p : SdmaPacket) (adr : UInt32) : (p.ulMsg adr).type ≠ .initCnf := by
  unfold ulMsg
  split_ifs
  · exact nofun
  · exact nofun

theorem frames_append (msgs rest : List FifoMsg) :
    frames (msgs ++ rest) = frames msgs ++ frames rest :=
  filter_append ..

theorem frames_eq_self {msgs : List FifoMsg} (h : ∀ msg ∈ msgs, msg.type ≠ .initCnf) :
    frames msgs = msgs :=
  filter_eq_self.mpr fun msg hmsg => decide_eq_true (h msg hmsg)

theorem ulMsgs_nil (packets : List SdmaPacket) : ulMsgs packets [] = [] := by
  rw [ulMsgs, zip_nil_right, map_nil]

variable {p : SdmaPacket} {packets : List SdmaPacket} {adr : List UInt32} {apReady : Bool}
  {u : Uplink}

/-- Another block is reserved. -/
theorem ulMsgs_append (hp : packets[adr.length]? = some p) (a : UInt32) :
    ulMsgs packets (adr ++ [a]) = ulMsgs packets adr ++ [p.ulMsg a] := by
  induction adr generalizing packets with
  | nil =>
    cases packets with
    | nil => cases hp
    | cons q packets =>
      cases hp
      rw [nil_append, ulMsgs_nil, ulMsgs, zip_cons_cons, zip_nil_right]
      rfl
  | cons b adr ih =>
    cases packets with
    | nil => cases hp
    | cons q packets => exact congrArg (q.ulMsg b :: ·) (ih hp)

theorem length_ulMsgs (h : adr.length ≤ packets.length) :
    (ulMsgs packets adr).length = adr.length := by
  rw [ulMsgs, length_map, length_zip, min_eq_right h]

theorem map_fill (table : Nat → FifoMsg) (msgs : List FifoMsg) :
    (List.range msgs.length).map (fill table msgs) = msgs := by
  apply ext_getElem
  · rw [length_map, length_range]
  · intro i hi hi'
    rw [getElem_map, getElem_range, fill, getD_eq_getElem?_getD, getElem?_eq_getElem hi',
      Option.getD_some]

/-! ## The steps -/

theorem SdmaPacket.bufSize_le (h : p.validUl = true) : p.bufSize ≤ dataPacketMaxSize := by
  simp only [validUl, Bool.and_eq_true, decide_eq_true_eq] at h
  exact h.1.2

theorem SdmaPacket.ulMsg_length (h : p.validUl = true) (adr : UInt32) :
    (p.ulMsg adr).length.toNat = p.bufSize := by
  have hsize : p.bufSize ≤ 8188 := bufSize_le h
  exact UInt16.toNat_ofNat_of_lt' (show p.bufSize < 2 ^ 16 by omega)

theorem UlInv.alloc_valid (h : UlInv apReady u) (hcall : u.call = .alloc packets adr)
    (hp : packets[adr.length]? = some p) : p.validUl = true := by
  have hwf := h.wf
  rw [hcall] at hwf
  exact hwf.1.valid p (mem_of_getElem? hp)

theorem UlInv.alloc_size (h : UlInv apReady u) (hcall : u.call = .alloc packets adr)
    (hp : packets[adr.length]? = some p) :
    (BitVec.ofNat 16 p.bufSize).toNat ≤ Buddy.mmPageSize := by
  have hsize : p.bufSize ≤ 8188 := SdmaPacket.bufSize_le (h.alloc_valid hcall hp)
  rw [BitVec.toNat_ofNat, Nat.mod_eq_of_lt (by omega)]
  exact le_trans hsize (by decide)

namespace Custody

variable {u' : Uplink}

section

variable (h : Custody apReady u) {msg : FifoMsg}
include h

theorem frames_pendingMsgs : frames u.pendingMsgs = u.pendingMsgs := by
  apply frames_eq_self
  intro msg hmsg
  have hmem := mem_append_right (frames u.added) hmsg
  rw [h.published] at hmem
  rcases mem_map.mp hmem with ⟨pa, -, rfl⟩
  exact pa.1.ulMsg_type pa.2

theorem handOn (hmm : u'.mm.Inv) (hlive : u'.mm.live = u.mm.live)
    (haccepted : u'.accepted = u.accepted) (hfreed : u'.freed = u.freed)
    (hadded : u'.added = u.added) (hpending : u'.pendingMsgs = u.pendingMsgs)
    (hout : u'.outstanding.Perm u.outstanding) : Custody apReady u' where
  cnf := by rw [hadded]; exact h.cnf
  published := by rw [hadded, hpending, haccepted]; exact h.published
  quiet := by rw [haccepted]; exact h.quiet
  valid := by rw [haccepted]; exact h.valid
  mm := hmm
  blocks := by rw [hlive]; exact h.blocks.trans (hout.map _).symm
  conserved := by
    rw [haccepted, hfreed]
    exact h.conserved.trans (hout.symm.append_left _)

/-- A step of a call that reserves nothing. -/
theorem step (hmm : u'.mm.Inv) (hlive : u'.mm.live = u.mm.live)
    (haccepted : u'.accepted = u.accepted) (hfreed : u'.freed = u.freed)
    (hadded : u'.added = u.added) (hpending : u'.pendingMsgs = u.pendingMsgs)
    (hfifo : u'.fifoUl = u.fifoUl) (hack : u'.fifoAckDl = u.fifoAckDl)
    (hheld : u'.bpHeld = u.bpHeld) : Custody apReady u' := by
  refine h.handOn hmm hlive haccepted hfreed hadded hpending ?_
  rw [outstanding, outstanding, inFlight, inFlight, hfifo, hack,
    hheld, hpending]

theorem moved {c : UlCall} (hmsgs : c.msgs = u.call.msgs) :
    Custody apReady { u with call := c } := by
  refine h.step h.mm rfl rfl rfl rfl ?_ rfl rfl rfl
  unfold pendingMsgs
  rw [show ({ u with call := c } : Uplink).call.msgs = u.call.msgs from hmsgs]
  rfl

theorem accept (hready : apReady = true) (hp : p.validUl = true) {b : Buddy.Block} (hmm : u'.mm.Inv)
    (hlive : u'.mm.live = b :: u.mm.live)
    (haccepted : u'.accepted = u.accepted ++ [(p, UInt32.ofNat b.adr)])
    (hfreed : u'.freed = u.freed) (hadded : u'.added = u.added)
    (hpending : u'.pendingMsgs = u.pendingMsgs ++ [p.ulMsg (UInt32.ofNat b.adr)])
    (hfifo : u'.fifoUl = u.fifoUl) (hack : u'.fifoAckDl = u.fifoAckDl)
    (hheld : u'.bpHeld = u.bpHeld) : Custody apReady u' := by
  have hlt : b.adr < 2 ^ 32 := hmm.adr_lt (by rw [hlive]; exact mem_cons_self)
  have htoNat : (UInt32.ofNat b.adr).toNat = b.adr := UInt32.toNat_ofNat_of_lt' hlt
  have hout : u'.outstanding = u.outstanding ++ [UInt32.ofNat b.adr] := by
    rw [outstanding, outstanding, inFlight, inFlight, hfifo, hack,
      hheld, hpending, ← append_assoc, map_append, ← append_assoc]
    rfl
  refine ⟨?_, ?_, ?_, ?_, hmm, ?_, ?_⟩
  · rw [hadded]
    exact h.cnf
  · rw [hadded, hpending, haccepted, ← append_assoc, h.published, map_append]
    rfl
  · intro hfalse
    cases hready.symm.trans hfalse
  · intro pa hpa
    rw [haccepted, mem_append, mem_singleton] at hpa
    rcases hpa with hpa | rfl
    · exact h.valid pa hpa
    · exact hp
  · rw [hlive, hout, map_append, map_cons, map_singleton, htoNat]
    exact (h.blocks.cons _).trans (perm_append_singleton _ _).symm
  · rw [haccepted, hfreed, hout, map_append, ← append_assoc]
    exact h.conserved.append_right _

/-- The messages of the transfer are put in `FIFO_UL`. -/
theorem transferred (hinv : UlInv apReady u) (hdma : u.dmaUl = true)
    (hok : u.sdmaUlCallback = .ok u') : Custody apReady u' := by
  rcases hinv.sdmaUlCallback hdma with ⟨f, hcallback, hcontents⟩
  cases hok.symm.trans hcallback
  have hpending : u.pendingMsgs = u.transferMsgs := by
    rw [pendingMsgs, if_pos hdma, hinv.idle_of_dma hdma, UlCall.msgs, append_nil]
  have hframes : frames u.transferMsgs = u.transferMsgs := by
    rw [← hpending]
    exact h.frames_pendingMsgs
  have hempty : pendingMsgs { u with
      fifoUl := f, added := u.added ++ u.transferMsgs, dmaUl := false,
      ulCompleteTasklet := true } = [] := by
    rw [hinv.idle_of_dma hdma]
    rfl
  have hout : outstanding { u with
      fifoUl := f, added := u.added ++ u.transferMsgs, dmaUl := false,
      ulCompleteTasklet := true } = u.outstanding := by
    rw [outstanding, outstanding, inFlight, inFlight, hempty,
      hpending, append_nil, hcontents, frames_append, hframes, append_assoc]
  refine ⟨?_, ?_, h.quiet, h.valid, h.mm, ?_, ?_⟩
  · rw [frames_append, hframes, ← append_assoc, ← h.cnf]
  · rw [hempty, append_nil]
    rw [frames_append, hframes, ← hpending]
    exact h.published
  · rw [hout]
    exact h.blocks
  · rw [hout]
    exact h.conserved

theorem bpRead (hget : u.fifoUl.getMsg 0 = some msg) : Custody apReady (u.bpReadUl msg) := by
  refine h.handOn h.mm rfl rfl rfl rfl rfl (.of_eq ?_)
  have hinFlight : (u.bpReadUl msg).inFlight = u.inFlight := by
    rw [inFlight, inFlight, Fifo.getMsg_zero hget]
    change (if msg.type = .initCnf then u.bpHeld else u.bpHeld ++ [msg]) ++
      frames (u.fifoUl.incrementReadInd 1).contents ++ u.pendingMsgs = _
    rw [frames, frames, filter_cons]
    by_cases htype : msg.type = .initCnf
    · rw [if_pos htype, if_neg (by rw [htype]; exact Bool.false_ne_true)]
    · rw [if_neg htype, if_pos (decide_eq_true htype), append_assoc u.bpHeld [msg]]
      rfl
  rw [outstanding, outstanding, hinFlight]
  rfl

/-- A frame that the BP acknowledges is still outstanding. -/
theorem bpAck {i : Nat} {fifoAckDl : Fifo UInt32} (hheld : u.bpHeld[i]? = some msg)
    (hadd : u.fifoAckDl.addMsg msg.startAddress = some fifoAckDl) :
    Custody apReady { u with fifoAckDl := fifoAckDl, bpHeld := u.bpHeld.eraseIdx i } := by
  refine h.handOn h.mm rfl rfl rfl rfl rfl ?_
  rcases List.getElem?_eq_some_iff.mp hheld with ⟨hi, hget⟩
  have hperm : (msg :: u.bpHeld.eraseIdx i).Perm u.bpHeld := by
    rw [← hget]
    exact getElem_cons_eraseIdx_perm hi
  change (fifoAckDl.contents ++ (u.bpHeld.eraseIdx i ++ frames u.fifoUl.contents ++
    u.pendingMsgs).map FifoMsg.startAddress).Perm (u.fifoAckDl.contents ++
      (u.bpHeld ++ frames u.fifoUl.contents ++ u.pendingMsgs).map FifoMsg.startAddress)
  rw [(Fifo.addMsg_contents hadd).2, append_assoc]
  refine .append_left _ ?_
  exact ((hperm.append_right _).append_right _).map FifoMsg.startAddress

/-- A step of the uplink keeps the frames and their blocks together. -/
theorem ulChange {e : Event} (hinv : UlInv apReady u) (hchange : UlChange apReady u e u') :
    Custody apReady u' := by
  cases hchange with
  | refused status hcall hstatus =>
    exact { h.moved (c := .idle) (by rw [hcall]) with }
  | entered hready hcall hbusy hpackets =>
    exact { h.moved (c := .room _ []) (by rw [hcall]; exact ulMsgs_nil _) with }
  | loopEnd hcall hlength | hasRoom hcall hlength hspace => exact h.moved (by rw [hcall]; rfl)
  | noRoom hcall hlength hspace | paused hcall =>
    exact { h.moved (c := .start _ _ .resourcesFull) (by rw [hcall]; rfl) with }
  | @noMemory packets adr p mm hcall hp halloc =>
    rcases h.mm.alloc (hinv.alloc_size hcall hp) with
      ⟨_, halloc', hmm, -⟩ | ⟨_, _, halloc', -⟩ <;> cases halloc.symm.trans halloc'
    exact { h.moved (c := .pause packets adr) (by rw [hcall]; rfl) with mm := hmm }
  | @reserved packets adr p mm a hcall hp halloc =>
    rcases h.mm.alloc (hinv.alloc_size hcall hp) with
      ⟨_, halloc', -⟩ | ⟨_, _, halloc', hmm⟩ <;> cases halloc.symm.trans halloc'
    refine h.accept (hinv.ready (Or.inl (by rw [hcall]; exact nofun)))
      (hinv.alloc_valid hcall hp) hmm rfl rfl rfl rfl ?_ rfl rfl rfl
    change _ ++ ulMsgs packets (adr ++ [UInt32.ofNat a]) = u.pendingMsgs ++ _
    rw [ulMsgs_append hp, pendingMsgs, hcall, UlCall.msgs, append_assoc]
    rfl
  | nothing hcall =>
    exact { h.moved (c := .idle) (by rw [hcall]; exact (ulMsgs_nil _).symm) with }
  | @started packets adr status hcall hadr =>
    have hwf := hinv.wf
    rw [hcall] at hwf
    have hlength : adr.length ≤ packets.length := by
      rcases hwf.2 with hok | hfull
      · exact hok.2.le
      · exact hfull.2.le
    refine h.step h.mm rfl rfl rfl rfl ?_ rfl rfl rfl
    rw [pendingMsgs, if_pos rfl, pendingMsgs, hcall,
      hinv.not_dma (by rw [hcall]; exact nofun)]
    change (range adr.length).map (fill u.msgTable (ulMsgs packets adr)) ++ [] =
      [] ++ ulMsgs packets adr
    rw [append_nil, ← length_ulMsgs hlength, map_fill, nil_append]
  | transferred hdma hok => exact h.transferred hinv hdma hok
  | completed htasklet | resumed htasklet => exact { h with }
  | bpRead hget => exact h.bpRead hget
  | bpAck hheld hadd => exact h.bpAck hheld hadd

theorem nodup_outstanding : u.outstanding.Nodup :=
  Nodup.of_map UInt32.toNat (h.blocks.nodup_iff.mp h.mm.nodup)

theorem processAck {adr : UInt32} (hget : u.fifoAckDl.getMsg 0 = some adr) :
    ∃ u', u.processAck adr = .ok u' ∧ Custody apReady u' ∧
      u.fifoAckDl.contents = adr :: u'.fifoAckDl.contents ∧ u'.freed = u.freed ++ [adr] := by
  have hcontents := Fifo.getMsg_zero hget
  have hout : u.outstanding = adr :: ((u.fifoAckDl.incrementReadInd 1).contents ++
      u.inFlight.map FifoMsg.startAddress) := by
    rw [Uplink.outstanding, hcontents]
    rfl
  have hblocks := h.blocks
  rw [hout, map_cons] at hblocks
  rcases h.mm.free hblocks with ⟨mm, hexec, hmm, hlive⟩
  have hconserved := h.conserved
  rw [hout] at hconserved
  rcases Uplink.tryResume_frame { u with mm := mm, freed := u.freed ++ [adr] } with
    ⟨pause, resume, starved, hresume⟩
  refine ⟨_, by rw [Uplink.processAck, hexec], ?_⟩
  rw [hresume]
  refine ⟨⟨h.cnf, h.published, h.quiet, h.valid, hmm, hlive, ?_⟩, hcontents, rfl⟩
  rw [append_assoc]
  exact hconserved

theorem processAcks {fuel : Nat} (hfuel : u.fifoAckDl.contents.length ≤ fuel) :
    ∃ u', u.processAcks fuel = .ok u' ∧ Custody apReady u' ∧ u'.fifoAckDl.contents = [] ∧
      u'.freed = u.freed ++ u.fifoAckDl.contents := by
  induction fuel generalizing u with
  | zero =>
    have hnil := eq_nil_of_length_eq_zero (Nat.le_zero.mp hfuel)
    exact ⟨u, rfl, h, hnil, by rw [hnil, append_nil]⟩
  | succ fuel ih =>
    unfold processAcks
    cases hget : u.fifoAckDl.getMsg 0 with
    | none =>
      have hnil := Fifo.getMsg_zero_none hget
      exact ⟨u, rfl, h, hnil, by rw [hnil, append_nil]⟩
    | some adr =>
      rcases h.processAck hget with ⟨u', hack, h', hcontents, hfreed⟩
      rw [hcontents, length_cons] at hfuel
      rcases ih h' (Nat.le_of_succ_le_succ hfuel) with ⟨u'', hacks, h'', hnil, hfreed'⟩
      refine ⟨u'', ?_, h'', hnil, ?_⟩
      · simp only [hack]
        exact hacks
      · rw [hfreed', hfreed, hcontents, append_assoc]
        rfl

theorem fifoAckProcessDlMsg :
    ∃ u', u.fifoAckProcessDlMsg = .ok u' ∧ Custody apReady u' ∧ u'.fifoAckDl.contents = [] ∧
      u'.freed = u.freed ++ u.fifoAckDl.contents := by
  have hlength := Fifo.length_add_spaceLeft u.fifoAckDl
  exact h.processAcks (by omega)

end

/-- Every event keeps the frames and their blocks together. -/
theorem change {s s' : State} {e : Event} (hfresh : s.bBpReady = false → Fresh s)
    (hinv : UlInv s.bApReady s.ul) (h : Custody s.bApReady s.ul) (hchange : Change s e s') :
    Custody s'.bApReady s'.ul := by
  cases hchange with
  | same e | closed | dl hdl => exact h
  | opened hclosed =>
    rcases State.openIpc_frame hfresh with ⟨hul, hap⟩
    rw [hul, hap]
    exact h
  | @initCnf fifoUl hbp hap hadd =>
    have hquiet := h.quiet hap
    have hpublished := h.published
    rw [hquiet, map_nil, append_eq_nil_iff] at hpublished
    have hout : outstanding { s.ul with
        fifoUl := fifoUl, added := s.ul.added ++ [State.initCnfMsg] } = s.ul.outstanding := by
      change _ ++ (_ ++ frames fifoUl.contents ++ _).map _ = _
      rw [(Fifo.addMsg_contents hadd).2, frames_append]
      change _ ++ (_ ++ (_ ++ []) ++ _).map _ = _
      rw [append_nil]
      rfl
    have hadded : s.ul.added = [] := by
      rw [h.cnf, hpublished.1, hap]
      rfl
    refine ⟨?_, ?_, ?_, h.valid, h.mm, ?_, ?_⟩
    · rw [hadded]
      rfl
    · change frames (s.ul.added ++ [State.initCnfMsg]) ++ s.ul.pendingMsgs = _
      rw [hadded, hpublished.2, hquiet]
      rfl
    · exact nofun
    · rw [hout]
      exact h.blocks
    · rw [hout]
      exact h.conserved
  | ul hul => exact h.ulChange hinv hul
  | processed hprocess hul hdl =>
    rcases h.fifoAckProcessDlMsg with ⟨u', hok, h', -⟩
    cases hul.symm.trans hok
    exact h'

end Custody

theorem custody_of_reachable {s : State} (hs : system.Reachable s) : Custody s.bApReady s.ul := by
  refine TransitionSystem.ReachableUnder.invariant_along
    (P := fun s : State => Custody s.bApReady s.ul) ?_ ?_ hs
  · rintro _ rfl
    refine ⟨rfl, rfl, fun _ => rfl, ?_, Buddy.init_inv, Perm.refl _, Perm.refl _⟩
    exact nofun
  · intro s e s' hreach h _ hstep
    exact h.change (fresh_of_reachable hreach) (ulInv_of_reachable hreach)
      (State.act_change hstep)

/-- The frames that `IPC_4GHIF_submit_ul` accepts are put in `FIFO_UL` in the order of
their acceptance, each once and with its own type, tag, length and address, as soon as their
transfer is over.  The blocks that are handed out are those of the frames whose ACK is not yet
processed, no two of them the same; an accepted frame is either freed or outstanding; and
processing the ACKs frees their blocks without a panic. -/
theorem ulFrames_conserved {s : State} (hs : system.Reachable s) :
    frames s.ul.added ++ s.ul.pendingMsgs =
      s.ul.accepted.map (fun pa => pa.1.ulMsg pa.2) ∧
    (∀ pa ∈ s.ul.accepted, (pa.1.ulMsg pa.2).length.toNat = pa.1.bufSize) ∧
    s.ul.taken ++ s.ul.fifoUl.contents = s.ul.added ∧
    (s.ul.mm.live.map Buddy.Block.adr).Perm (s.ul.outstanding.map UInt32.toNat) ∧
    s.ul.outstanding.Nodup ∧
    (s.ul.accepted.map Prod.snd).Perm (s.ul.freed ++ s.ul.outstanding) ∧
    ∃ u, s.ul.fifoAckProcessDlMsg = .ok u ∧ u.fifoAckDl.contents = [] ∧
      u.freed = s.ul.freed ++ s.ul.fifoAckDl.contents := by
  have h := custody_of_reachable hs
  rcases h.fifoAckProcessDlMsg with ⟨u, hok, -, hnil, hfreed⟩
  refine ⟨h.published, ?_, fifoUl_history hs, h.blocks, h.nodup_outstanding, h.conserved, u, hok,
    hnil, hfreed⟩
  intro pa hpa
  exact SdmaPacket.ulMsg_length (h.valid pa hpa) pa.2

theorem ulFrames_conserved_ack :
    ∃ s : State, (s.ul.accepted.length = 1 ∧ s.ul.fifoAckDl.contents.length = 1) ∧
      ∃ u, s.ul.fifoAckProcessDlMsg = .ok u ∧ u.freed = s.ul.freed ++ s.ul.fifoAckDl.contents := by
  rcases exists_observed
    (P := fun s => s.ul.accepted.length = 1 ∧ s.ul.fifoAckDl.contents.length = 1)
    (oneFrameRun ++ [.sdmaUl, .ulComplete, .bpReadUl, .bpReadUl, .bpAckUl 0])
    (by decide +kernel) with ⟨s, hs, hobs⟩
  rcases (ulFrames_conserved hs).2.2.2.2.2.2 with ⟨u, hok, -, hfreed⟩
  exact ⟨s, hobs, u, hok, hfreed⟩

end LteModemKernel.Ghif
