import LteModemKernel.DataDriver.Model

/-!
# The list of packets in transfer

From the test at the start of `lte_dd_sdma_tx` to `lte_dd_4ghif_ul_complete_cb` the
device is busy with one list of packets.  This module follows the list through the run, the
call of `IPC_4GHIF_submit_ul` and the transfer.

Main results:

- Theorem `Phase.frame`: a step that does not concern the list keeps the phase.
- Theorems `Phase.sdmaTx`, `Phase.buildStep`, `Phase.submit`,
  `Phase.callStep`, `Phase.dropped`, `Phase.throttled` and
  `Phase.ulComplete`: the steps from one phase to another.
- Theorem `ipc_reachable`: below a run of the data driver there is a run of the 4GHIF driver.
-/

namespace LteModemKernel.DataDriver

open Lib Function List Option State Bool PtrFifo
open Ghif (SdmaPacket Status Event Uplink UlCall UlChange UlInv)

/-! ## The call below -/

/-- The packets that a call of `IPC_4GHIF_submit_ul` is about. -/
def callPackets : UlCall → List SdmaPacket
  | .idle => []
  | .room packets _ | .alloc packets _ | .pause packets _ | .start packets _ _ => packets

/-- The number of packets it has accepted. -/
def callAccepted : UlCall → Nat
  | .idle => 0
  | .room _ adr | .alloc _ adr | .pause _ adr | .start _ adr _ => adr.length

/-- The packets that the 4GHIF driver has accepted so far. -/
def acceptedPackets (u : Uplink) : List SdmaPacket := u.accepted.map Prod.fst

/-- What concerns the calls of `IPC_4GHIF_submit_ul`. -/
def callView (u : Uplink) := (u.call, acceptedPackets u, u.bSdmaUlTransferOnGoing)

/-- The events below that are not steps of a call leave the calls alone. -/
theorem callView_of_internal {s s' : Ghif.State} {e : Event} (hs : Ghif.system.Reachable s)
    (hact : s.act e = some s') (hinternal : ipcInternal e = true) (hne : e ≠ .submitUlStep) :
    callView s'.ul = callView s.ul := by
  cases Ghif.State.act_change hact with
  | same | closed | initCnf hbp hap hadd | dl hdl => rfl
  | opened hclosed =>
    rw [(Ghif.State.openIpc_frame (Ghif.fresh_of_reachable hs)).1]
  | processed hprocess hul hdl =>
    rcases Uplink.processAcks_frame hul with ⟨mm, freed, pause, resume, starved, f, rfl⟩
    rfl
  | ul hul =>
    cases hul with
    | transferred hdma hok =>
      rcases (Ghif.ulInv_of_reachable hs).sdmaUlCallback hdma with ⟨f, hcallback, -⟩
      cases hok.symm.trans hcallback
      rfl
    | bpRead hget | bpAck hheld hadd => rfl
    | refused | entered | completed | resumed => cases hinternal
    | loopEnd | noRoom | hasRoom | noMemory | reserved | paused | nothing | started =>
      exact absurd rfl hne

/-- How a call of `IPC_4GHIF_submit_ul` that is not refused can end: with a status and a
number of packets, of a list, and with or without a transfer. -/
inductive CallEnd (packets : List SdmaPacket) : Status → Nat → Bool → Prop where
  | all : CallEnd packets .ok packets.length true
  | some {nb} (hpos : nb ≠ 0) (hlt : nb < packets.length) :
      CallEnd packets .resourcesFull nb true
  | none (hne : packets ≠ []) : CallEnd packets .resourcesFull 0 false

/-- A step of a call: it goes on with the same packets, or it ends. -/
inductive CallStep (base : List SdmaPacket) (u u' : Uplink) : Prop where
  | goes (hcall : u'.call ≠ .idle) (hpackets : callPackets u'.call = callPackets u.call)
      (hflag : u'.bSdmaUlTransferOnGoing = u.bSdmaUlTransferOnGoing)
      (hdone : base ++ (callPackets u.call).take (callAccepted u'.call) = acceptedPackets u')
  | ends {status nb} (hcall : u'.call = .idle)
      (hresult : u'.result = some (status, nb))
      (hend : CallEnd (callPackets u.call) status nb u'.bSdmaUlTransferOnGoing)
      (hdone : base ++ (callPackets u.call).take nb = acceptedPackets u')

/-- A step of a call, with the packets accepted before it. -/
theorem callStep {apReady : Bool} {u u' : Uplink} {base : List SdmaPacket}
    (hinv : UlInv apReady u) (hne : u.call ≠ .idle)
    (hdone : base ++ (callPackets u.call).take (callAccepted u.call) = acceptedPackets u)
    (hchange : UlChange apReady u .submitUlStep u') : CallStep base u u' := by
  have hwf := hinv.wf
  cases hchange with
  | loopEnd hcall hlength | noRoom hcall hlength hspace | hasRoom hcall hlength hspace
  | noMemory hcall hp halloc | paused hcall =>
    rw [hcall] at hdone
    exact .goes nofun (by rw [hcall]; rfl) rfl (by rw [hcall]; exact hdone)
  | @reserved packets adr p mm a hcall hp halloc =>
    rw [hcall] at hdone
    refine .goes nofun (by rw [hcall]; rfl) rfl ?_
    change base ++ (callPackets u.call).take (adr ++ [UInt32.ofNat a]).length =
      (u.accepted ++ [(p, UInt32.ofNat a)]).map Prod.fst
    rw [hcall, length_append, map_append]
    change base ++ packets.take (adr.length + 1) = acceptedPackets u ++ [p]
    rw [← hdone, take_add_one, hp, append_assoc]
    rfl
  | nothing hcall =>
    rw [hcall] at hdone hwf
    refine .ends rfl rfl ?_ (by rw [hcall]; exact hdone)
    change CallEnd _ _ 0 u.bSdmaUlTransferOnGoing
    rw [hinv.calm hne, hcall]
    exact .none hwf.1.ne
  | @started packets adr status hcall hadr =>
    rw [hcall] at hdone hwf
    refine .ends rfl rfl ?_ (by rw [hcall]; exact hdone)
    rw [hcall]
    rcases hwf.2 with ⟨rfl, hlength⟩ | ⟨rfl, hlength⟩
    · rw [hlength]
      exact .all
    · exact .some (fun hzero => hadr (eq_nil_of_length_eq_zero hzero)) hlength

/-! ## Loops of the data driver -/

variable {s' : State} {k : Nat} {index : Ni}

namespace State

variable {pni index' : Ni} {s : State}

/-- Packets from the front of a FIFO are handed back. -/
def handBack (s : State) (pni : Ni) (f : TxFifo) (why : Release) (pskbs : List Skb) : State :=
  { s.setFifo pni f with
    released := update s.released pni (s.released pni ++ pskbs.map (why, ·))
    completed := if why = .completed then s.completed ++ pskbs.map (Xfer.mk pni) else s.completed }

section HandBack

variable (s : State) (f : TxFifo) (why : Release)

@[simp]
theorem handBack_nil : s.handBack pni (s.fifo pni) why [] = s := by
  simp [handBack, setFifo, fifo]

@[simp]
theorem fifo_handBack (pskbs : List Skb) : (s.handBack pni f why pskbs).fifo pni = f := by
  simp [handBack, setFifo, fifo]

theorem handBack_handBack (g : TxFifo) (pskb : Skb) (pskbs : List Skb) :
    (s.handBack pni f why [pskb]).handBack pni g why pskbs =
      s.handBack pni g why (pskb :: pskbs) := by
  cases why <;> simp [handBack, setFifo]

end HandBack

/-- The loop that removes packets takes as many as there are, up to a number. -/
theorem removePackets_spec (pni : Ni) (why : Release) (hwhy : why ≠ .completed) (k : Nat)
    (s : State) : ∃ f,
      removePackets pni why k s = s.handBack pni f why ((s.fifo pni).contents.take k) ∧
        f.contents = (s.fifo pni).contents.drop k := by
  induction k generalizing s with
  | zero => exact ⟨s.fifo pni, (handBack_nil s why).symm, rfl⟩
  | succ k ih =>
    unfold removePackets
    cases hremove : (s.fifo pni).remove with
    | none =>
      rw [remove_none hremove]
      exact ⟨s.fifo pni, (handBack_nil s why).symm, remove_none hremove⟩
    | some r =>
      rcases r with ⟨pskb, f⟩
      have hrelease : (s.setFifo pni f).release pni why pskb = s.handBack pni f why [pskb] := by
        rw [handBack, if_neg hwhy]
        rfl
      rcases ih (s.handBack pni f why [pskb]) with ⟨g, hg, hcontents⟩
      rw [fifo_handBack] at hg hcontents
      rw [handBack_handBack, ← hrelease] at hg
      rw [remove_contents hremove]
      exact ⟨g, hg, hcontents⟩

/-- The packet at the front of a FIFO is completed and removed. -/
theorem completeXfer_front {pskb : Skb} {rest : List Skb}
    (h : (s.fifo pni).contents = pskb :: rest) :
    ∃ f, s.completeXfer ⟨pni, pskb⟩ = s.handBack pni f .completed [pskb] ∧ f.contents = rest := by
  have hpeek : (s.fifo pni).peekOffset 0 = some pskb := by
    rw [peekOffset_eq, h]
    rfl
  cases hremove : (s.fifo pni).remove with
  | none =>
    rw [remove_none hremove] at h
    cases h
  | some r =>
    rcases r with ⟨pskb', f⟩
    have hcontents := remove_contents hremove
    rw [h] at hcontents
    refine ⟨f, ?_, (cons.inj hcontents).2.symm⟩
    simp only [completeXfer, hpeek, hremove, if_true]
    rfl

theorem completeXfer_spec (pni : Ni) (k : Nat) (s : State) : ∃ f,
    (((s.fifo pni).contents.take k).map (Xfer.mk pni)).foldl completeXfer s =
        s.handBack pni f .completed ((s.fifo pni).contents.take k) ∧
      f.contents = (s.fifo pni).contents.drop k := by
  induction k generalizing s with
  | zero => exact ⟨s.fifo pni, (handBack_nil s .completed).symm, rfl⟩
  | succ k ih =>
    cases hcontents : (s.fifo pni).contents with
    | nil => exact ⟨s.fifo pni, (handBack_nil s .completed).symm, hcontents⟩
    | cons pskb rest =>
      rcases completeXfer_front hcontents with ⟨f, hstep, rfl⟩
      rcases ih (s.handBack pni f .completed [pskb]) with ⟨g, hg, hcontents⟩
      rw [fifo_handBack] at hg hcontents
      rw [handBack_handBack, ← hstep] at hg
      exact ⟨g, hg, hcontents⟩

/-- An interface that `lte_dd_ni_interface_fifo_lookup` may choose. -/
def Waiting (s : State) (pni : Ni) : Prop :=
  (s.niInterfaces pni).created = true ∧ (s.fifo pni).contents ≠ []

theorem waiting_iff (s : State) (pni : Ni) :
    s.Waiting pni ↔ (s.niInterfaces pni).created = true ∧ 0 < (s.fifo pni).numElements := by
  rw [Waiting, ← length_contents, length_pos_iff]

/-- A number of packets at the front of a FIFO. -/
structure Chosen (s : State) (pni : Ni) (num : Nat) : Prop where
  created : (s.niInterfaces pni).created = true
  pos : 0 < num
  le : num ≤ (s.fifo pni).contents.length

theorem chosen_of_waiting (h : s.Waiting pni) :
    Chosen s pni (if s.multiPacket then (s.fifo pni).numElements else 1) := by
  have hpos := length_pos_iff.mpr h.2
  refine ⟨h.1, ?_, ?_⟩
  · rw [← length_contents]
    split_ifs
    · exact hpos
    · exact Nat.one_pos
  · rw [← length_contents]
    split_ifs
    · exact le_rfl
    · exact hpos

/-- The round robin search finds the first waiting interface among those it visits, and the
running index is behind it. -/
theorem lookupLoop_spec (s : State) {r : Option (Ni × Nat)}
    (h : s.lookupLoop k index = (index', r)) :
    (∀ c ∈ r, Chosen s c.1 c.2 ∧ ∃ j < k, c.1 = index + Fin.ofNat 8 j ∧ index' = c.1 + 1 ∧
        ∀ i < j, ¬s.Waiting (index + Fin.ofNat 8 i)) ∧
      (r = none → ∀ j < k, ¬s.Waiting (index + Fin.ofNat 8 j)) := by
  induction k generalizing index with
  | zero =>
    cases h
    constructor
    · exact nofun
    · intro _ j hj
      exact absurd hj (Nat.not_lt_zero j)
  | succ k ih =>
    have hsucc (j) : index + .ofNat 8 (j + 1) = index + 1 + .ofNat 8 j := by
      apply Fin.ext
      simp only [Fin.val_add, Fin.ofNat]
      omega
    have hzero : index + .ofNat 8 0 = index := add_zero index
    unfold lookupLoop at h
    by_cases hwaiting : (s.niInterfaces index).created ∧ 0 < (s.fifo index).numElements
    · rw [if_pos hwaiting] at h
      cases h
      constructor
      · rintro c ⟨⟩
        exact ⟨chosen_of_waiting ((waiting_iff s index).mpr hwaiting), 0, k.succ_pos, hzero.symm,
          rfl, fun i hi => absurd hi (Nat.not_lt_zero i)⟩
      · exact nofun
    · rw [if_neg hwaiting] at h
      rw [← waiting_iff] at hwaiting
      rcases ih h with ⟨hchosen, hnone⟩
      have hbefore (j) (hj : (∀ i < j, ¬s.Waiting (index + 1 + .ofNat 8 i))) (i) (hi : i < j + 1) :
          ¬s.Waiting (index + .ofNat 8 i) := by
        cases i with
        | zero => rwa [hzero]
        | succ i =>
          rw [hsucc]
          exact hj i (Nat.lt_of_succ_lt_succ hi)
      constructor
      · intro c hc
        obtain ⟨hc, j, hj, heq, hindex, hskipped⟩ := hchosen c hc
        exact ⟨hc, j + 1, Nat.succ_lt_succ hj, by rw [hsucc, heq], hindex, hbefore j hskipped⟩
      · exact fun hr => hbefore k (hnone hr)

theorem lookupLoop_none (h : s.lookupLoop 8 index = (index', none)) (pni : Ni) :
    ¬s.Waiting pni := by
  have hvisited := (lookupLoop_spec s h).2 rfl (pni - index).val (pni - index).isLt
  rwa [show index + Fin.ofNat 8 (pni - index).val = pni by
    rw [Fin.ofNat_val_eq_self, add_sub_cancel]] at hvisited

end State

/-! ## The phases -/

/-- The rest of the run does nothing. -/
def TxRun.done : TxRun → Bool
  | .returned _ .ok _ => true
  | _ => false

/-- The runs of `lte_dd_sdma_tx` that still have something to do. -/
def State.active (s : State) : List TxRun := s.runs.filter fun r => !r.done

/-- The device is busy with an interface: its list is the front of the FIFO, and so many packets
of it are accepted besides those that are completed. -/
structure Listed (s : State) (pni : Ni) (accepted : Nat) : Prop where
  busy : s.txBusy = true
  created : (s.niInterfaces pni).created = true
  niBusy : (s.niInterfaces pni).txBusy = true
  xfer : s.txSdmaXfer = ((s.fifo pni).contents.take s.txSdmaXfer.length).map (Xfer.mk pni)
  done : (s.completed ++ s.txSdmaXfer.take accepted).map Xfer.sdma = acceptedPackets s.ipc.ul

/-- The counts of the arrays are the length of the list. -/
structure Counted (s : State) : Prop where
  xferCnt : s.txSdmaXferCnt = s.txSdmaXfer.length
  packetCnt : s.txSdmaPacketCnt = s.txSdmaXfer.length
  ne : s.txSdmaXfer ≠ []
  max : s.txSdmaXfer.length ≤ Ghif.maxNbFrames

/-- No call is under way, and a transfer is or is not. -/
structure Quiet (s : State) (flag : Bool) : Prop where
  call : s.ipc.ul.call = .idle
  flag : s.ipc.ul.bSdmaUlTransferOnGoing = flag

/-- The list is being built. -/
structure Building (s : State) (pni : Ni) (num : Nat) : Prop
    extends Listed s pni 0, Quiet s false where
  active : s.active = [.build pni num]
  cnt : s.txSdmaXferCnt = s.txSdmaXfer.length
  built : s.txSdmaXfer.length ≤ num
  pos : 0 < num
  le : num ≤ (s.fifo pni).contents.length
  max : num ≤ Ghif.maxNbFrames

/-- The list is built. -/
structure Submitting (s : State) (pni : Ni) : Prop
    extends Listed s pni 0, Quiet s false, Counted s where
  active : s.active = [.submit pni]

/-- `IPC_4GHIF_submit_ul` is called with the list. -/
structure Called (s : State) (pni : Ni) : Prop
    extends Listed s pni (callAccepted s.ipc.ul.call), Counted s where
  active : s.active = [.submitted pni]
  call : s.ipc.ul.call ≠ .idle
  packets : callPackets s.ipc.ul.call = s.txSdmaXfer.map Xfer.sdma

/-- The list was refused. -/
structure Refused (s : State) (pni : Ni) (status : Status) : Prop
    extends Listed s pni 0, Quiet s false where
  active : s.active = [.returned pni status 0]
  refuses : status.Refuses false

/-- The first packets of the list were accepted, or none. -/
structure Full (s : State) (pni : Ni) (nb : Nat) : Prop
    extends Listed s pni nb, Quiet s (decide (nb ≠ 0)), Counted s where
  active : s.active = [.returned pni .resourcesFull nb]
  lt : nb < s.txSdmaXfer.length

/-- The transfer is under way. -/
structure Transferring (s : State) (pni : Ni) : Prop
    extends Listed s pni s.txSdmaPacketCnt, Quiet s true where
  active : s.active = []
  pos : 0 < s.txSdmaPacketCnt
  le : s.txSdmaPacketCnt ≤ s.txSdmaXfer.length

/-- What the device is doing. -/
inductive Phase (s : State) : Prop where
  | idle (hbusy : s.txBusy = false) (hactive : s.active = []) (hquiet : Quiet s false)
      (hdone : s.completed.map Xfer.sdma = acceptedPackets s.ipc.ul)
  | building {n : Ni} {k} (h : Building s n k)
  | submitting {n : Ni} (h : Submitting s n)
  | called {n : Ni} (h : Called s n)
  | refused {n : Ni} {status} (h : Refused s n status)
  | full {n : Ni} {nb} (h : Full s n nb)
  | transferring {n : Ni} (h : Transferring s n)

/-- What the phase is about, besides the interfaces. -/
def State.view (s : State) :=
  (s.txBusy, s.active, s.txSdmaXfer, s.txSdmaXferCnt, s.txSdmaPacketCnt, s.completed,
    callView s.ipc.ul)

/-- What a step that does not concern the list in transfer leaves alone. -/
structure Frame (s s' : State) : Prop where
  view : s'.view = s.view
  ni : ∀ pni, (s.niInterfaces pni).created = true → (s.niInterfaces pni).txBusy = true →
    (s'.niInterfaces pni).created = true ∧ (s'.niInterfaces pni).txBusy = true ∧
      (s.fifo pni).contents <+: (s'.fifo pni).contents

theorem Frame.parts {s : State} (hf : Frame s s') :
    s'.txBusy = s.txBusy ∧ s'.active = s.active ∧ s'.txSdmaXfer = s.txSdmaXfer ∧
      s'.txSdmaXferCnt = s.txSdmaXferCnt ∧ s'.txSdmaPacketCnt = s.txSdmaPacketCnt ∧
      s'.completed = s.completed ∧ s'.ipc.ul.call = s.ipc.ul.call ∧
      acceptedPackets s'.ipc.ul = acceptedPackets s.ipc.ul ∧
      s'.ipc.ul.bSdmaUlTransferOnGoing = s.ipc.ul.bSdmaUlTransferOnGoing := by
  simpa only [State.view, callView, Prod.mk.injEq] using hf.view

namespace Listed

variable {s : State} {pni : Ni}

theorem length_le (h : Listed s pni k) : s.txSdmaXfer.length ≤ (s.fifo pni).contents.length := by
  have hlength := congrArg length h.xfer
  rw [length_map, length_take] at hlength
  exact min_eq_left_iff.mp hlength.symm

theorem frame (h : Listed s pni k) (hf : Frame s s') : Listed s' pni k := by
  rcases hf.ni pni h.created h.niBusy with ⟨hcreated, hniBusy, more, hmore⟩
  obtain ⟨hbusy, -, hxfer, -, -, hcompleted, -, haccepted, -⟩ := hf.parts
  refine ⟨hbusy.trans h.busy, hcreated, hniBusy, ?_, ?_⟩
  · rw [hxfer, ← hmore, take_append_of_le_length h.length_le]
    exact h.xfer
  · rw [hcompleted, hxfer, haccepted]
    exact h.done

end Listed

variable {s : State}

theorem Counted.frame (h : Counted s) (hf : Frame s s') : Counted s' := by
  obtain ⟨-, -, hxfer, hxferCnt, hpacketCnt, -⟩ := hf.parts
  constructor <;> rw [hxfer]
  · exact hxferCnt.trans h.xferCnt
  · exact hpacketCnt.trans h.packetCnt
  · exact h.ne
  · exact h.max

theorem Quiet.frame {flag : Bool} (h : Quiet s flag) (hf : Frame s s') : Quiet s' flag := by
  obtain ⟨-, -, -, -, -, -, hcall, -, hflag⟩ := hf.parts
  exact ⟨hcall.trans h.call, hflag.trans h.flag⟩

namespace Phase

/-- A step that does not concern the list in transfer keeps the phase. -/
theorem frame (h : Phase s) (hf : Frame s s') : Phase s' := by
  obtain ⟨hbusy', hactive', hxfer, hxferCnt, hpacketCnt, hcompleted, hcall', haccepted, -⟩ :=
    hf.parts
  cases h with
  | idle hbusy hactive hquiet hdone =>
    refine .idle (hbusy'.trans hbusy) (hactive'.trans hactive) (hquiet.frame hf) ?_
    rw [hcompleted, haccepted]
    exact hdone
  | building h =>
    rcases hf.ni _ h.created h.niBusy with ⟨-, -, hfront⟩
    refine .building { h.toListed.frame hf, h.toQuiet.frame hf, h with
      active := hactive'.trans h.active
      cnt := ?_
      built := hxfer ▸ h.built
      le := h.le.trans hfront.length_le }
    rw [hxfer]
    exact hxferCnt.trans h.cnt
  | submitting h =>
    exact .submitting { h.toListed.frame hf, h.toQuiet.frame hf, h.toCounted.frame hf with
      active := hactive'.trans h.active }
  | called h =>
    have hlisted := h.toListed.frame hf
    rw [← hcall'] at hlisted
    refine .called { hlisted, h.toCounted.frame hf with
      active := hactive'.trans h.active
      call := hcall' ▸ h.call
      packets := ?_ }
    rw [hcall', hxfer]
    exact h.packets
  | refused h =>
    exact .refused { h.toListed.frame hf, h.toQuiet.frame hf, h with
      active := hactive'.trans h.active }
  | full h =>
    exact .full { h.toListed.frame hf, h.toQuiet.frame hf, h.toCounted.frame hf with
      active := hactive'.trans h.active
      lt := hxfer ▸ h.lt }
  | transferring h =>
    have hlisted := h.toListed.frame hf
    rw [← hpacketCnt] at hlisted
    exact .transferring { hlisted, h.toQuiet.frame hf with
      active := hactive'.trans h.active
      pos := hpacketCnt ▸ h.pos
      le := hpacketCnt ▸ hxfer ▸ h.le }

/-- While the device is busy, its list is the front of the FIFO of one interface. -/
theorem listed (h : Phase s) (hbusy : s.txBusy = true) : ∃ pni k, Listed s pni k := by
  cases h with
  | idle hnot => exact absurd (hnot.symm.trans hbusy) false_ne_true
  | building h | submitting h | called h | refused h | full h | transferring h =>
    exact ⟨_, _, h.toListed⟩

/-- While the device is not busy nothing is on its way. -/
theorem idle_of_not_busy (h : Phase s) (hbusy : s.txBusy = false) :
    s.active = [] ∧ Quiet s false ∧ s.completed.map Xfer.sdma = acceptedPackets s.ipc.ul := by
  cases h with
  | idle _ hactive hquiet hdone => exact ⟨hactive, hquiet, hdone⟩
  | building h | submitting h | called h | refused h | full h | transferring h =>
    exact absurd (hbusy.symm.trans h.busy) false_ne_true

/-- A call is under way in one phase only. -/
theorem called_of_call (h : Phase s) (hcall : s.ipc.ul.call ≠ .idle) : ∃ pni, Called s pni := by
  cases h with
  | called h => exact ⟨_, h⟩
  | idle _ _ h | building h | submitting h | refused h | full h | transferring h =>
    exact absurd h.call hcall

theorem not_submitted (h : Phase s) (hidle : s.ipc.ul.call = .idle) (pni : Ni) :
    .submitted pni ∉ s.active := by
  intro hmem
  cases h with
  | idle _ hactive =>
    rw [hactive] at hmem
    cases hmem
  | transferring h =>
    rw [h.active] at hmem
    cases hmem
  | building h | submitting h | refused h | full h =>
    rw [h.active] at hmem
    cases mem_singleton.mp hmem
  | called h => exact h.call hidle

/-- Where no call returns, the runs stay as they are. -/
theorem settle (h : Phase s) : s.settle = s := by
  unfold State.settle
  split_ifs with hidle
  · have hmap : s.runs.map (.settle s.ipc.ul.result) = s.runs := by
      refine (map_congr_left ?_).trans (map_id _)
      intro r hr
      cases r with
      | submitted pni =>
        exact absurd (mem_filter.mpr ⟨hr, rfl⟩) (h.not_submitted hidle pni)
      | build pni num | submit pni | returned pni status nb => rfl
    rw [hmap]
  · rfl

end Phase

/-! ## Steps outside of the transfer -/

namespace Frame

variable {pni : Ni}

theorem of_niInterfaces (hni : s'.niInterfaces = s.niInterfaces) (hview : s'.view = s.view) :
    Frame s s' := by
  refine ⟨hview, fun k hcreated hniBusy => ?_⟩
  unfold fifo
  rw [hni]
  exact ⟨hcreated, hniBusy, prefix_refl _⟩

theorem of_update {info : NetInfo} (hni : s'.niInterfaces = update s.niInterfaces pni info)
    (hfree : ¬((s.niInterfaces pni).created = true ∧ (s.niInterfaces pni).txBusy = true))
    (hview : s'.view = s.view) : Frame s s' := by
  refine ⟨hview, fun k hcreated hniBusy => ?_⟩
  have hne : k ≠ pni := by
    rintro rfl
    exact hfree ⟨hcreated, hniBusy⟩
  unfold fifo
  rw [hni, update_of_ne hne]
  exact ⟨hcreated, hniBusy, prefix_refl _⟩

/-- A packet is enqueued behind the others. -/
theorem txDataStart (s : State) (pni : Ni) (pskb : Skb) : Frame s (s.txDataStart pni pskb) := by
  unfold State.txDataStart
  split_ifs
  · exact of_niInterfaces rfl rfl
  · cases hinsert : (s.fifo pni).insert pskb with
    | none => exact of_niInterfaces rfl rfl
    | some f =>
      refine ⟨rfl, fun k hcreated hniBusy => ?_⟩
      by_cases hk : k = pni
      · subst hk
        simp only [setFifo, fifo, update_self]
        refine ⟨hcreated, hniBusy, ?_⟩
        rw [insert_contents hinsert]
        exact prefix_append _ _
      · simp only [setFifo, fifo, update_of_ne hk]
        exact ⟨hcreated, hniBusy, prefix_refl _⟩

theorem flushTxDataFifo (hbusy : (s.niInterfaces pni).txBusy = false) :
    Frame s (s.flushTxDataFifo pni) := by
  rcases removePackets_spec pni .flushed nofun 65 s with ⟨f, hf, -⟩
  unfold State.flushTxDataFifo
  rw [hf]
  refine of_update rfl ?_ rfl
  rw [hbusy]
  exact fun h => false_ne_true h.2

theorem busControlFlush (hbusy : (s.niInterfaces pni).txBusy = false) :
    Frame s (s.busControlFlush pni) := by
  unfold State.busControlFlush
  split_ifs
  · exact flushTxDataFifo hbusy
  · exact of_niInterfaces rfl rfl

theorem busControlTxDrain : Frame s (s.busControlTxDrain pni) := by
  unfold State.busControlTxDrain
  split_ifs <;> exact of_niInterfaces rfl rfl

theorem createNetIface : Frame s s.createNetIface := by
  unfold State.createNetIface
  cases halloc : s.niInterfaceAlloc with
  | none => exact of_niInterfaces rfl rfl
  | some pni =>
    have hfree := find?_some halloc
    refine of_update rfl ?_ rfl
    intro h
    rw [h.1] at hfree
    cases hfree

theorem trans {s'' : State} (h : Frame s s') (h' : Frame s' s'') : Frame s s'' := by
  refine ⟨h'.view.trans h.view, fun k hcreated hniBusy => ?_⟩
  rcases h.ni k hcreated hniBusy with ⟨hcreated', hniBusy', hfront⟩
  rcases h'.ni k hcreated' hniBusy' with ⟨hcreated'', hniBusy'', hfront'⟩
  exact ⟨hcreated'', hniBusy'', hfront.trans hfront'⟩

/-- An interface is deleted only while it is not busy. -/
theorem deleteNetIface : Frame s (s.deleteNetIface pni) := by
  unfold State.deleteNetIface
  split_ifs with hpersistent hcreated hbusy
  · exact of_niInterfaces rfl rfl
  · exact of_niInterfaces rfl rfl
  · exact of_niInterfaces rfl rfl
  · have hbusy' := eq_false_of_not_eq_true hbusy
    refine (flushTxDataFifo hbusy').trans ?_
    refine of_update rfl ?_ rfl
    rcases removePackets_spec pni .flushed nofun 65 s with ⟨f, hf, -⟩
    unfold State.flushTxDataFifo
    rw [hf]
    simp only [handBack, setFifo, update_self, hbusy']
    exact fun h => false_ne_true h.2

end Frame

/-! ## Steps of the transfer -/

section Runs

variable {α : Type} {p : α → Bool} {l : List α} {i : Nat} {x y : α}

/-- A list around one of its elements. -/
theorem exists_around (hi : l[i]? = some y) :
    ∃ before behind, l = before ++ y :: behind ∧ (∀ z, l.set i z = before ++ z :: behind) ∧
      l.eraseIdx i = before ++ behind := by
  obtain ⟨hlt, rfl⟩ := List.getElem?_eq_some_iff.mp hi
  refine ⟨l.take i, l.drop (i + 1), ?_, ?_, eraseIdx_eq_take_drop_succ l i⟩
  · rw [← drop_eq_getElem_cons hlt, take_append_drop]
  · intro z
    exact set_eq_take_append_cons_drop.trans (if_pos hlt)

/-- The only element of a kind is replaced or removed. -/
theorem filter_eq_singleton (h : l.filter p = [x]) (hi : l[i]? = some y) (hy : p y = true) :
    y = x ∧ (∀ z, (l.set i z).filter p = [z].filter p) ∧ (l.eraseIdx i).filter p = [] := by
  obtain ⟨before, behind, rfl, hset, herase⟩ := exists_around hi
  rw [filter_append, filter_cons_of_pos hy] at h
  obtain ⟨hbefore, hrest⟩ | ⟨-, hrest⟩ := append_eq_singleton_iff.mp h
  · obtain ⟨rfl, hbehind⟩ := cons.inj hrest
    refine ⟨rfl, fun z => ?_, ?_⟩
    · rw [hset, filter_append, hbefore, filter_cons, filter_cons, hbehind]
      rfl
    · rw [herase, filter_append, hbefore, hbehind]
      rfl
  · cases hrest

/-- An element that is not of the kind is removed. -/
theorem filter_eraseIdx (hi : l[i]? = some y) (hy : p y = false) :
    (l.eraseIdx i).filter p = l.filter p := by
  obtain ⟨before, behind, rfl, -, herase⟩ := exists_around hi
  rw [herase, filter_append, filter_append, filter_cons_of_neg (by rw [hy]; exact false_ne_true)]

end Runs

theorem filter_map_settle (result : Option (Status × Nat)) (runs : List TxRun) :
    (runs.map (TxRun.settle result)).filter (fun r => !r.done) =
      ((runs.filter fun r => !r.done).map (TxRun.settle result)).filter fun r => !r.done := by
  induction runs with
  | nil => rfl
  | cons r runs ih =>
    cases hdone : r.done with
    | true =>
      have hsettle : r.settle result = r := by
        cases r <;> first | rfl | cases hdone
      rw [map_cons, hsettle, filter_cons_of_neg (by simp [hdone]),
        filter_cons_of_neg (by simp [hdone])]
      exact ih
    | false =>
      rw [filter_cons_of_pos (l := runs) (by simp [hdone]), map_cons, map_cons,
        filter_cons, filter_cons, ih]

variable {pni : Ni} {ipc : Ghif.State} {status : Status} {i : Nat}

namespace State

theorem niInterfaceFifoLookup_some (h0 : (s.niInterfaces 0).created = true) {num : Nat}
    (h : s.niInterfaceFifoLookup = (index, some (pni, num))) : Chosen s pni num := by
  unfold niInterfaceFifoLookup at h
  by_cases hcnt : s.niInterfacesCnt = 1
  · rw [if_pos hcnt] at h
    by_cases hnum : 0 < (s.fifo 0).numElements
    · rw [if_pos hnum] at h
      cases h
      exact chosen_of_waiting ((waiting_iff s 0).mpr ⟨h0, hnum⟩)
    · rw [if_neg hnum] at h
      cases h
  · rw [if_neg hcnt] at h
    exact ((lookupLoop_spec s h).1 _ rfl).1

/-- `lte0` is created, and the count of the interfaces is the number of those created. -/
structure Counted (s : State) : Prop where
  lte0 : (s.niInterfaces 0).created = true
  cnt : s.niInterfacesCnt = (Finset.univ.filter fun i => (s.niInterfaces i).created = true).card

/-- Where only one interface is counted, it is the one that is never deleted. -/
theorem Counted.eq_zero (h : s.Counted) (hcnt : s.niInterfacesCnt = 1)
    (hcreated : (s.niInterfaces pni).created = true) : pni = 0 := by
  have hcard := h.cnt
  rw [hcnt] at hcard
  exact Finset.card_le_one.mp hcard.ge pni (Finset.mem_filter.mpr ⟨Finset.mem_univ _, hcreated⟩) 0
    (Finset.mem_filter.mpr ⟨Finset.mem_univ _, h.lte0⟩)

theorem not_waiting_of_lookup (h : s.Counted) (hlookup : s.niInterfaceFifoLookup = (index, none))
    (pni : Ni) : ¬s.Waiting pni := by
  unfold niInterfaceFifoLookup at hlookup
  by_cases hcnt : s.niInterfacesCnt = 1
  · rw [if_pos hcnt] at hlookup
    by_cases hnum : 0 < (s.fifo 0).numElements
    · rw [if_pos hnum] at hlookup
      cases hlookup
    · intro hwaiting
      have hpni := h.eq_zero hcnt hwaiting.1
      rw [hpni] at hwaiting
      exact hnum ((waiting_iff s 0).mp hwaiting).2
  · rw [if_neg hcnt] at hlookup
    exact lookupLoop_none hlookup pni

theorem settle_of_idle {nb : Nat} (hactive : s.active = [.submitted pni])
    (hcall : s.ipc.ul.call = .idle) (hresult : s.ipc.ul.result = some (status, nb)) :
    ∃ runs, s.settle = { s with runs := runs } ∧
      runs.filter (fun r => !r.done) = [TxRun.returned pni status nb].filter fun r => !r.done := by
  refine ⟨s.runs.map (.settle s.ipc.ul.result), if_pos hcall, ?_⟩
  rw [filter_map_settle, show (s.runs.filter fun r => !r.done) = _ from hactive, hresult]
  rfl

theorem settle_of_call (hcall : s.ipc.ul.call ≠ .idle) : s.settle = s :=
  if_neg hcall

end State

theorem Called.accepted_take (h : Called s pni) (nb : Nat) :
    s.completed.map Xfer.sdma ++ (callPackets s.ipc.ul.call).take nb =
      (s.completed ++ s.txSdmaXfer.take nb).map Xfer.sdma := by
  rw [h.packets, map_append, map_take]

namespace Phase

theorem sdmaTx (h : Phase s) (h0 : (s.niInterfaces 0).created = true) : Phase s.sdmaTx := by
  unfold State.sdmaTx
  by_cases hflags : (s.txBusy || s.txThrottle) = true
  · rw [if_pos hflags]
    exact h
  · rw [if_neg hflags]
    have hbusy := (or_eq_false_iff.mp (eq_false_of_not_eq_true hflags)).1
    rcases h.idle_of_not_busy hbusy with ⟨hactive, hquiet, hdone⟩
    rcases hlookup : s.niInterfaceFifoLookup with ⟨index, r⟩
    cases r with
    | none =>
      exact h.frame (.of_niInterfaces rfl rfl)
    | some c =>
      rcases c with ⟨pni, num⟩
      have hchosen := niInterfaceFifoLookup_some h0 hlookup
      refine .building (n := pni) (k := min num Ghif.maxNbFrames)
        ⟨⟨rfl, ?_, ?_, rfl, ?_⟩, { hquiet with }, ?_, rfl, Nat.zero_le _, ?_, ?_, min_le_right _ _⟩
      · simp only [setTxBusy, update_self]
        exact hchosen.created
      · simp [setTxBusy]
      · change (s.completed ++ []).map _ = _
        rw [append_nil]
        exact hdone
      · change (s.runs ++ [_]).filter _ = _
        rw [filter_append, show (s.runs.filter fun r => !r.done) = [] from hactive]
        rfl
      · exact lt_min hchosen.pos (by decide)
      · simp only [fifo, setTxBusy, update_self]
        exact le_trans (min_le_left _ _) hchosen.le

/-- A round of the loop that builds the list, or its end. -/
theorem buildStep {num : Nat} (h : Building s pni num) (hi : s.runs[i]? = some (.build pni num)) :
    Phase (s.buildStep i pni num) ∧ (s.buildStep i pni num).txBusy = true := by
  unfold State.buildStep
  split_ifs with hless
  · have hlt : s.txSdmaXfer.length < (s.fifo pni).contents.length := lt_of_lt_of_le hless h.le
    rw [peekOffset_eq, getElem?_eq_getElem hlt]
    have hlength :
        (s.txSdmaXfer ++ [Xfer.mk pni (s.fifo pni).contents[s.txSdmaXfer.length]]).length =
        s.txSdmaXfer.length + 1 := length_append
    refine ⟨.building { h with xfer := ?_, cnt := ?_, built := ?_ }, h.busy⟩
    · change s.txSdmaXfer ++ [_] = ((s.fifo pni).contents.take (s.txSdmaXfer ++ [_]).length).map _
      rw [hlength, take_add_one, getElem?_eq_getElem hlt, map_append, ← h.xfer]
      rfl
    · change s.txSdmaXferCnt + 1 = (s.txSdmaXfer ++ [_]).length
      rw [hlength, h.cnt]
    · change (s.txSdmaXfer ++ [_]).length ≤ num
      rw [hlength]
      exact hless
  · have heq : s.txSdmaXfer.length = num := Nat.le_antisymm h.built (Nat.not_lt.mp hless)
    refine ⟨.submitting { h with
      xferCnt := h.cnt
      packetCnt := h.cnt
      ne := ?_
      max := heq ▸ h.max
      active := (filter_eq_singleton h.active hi rfl).2.1 _ }, h.busy⟩
    exact ne_nil_of_length_pos (heq ▸ h.pos)

/-- The list is given to `IPC_4GHIF_submit_ul`, which refuses it or enters its loop. -/
theorem submit (h : Submitting s pni) (hi : s.runs[i]? = some (.submit pni))
    (hact : s.ipc.act (.submitUl s.txSdmaPacket) = some ipc) :
    Phase { s with ipc := ipc, runs := s.runs.set i (.submitted pni) }.settle := by
  have hpacket : s.txSdmaPacket = s.txSdmaXfer.map Xfer.sdma := by
    rw [txSdmaPacket, h.packetCnt, take_length]
  have hset := (filter_eq_singleton h.active hi rfl).2.1 (.submitted pni)
  rcases Ghif.State.act_submitUl hact with ⟨hcall, hipc⟩
  obtain ⟨ul, hul, hchange⟩ : ∃ ul, ipc.ul = ul ∧
      UlChange s.ipc.bApReady s.ipc.ul (.submitUl s.txSdmaPacket) ul := by
    rw [hipc]
    exact ⟨_, rfl, Ghif.Uplink.submitUl_change hcall⟩
  cases hchange with
  | refused status _ hstatus =>
    rw [h.flag] at hstatus
    have hidle : ipc.ul.call = .idle := by rw [hul]; rfl
    have hresult : ipc.ul.result = some (status, 0) := by rw [hul]; rfl
    rcases settle_of_idle (s := { s with ipc := ipc, runs := s.runs.set i (.submitted pni) })
      hset hidle hresult with ⟨runs, hsettle, hruns⟩
    rw [hsettle]
    refine .refused (n := pni) { h with
      done := by rw [hul]; exact h.done
      call := hidle
      flag := ?_
      active := hruns.trans ?_
      refuses := hstatus }
    · rw [hul]
      exact h.flag
    · cases status with
      | ok => cases hstatus
      | _ => rfl
  | entered hready _ hbusy hpackets =>
    have hne : ipc.ul.call ≠ .idle := by rw [hul]; exact nofun
    rw [settle_of_call hne]
    refine .called (n := pni) { h with done := ?_, active := hset, call := hne, packets := ?_ }
    · rw [hul]
      exact h.done
    · rw [hul]
      exact hpacket

theorem callStep (hs : Ghif.system.Reachable s.ipc) (h : Called s pni)
    (hact : s.ipc.act .submitUlStep = some ipc) : Phase { s with ipc := ipc }.settle := by
  rcases Ghif.State.act_submitUlStep hact with ⟨hcall, ul, hstep, rfl⟩
  have hdone := h.accepted_take
  have hchange : UlChange s.ipc.bApReady s.ipc.ul .submitUlStep ul ∨ ul = s.ipc.ul :=
    Ghif.Uplink.submitUlStep_change hcall hstep
  rcases hchange with hchange | rfl
  · cases callStep (Ghif.ulInv_of_reachable hs) hcall ((hdone _).trans h.done) hchange with
    | goes hcall' hpackets _ haccepted =>
      rw [settle_of_call hcall']
      exact .called (n := pni) { h with
        done := (hdone _).symm.trans haccepted
        call := hcall'
        packets := hpackets.trans h.packets }
    | @ends status nb hcall' hresult hend haccepted =>
      rcases settle_of_idle (s := { s with ipc := { s.ipc with ul := ul } }) h.active hcall'
        hresult with ⟨runs, hsettle, hruns⟩
      rw [hsettle]
      rw [h.packets] at hend
      generalize hflag : ul.bSdmaUlTransferOnGoing = flag at hend
      cases hend with
      | all =>
        rw [length_map, ← h.packetCnt] at haccepted
        exact .transferring (n := pni) { h with
          done := (hdone _).symm.trans haccepted
          call := hcall'
          flag := hflag
          active := hruns
          pos := h.packetCnt ▸ length_pos_iff.mpr h.ne
          le := h.packetCnt.le }
      | some hpos hlt =>
        rw [length_map] at hlt
        exact .full (n := pni) { h with
          done := (hdone nb).symm.trans haccepted
          call := hcall'
          flag := hflag.trans (decide_eq_true hpos).symm
          active := hruns
          lt := hlt }
      | none hne =>
        exact .full (n := pni) { h with
          done := (hdone 0).symm.trans haccepted
          call := hcall'
          flag := hflag
          active := hruns
          lt := length_pos_iff.mpr h.ne }
  · rw [settle_of_call hcall]
    exact .called h

/-- A list that is refused is dropped. -/
theorem dropped (h : Refused s pni status) (hi : s.runs[i]? = some (.returned pni status 0)) :
    Phase { s.handleStatus pni status 0 with runs := s.runs.eraseIdx i } := by
  have hstatus := h.refuses
  have hdone : !(TxRun.returned pni status 0).done ∧ s.handleStatus pni status 0 =
      ((removePackets pni .dropped s.txSdmaXferCnt s).zeroTxArrays).setTxBusy pni false := by
    cases status with
    | ok | resourcesFull | busy => cases hstatus
    | _ => exact ⟨rfl, rfl⟩
  rcases removePackets_spec pni .dropped nofun s.txSdmaXferCnt s with ⟨f, hf, -⟩
  rw [hdone.2, hf]
  refine .idle rfl (filter_eq_singleton h.active hi hdone.1).2.2 { h.toQuiet with } ?_
  have hcompleted := h.done
  rwa [take_zero, append_nil] at hcompleted

/-- Only the first packets of a list were accepted, or none. -/
theorem throttled {nb : Nat} (h : Full s pni nb)
    (hi : s.runs[i]? = some (.returned pni .resourcesFull nb)) :
    Phase { s.handleStatus pni .resourcesFull nb with runs := s.runs.eraseIdx i } := by
  have hruns := (filter_eq_singleton h.active hi rfl).2.2
  have hless : nb < s.txSdmaPacketCnt := by
    rw [h.packetCnt]
    exact h.lt
  unfold handleStatus
  simp only [if_pos hless]
  by_cases hzero : nb = 0
  · subst hzero
    rw [if_pos rfl]
    refine .idle rfl hruns { h.toQuiet with } ?_
    have hcompleted := h.done
    rwa [take_zero, append_nil] at hcompleted
  · rw [if_neg hzero]
    exact .transferring (n := pni) { h with
      flag := h.flag.trans (decide_eq_true hzero)
      active := hruns
      pos := Nat.pos_of_ne_zero hzero
      le := h.lt.le }

end Phase

/-- What a run of `lte_dd_sdma_tx` does next. -/
inductive RunStep (s : State) (i : Nat) : State → Prop where
  | ended (hactive : ({ s with runs := s.runs.eraseIdx i } : State).active = s.active) :
      RunStep s i { s with runs := s.runs.eraseIdx i }
  | build {pni : Ni} {num} (h : Building s pni num)
      (hi : s.runs[i]? = some (.build pni num)) : RunStep s i (s.buildStep i pni num)
  | submit {pni : Ni} {ipc : Ghif.State} (h : Submitting s pni)
      (hi : s.runs[i]? = some (.submit pni))
      (hact : s.ipc.act (.submitUl s.txSdmaPacket) = some ipc) :
      RunStep s i ({ s with ipc := ipc, runs := s.runs.set i (.submitted pni) } : State).settle
  | dropped {pni : Ni} {status : Status} (h : Refused s pni status)
      (hi : s.runs[i]? = some (.returned pni status 0)) :
      RunStep s i { s.handleStatus pni status 0 with runs := s.runs.eraseIdx i }
  | throttled {pni : Ni} {nb} (h : Full s pni nb)
      (hi : s.runs[i]? = some (.returned pni .resourcesFull nb)) :
      RunStep s i { s.handleStatus pni .resourcesFull nb with runs := s.runs.eraseIdx i }

theorem Phase.runStep {r : TxRun} (h : Phase s) (hi : s.runs[i]? = some r)
    (hstep : s.txStep i r = some s') : RunStep s i s' := by
  by_cases hdone : r.done = true
  · -- the status was OK: the rest of the run does nothing
    cases r with
    | returned pni status nb =>
      cases status with
      | ok =>
        cases hstep
        exact .ended (filter_eraseIdx hi rfl)
      | _ => cases hdone
    | _ => cases hdone
  · have hkind : (!r.done) = true := by
      rw [eq_false_of_not_eq_true hdone]
      rfl
    have hmem : r ∈ s.active := mem_filter.mpr ⟨mem_of_getElem? hi, hkind⟩
    cases h with
    | idle _ hactive =>
      rw [hactive] at hmem
      cases hmem
    | transferring h =>
      rw [h.active] at hmem
      cases hmem
    | building h =>
      rcases (filter_eq_singleton h.active hi hkind).1 with rfl
      cases hstep
      exact .build h hi
    | submitting h =>
      rcases (filter_eq_singleton h.active hi hkind).1 with rfl
      rcases map_eq_some_iff.mp hstep with ⟨ipc, hact, rfl⟩
      exact .submit h hi hact
    | called h =>
      rcases (filter_eq_singleton h.active hi hkind).1 with rfl
      cases hstep
    | refused h =>
      rcases (filter_eq_singleton h.active hi hkind).1 with rfl
      cases hstep
      exact .dropped h hi
    | full h =>
      rcases (filter_eq_singleton h.active hi hkind).1 with rfl
      cases hstep
      exact .throttled h hi

/-! ## Completion -/

theorem Listed.take {n : Nat} (h : Listed s pni k) (hle : n ≤ s.txSdmaXfer.length) :
    s.txSdmaXfer.take n = ((s.fifo pni).contents.take n).map (Xfer.mk pni) := by
  rw [h.xfer, ← map_take, take_take, min_eq_left hle]

theorem State.ulCompleteCb_spec (h : Listed s pni k) (hpos : 0 < s.txSdmaPacketCnt)
    (hle : s.txSdmaPacketCnt ≤ s.txSdmaXfer.length) : ∃ f,
      s.ulCompleteCb = { (s.handBack pni f .completed
          ((s.fifo pni).contents.take s.txSdmaPacketCnt)).zeroTxArrays.setTxBusy pni false with
        scheduled := s.scheduled + 1 } ∧
      f.contents = (s.fifo pni).contents.drop s.txSdmaPacketCnt := by
  have hlast : ∃ pskb, (s.txSdmaXfer.take s.txSdmaPacketCnt).getLast? = some ⟨pni, pskb⟩ := by
    rw [h.take hle, getLast?_map]
    cases hlast : ((s.fifo pni).contents.take s.txSdmaPacketCnt).getLast? with
    | none =>
      have hnil := congrArg length (getLast?_eq_none_iff.mp hlast)
      rw [length_take, length_nil] at hnil
      have hlength := h.length_le
      omega
    | some pskb => exact ⟨pskb, rfl⟩
  rcases hlast with ⟨pskb, hlast⟩
  rcases completeXfer_spec pni s.txSdmaPacketCnt s with ⟨f, hf, hcontents⟩
  rw [← h.take hle] at hf
  refine ⟨f, ?_, hcontents⟩
  unfold ulCompleteCb
  rw [h.busy]
  simp only [Bool.not_true, Bool.false_eq_true, if_false, hlast, hf]
  rfl

/-- The transfer is complete: the device is idle. -/
theorem Phase.ulComplete (h : Transferring s pni) (hact : s.ipc.act .ulComplete = some ipc) :
    Phase { s with ipc := ipc }.ulCompleteCb := by
  rcases Ghif.State.act_ulComplete hact with ⟨-, rfl⟩
  have hlisted :
      Listed { s with ipc := { s.ipc with ul := s.ipc.ul.ulCompleteTaskletFunction } } pni
      s.txSdmaPacketCnt := { h with }
  rcases ulCompleteCb_spec hlisted h.pos h.le with ⟨f, hcb, -⟩
  rw [hcb]
  refine .idle rfl h.active ⟨h.call, rfl⟩ ?_
  have hdone := h.done
  rwa [h.take h.le] at hdone

/-! ## The system below -/

namespace State

/-- Neither what is below nor the history of completed packets is changed. -/
def SameBelow (s s' : State) : Prop := s'.ipc = s.ipc ∧ s'.completed = s.completed

theorem SameBelow.refl (s : State) : SameBelow s s := ⟨rfl, rfl⟩

theorem sameBelow_settle (s : State) : SameBelow s s.settle := by
  unfold settle
  split_ifs
  · exact ⟨rfl, rfl⟩
  · exact .refl s

theorem sameBelow_removePackets (pni : Ni) (why : Release) (hwhy : why ≠ .completed) (k : Nat)
    (s : State) : SameBelow s (removePackets pni why k s) := by
  rcases removePackets_spec pni why hwhy k s with ⟨f, hf, -⟩
  rw [hf]
  exact ⟨rfl, if_neg hwhy⟩

theorem sameBelow_handleStatus (s : State) (pni : Ni) (status : Status) (nb : Nat) :
    SameBelow s (s.handleStatus pni status nb) := by
  cases status with
  | ok | busy => exact .refl s
  | resourcesFull =>
    unfold handleStatus
    split_ifs <;> exact ⟨rfl, rfl⟩
  | _ => exact sameBelow_removePackets pni .dropped nofun s.txSdmaXferCnt s

theorem ulCompleteCb_ipc (s : State) : s.ulCompleteCb.ipc = s.ipc := by
  have hstep (t : State) (x) : (t.completeXfer x).ipc = t.ipc := by
    unfold completeXfer release
    split
    · split_ifs <;> rfl
    · rfl
  unfold ulCompleteCb
  split_ifs
  · rfl
  · have hfold := foldlRecOn (motive := fun t => t.ipc = s.ipc)
      (s.txSdmaXfer.take s.txSdmaPacketCnt) _ rfl fun t ht x _ => (hstep t x).trans ht
    cases hlast : (s.txSdmaXfer.take s.txSdmaPacketCnt).getLast? with
    | none | some x =>
      simp only [hlast]
      exact hfold

/-- What a step does. -/
inductive Does (s : State) : Label → State → Prop where
  | enqueue (pni : Ni) (pskb : Skb) : Does s (.enqueue pni pskb) (s.txDataStart pni pskb)
  | flush (pni : Ni) : Does s (.flush pni) (s.busControlFlush pni)
  | drain (pni : Ni) : Does s (.drain pni) (s.busControlTxDrain pni)
  | create : Does s .create s.createNetIface
  | delete (pni : Ni) : Does s (.delete pni) (s.deleteNetIface pni)
  | multiPacket (b : Bool) : Does s (.multiPacket b) { s with multiPacket := b }
  | sdmaTx : Does s .sdmaTx { s with scheduled := s.scheduled - 1 }.sdmaTx
  | run {i : Nat} {r} {s' : State} (hi : s.runs[i]? = some r)
      (hstep : s.txStep i r = some s') : Does s (.run i) s'
  | ulComplete {ipc : Ghif.State} (hact : s.ipc.act .ulComplete = some ipc) :
      Does s .ulComplete { s with ipc := ipc }.ulCompleteCb
  | ulResume {ipc : Ghif.State} (hact : s.ipc.act .ulResume = some ipc) :
      Does s .ulResume { s with ipc := ipc }.ulResumeCb
  | ipc {e} {ipc : Ghif.State} (hinternal : ipcInternal e = true)
      (hact : s.ipc.act e = some ipc) : Does s (.ipc e) { s with ipc := ipc }.settle

theorem exec_does {l : Label} (h : s.exec l = some s') : Does s l s' := by
  cases l with
  | enqueue | flush | drain | create | delete | multiPacket =>
    cases h
    constructor
  | sdmaTx =>
    simp only [exec] at h
    split_ifs at h
    cases h
    exact .sdmaTx
  | run i =>
    simp only [exec] at h
    cases hi : s.runs[i]? with
    | none =>
      rw [hi] at h
      cases h
    | some r =>
      rw [hi] at h
      exact .run hi h
  | ulComplete | ulResume =>
    rcases map_eq_some_iff.mp h with ⟨ipc, hact, rfl⟩
    constructor
    exact hact
  | ipc e =>
    simp only [exec] at h
    split_ifs at h with hinternal
    rcases map_eq_some_iff.mp h with ⟨ipc, hact, rfl⟩
    exact .ipc hinternal hact

/-- What a step does below: at most one event. -/
inductive Below (s s' : State) : Prop where
  | same (h : SameBelow s s')
  | event (e : Event) (hact : s.ipc.act e = some s'.ipc)
      (hcompleted : e = .ulComplete ∨ s'.completed = s.completed)

/-- A step of the data driver is at most one event below. -/
theorem exec_below {l : Label} (h : s.exec l = some s') : Below s s' := by
  cases exec_does h with
  | multiPacket => exact .same ⟨rfl, rfl⟩
  | enqueue | drain | create | sdmaTx =>
    refine .same ?_
    dsimp only [txDataStart, busControlTxDrain, createNetIface, sdmaTx]
    repeat' split
    all_goals exact ⟨rfl, rfl⟩
  | flush pni =>
    refine .same ?_
    unfold busControlFlush
    split_ifs
    · exact sameBelow_removePackets pni .flushed nofun 65 s
    · exact .refl s
  | delete pni =>
    refine .same ?_
    unfold deleteNetIface
    split_ifs
    · exact .refl s
    · exact .refl s
    · exact .refl s
    · exact sameBelow_removePackets pni .flushed nofun 65 s
  | @run i r s' hi hstep =>
    cases r with
    | build pni num =>
      cases hstep
      refine .same ?_
      unfold buildStep
      repeat' split
      all_goals exact ⟨rfl, rfl⟩
    | submit pni =>
      rcases map_eq_some_iff.mp hstep with ⟨ipc, hact, rfl⟩
      have hsame := sameBelow_settle { s with ipc := ipc, runs := s.runs.set i (.submitted pni) }
      refine .event (.submitUl s.txSdmaPacket) ?_ (.inr hsame.2)
      rw [hsame.1]
      exact hact
    | submitted pni => cases hstep
    | returned pni status nb =>
      cases hstep
      exact .same (sameBelow_handleStatus s pni status nb)
  | ulComplete hact =>
    refine .event .ulComplete ?_ (.inl rfl)
    rw [ulCompleteCb_ipc]
    exact hact
  | ulResume hact => exact .event .ulResume hact (.inr rfl)
  | @ipc e ipc hinternal hact =>
    have hsame := sameBelow_settle { s with ipc := ipc }
    refine .event e ?_ (.inr hsame.2)
    rw [hsame.1]
    exact hact

end State

/-- Below a run of the data driver there is a run of the 4GHIF driver and the BP. -/
theorem ipc_reachable {guard : State → Label → Prop} (hs : system.ReachableUnder guard s) :
    Ghif.system.Reachable s.ipc := by
  induction hs with
  | init h =>
    cases h
    exact .start rfl
  | step _ _ hstep ih =>
    cases exec_below hstep with
    | same hsame =>
      rw [hsame.1]
      exact ih
    | event e hact => exact ih.next hact

end LteModemKernel.DataDriver
