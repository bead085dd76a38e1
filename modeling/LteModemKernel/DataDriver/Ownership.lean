import LteModemKernel.DataDriver.Transfer

/-!
# Ownership of the uplink packets

A packet that the network driver hands over belongs to the data driver until it is released:
completed after its transfer, freed by a flush, or dropped when the 4GHIF driver refuses the list
it is in.

The first part is an abstract model of the packets of all interfaces.  The second part shows that
each step of the data driver is a step of that model, as long as no interface is flushed while it
is busy and no transfer completes before the status of `IPC_4GHIF_submit_ul` is handled.

Main results:

- Theorem `Queues.Owned.step`: a step of the abstract model releases packets only from the
  front of a queue.
- Theorem `Phase.change`: the data driver refines the abstract model.
- Theorem `packets_owned`: every packet is released once, in the order of the queue, and the
  list in transfer is the front of a queue.
- Theorem `packets_dropped`: a packet can be released without transfer or flush.
-/

namespace LteModemKernel.DataDriver

open Lib Function List Option Finset TransitionSystem State
open Ghif (SdmaPacket Status Event Uplink UlCall UlChange UlInv)

variable {s : State} {why : Release}

/-! ## The abstract model -/

/-- The packets of a number of interfaces, with what has become of them. -/
structure Queues (ι α : Type) where
  created : ι → Bool
  cnt : Nat
  queue : ι → List α
  enqueued : ι → List α
  released : ι → List (Release × α)
  completed : List (ι × α)

namespace Queues

variable {ι α : Type} [DecidableEq ι] {keep : ι} {q q' : Queues ι α}

/-- What can happen to the packets; one of the interfaces is never deleted. -/
inductive Step (keep : ι) (q : Queues ι α) : Queues ι α → Prop where
  | same : Step keep q q
  | enqueue (i : ι) (a : α) (hcreated : q.created i = true) : Step keep q { q with
      queue := update q.queue i (q.queue i ++ [a])
      enqueued := update q.enqueued i (q.enqueued i ++ [a]) }
  | release (i : ι) (why : Release) (n : Nat) (hwhy : why ≠ .completed) : Step keep q { q with
      queue := update q.queue i ((q.queue i).drop n)
      released := update q.released i
        (q.released i ++ ((q.queue i).take n).map (why, ·)) }
  | complete (i : ι) (n : Nat) : Step keep q { q with
      queue := update q.queue i ((q.queue i).drop n)
      released := update q.released i
        (q.released i ++ ((q.queue i).take n).map (Release.completed, ·))
      completed := q.completed ++ ((q.queue i).take n).map (i, ·) }
  | create (i : ι) (hcreated : q.created i = false) : Step keep q { q with
      created := update q.created i true
      cnt := q.cnt + 1
      queue := update q.queue i [] }
  | delete (i : ι) (hi : i ≠ keep) (hcreated : q.created i = true) : Step keep q { q with
      created := update q.created i false
      cnt := q.cnt - 1
      queue := update q.queue i []
      released := update q.released i
        (q.released i ++ (q.queue i).map (Release.flushed, ·)) }

/-- The interface that is never deleted stays. -/
theorem Step.created (hstep : Step keep q q') (h : q.created keep = true) :
    q'.created keep = true := by
  cases hstep with
  | same | enqueue | release | complete => exact h
  | create i =>
    by_cases hk : keep = i
    · subst hk
      exact update_self ..
    · simp only [update_of_ne hk]
      exact h
  | delete i hi =>
    simp only [update_of_ne (Ne.symm hi)]
    exact h

/-- The packets of an interface that were completed. -/
def done (q : Queues ι α) (i : ι) : List α :=
  ((q.released i).filter fun r => r.1 = .completed).map Prod.snd

/-- The packets with one mark, when packets with some mark are added. -/
theorem filter_mark {β : Type} [DecidableEq β] (marked : List (β × α)) (b c : β) (as : List α) :
    (((marked ++ as.map (b, ·)).filter fun r => r.1 = c).map Prod.snd) =
      ((marked.filter fun r => r.1 = c).map Prod.snd) ++ if b = c then as else [] := by
  rw [filter_append, map_append]
  congr 1
  split_ifs with hbc
  · rw [List.filter_eq_self.mpr, List.map_map]
    · exact map_id as
    · intro r hr
      rcases mem_map.mp hr with ⟨a, -, rfl⟩
      exact decide_eq_true hbc
  · rw [filter_eq_nil_iff.mpr, map_nil]
    intro r hr
    rcases mem_map.mp hr with ⟨a, -, rfl⟩
    exact fun h => hbc (of_decide_eq_true h)

/-- Packets that are not completed do not count as such. -/
theorem done_update (hwhy : why ≠ .completed) (i : ι) (as : List α) (k : ι) :
    ((update q.released i (q.released i ++ as.map (why, ·)) k).filter
      fun r => r.1 = .completed).map Prod.snd = q.done k := by
  by_cases hk : k = i
  · subst hk
    rw [update_self, filter_mark, if_neg hwhy, append_nil]
    rfl
  · rw [update_of_ne hk]
    rfl

variable [Fintype ι]

/-- Every packet is released or waits in its queue. -/
structure Owned (q : Queues ι α) : Prop where
  cnt : q.cnt = (univ.filter fun i => q.created i = true).card
  once : ∀ i, (q.released i).map Prod.snd ++ q.queue i = q.enqueued i
  empty : ∀ i, q.created i = false → q.queue i = []
  done : ∀ i, q.done i = (q.completed.filter fun x => x.1 = i).map Prod.snd

/-- Each interface has enqueued the packets that are completed, and the next of one queue, in
this order. -/
theorem Owned.sublist_enqueued (h : Owned q) {i : ι} {as : List α} (has : as.Sublist (q.queue i))
    (k : ι) : (((q.completed ++ as.map (i, ·)).filter fun x => x.1 = k).map Prod.snd).Sublist
      (q.enqueued k) := by
  rw [filter_mark, ← h.once k, ← h.done k]
  refine (filter_sublist.map _).append ?_
  split_ifs with hik
  · subst hik
    exact has
  · exact nil_sublist _

/-- Packets at the front of a queue are released. -/
theorem Owned.front (h : Owned q) (i : ι) (why : Release) (n : Nat) :
    (q.released i ++ ((q.queue i).take n).map (why, ·)).map Prod.snd ++ (q.queue i).drop n =
      q.enqueued i := by
  have hsnd : ((q.queue i).take n).map (Prod.snd ∘ (why, ·)) = (q.queue i).take n := List.map_id _
  rw [List.map_append, List.map_map, hsnd, List.append_assoc, List.take_append_drop, h.once]

theorem Owned.once_front (h : Owned q) (i : ι) (why : Release) (n : Nat) (k : ι) :
    (update q.released i (q.released i ++ ((q.queue i).take n).map (why, ·)) k).map Prod.snd ++
      update q.queue i ((q.queue i).drop n) k = q.enqueued k := by
  by_cases hk : k = i
  · subst hk
    simp only [update_self]
    exact h.front k why n
  · simp only [update_of_ne hk]
    exact h.once k

theorem Owned.empty_front (h : Owned q) (i : ι) (n : Nat) (k : ι) (hfree : q.created k = false) :
    update q.queue i ((q.queue i).drop n) k = [] := by
  by_cases hk : k = i
  · subst hk
    rw [update_self, h.empty k hfree, drop_nil]
  · rw [update_of_ne hk, h.empty k hfree]

theorem filter_update_true (created : ι → Bool) (i : ι) :
    (univ.filter fun k => update created i true k = true) =
      insert i (univ.filter fun k => created k = true) := by
  ext k
  by_cases hk : k = i <;> simp [hk]

theorem filter_update_false (created : ι → Bool) (i : ι) :
    (univ.filter fun k => update created i false k = true) =
      (univ.filter fun k => created k = true).erase i := by
  ext k
  by_cases hk : k = i <;> simp [hk]

/-- Every packet is released or waits in its queue, after each step. -/
theorem Owned.step (h : Owned q) (hstep : Step keep q q') : Owned q' := by
  cases hstep with
  | same => exact h
  | enqueue i a hcreated =>
    refine ⟨h.cnt, ?_, ?_, h.done⟩
    · intro k
      by_cases hk : k = i
      · subst hk
        simp only [update_self]
        rw [← append_assoc, h.once k]
      · simp only [update_of_ne hk]
        exact h.once k
    · intro k hfree
      have hk : k ≠ i := by
        rintro rfl
        exact Bool.false_ne_true (hfree.symm.trans hcreated)
      simp only [update_of_ne hk]
      exact h.empty k hfree
  | release i why n hwhy =>
    exact ⟨h.cnt, h.once_front i why n, h.empty_front i n,
      fun k => (done_update hwhy i _ k).trans (h.done k)⟩
  | complete i n =>
    refine ⟨h.cnt, h.once_front i .completed n, h.empty_front i n, ?_⟩
    intro k
    rw [filter_mark, ← h.done k]
    by_cases hk : k = i
    · subst hk
      rw [if_pos rfl]
      simp only [Queues.done, update_self]
      rw [filter_mark, if_pos rfl]
    · simp only [Queues.done, update_of_ne hk]
      rw [if_neg (Ne.symm hk), append_nil]
  | create i hcreated =>
    refine ⟨?_, ?_, ?_, h.done⟩
    · rw [filter_update_true, card_insert_of_notMem, h.cnt]
      simp [hcreated]
    · intro k
      by_cases hk : k = i
      · subst hk
        simp only [update_self]
        rw [← h.once k, h.empty k hcreated]
      · simp only [update_of_ne hk]
        exact h.once k
    · intro k hfree
      have hk : k ≠ i := by
        rintro rfl
        simp only [update_self] at hfree
        cases hfree
      simp only [update_of_ne hk] at hfree ⊢
      exact h.empty k hfree
  | delete i hi hcreated =>
    have hfront := h.once_front i .flushed (q.queue i).length
    rw [take_length, drop_length] at hfront
    refine ⟨?_, hfront, ?_, fun k => (done_update Release.noConfusion i _ k).trans (h.done k)⟩
    · rw [filter_update_false, card_erase_of_mem, h.cnt]
      exact mem_filter.mpr ⟨mem_univ i, hcreated⟩
    · intro k hfree
      by_cases hk : k = i
      · subst hk
        simp
      · simp only [update_of_ne hk] at hfree ⊢
        exact h.empty k hfree

end Queues

/-! ## The packets of the data driver -/

namespace State

/-- The packets of the data driver. -/
def queues (s : State) : Queues Ni Skb where
  created pni := (s.niInterfaces pni).created
  cnt := s.niInterfacesCnt
  queue pni := (s.fifo pni).contents
  enqueued := s.enqueued
  released := s.released
  completed := s.completed.map fun x => (x.pni, x.pskb)

/-- An entry of the table of interfaces is set. -/
theorem queues_update (s : State) (pni : Ni) (info : NetInfo) (cnt : Nat) :
    ({ s with niInterfaces := update s.niInterfaces pni info,
              niInterfacesCnt := cnt } : State).queues =
      { s.queues with
        created := update s.queues.created pni info.created
        cnt := cnt
        queue := update s.queues.queue pni info.hTxDataFifo.contents } := by
  unfold queues
  congr 1
  · exact comp_update NetInfo.created _ _ _
  · exact comp_update (fun info : NetInfo => info.hTxDataFifo.contents) _ _ _

theorem queues_setFifo (s : State) (pni : Ni) (f : TxFifo) : (s.setFifo pni f).queues =
    { s.queues with queue := update s.queues.queue pni f.contents } := by
  refine (queues_update s pni _ _).trans ?_
  simp [queues, update_eq_self]

theorem queues_setTxBusy (s : State) (pni : Ni) (b : Bool) :
    (s.setTxBusy pni b).queues = s.queues := by
  refine (queues_update s pni _ s.niInterfacesCnt).trans ?_
  simp [queues, fifo, update_eq_self]

theorem queues_settle (s : State) : s.settle.queues = s.queues := by
  unfold settle
  split_ifs <;> rfl

/-- The front of a FIFO is handed back. -/
theorem queues_handBack (s : State) (pni : Ni) (f : TxFifo) (why : Release) (pskbs : List Skb) :
    (s.handBack pni f why pskbs).queues = { s.queues with
      queue := update s.queues.queue pni f.contents
      released := update s.queues.released pni (s.queues.released pni ++ pskbs.map (why, ·))
      completed := if why = .completed then s.queues.completed ++ pskbs.map (pni, ·)
        else s.queues.completed } := by
  have hcompleted : (s.handBack pni f why pskbs).queues.completed =
      if why = .completed then s.queues.completed ++ pskbs.map (pni, ·)
      else s.queues.completed := by
    simp only [queues, handBack]
    split_ifs <;> simp
  rw [← hcompleted]
  exact congrArg (fun q : Queues Ni Skb => { q with
    released := update s.released pni (s.released pni ++ pskbs.map (why, ·))
    completed := (s.handBack pni f why pskbs).queues.completed }) (queues_setFifo s pni f)

theorem queues_removePackets (pni : Ni) (hwhy : why ≠ .completed) (k : Nat) (s : State) :
    (removePackets pni why k s).queues = { s.queues with
      queue := update s.queues.queue pni ((s.queues.queue pni).drop k)
      released := update s.queues.released pni
        (s.queues.released pni ++ ((s.queues.queue pni).take k).map (why, ·)) } := by
  rcases removePackets_spec pni why hwhy k s with ⟨f, hf, hcontents⟩
  rw [hf, queues_handBack, hcontents, if_neg hwhy]
  rfl

theorem queues_txDataStart (s : State) (pni : Ni) (pskb : Skb) :
    Queues.Step 0 s.queues (s.txDataStart pni pskb).queues := by
  unfold txDataStart
  cases hcreated : (s.niInterfaces pni).created with
  | false => exact .same
  | true =>
    cases hinsert : (s.fifo pni).insert pskb with
    | none => exact .same
    | some f =>
      have hqueues := queues_setFifo s pni f
      rw [PtrFifo.insert_contents hinsert] at hqueues
      have hstep : Queues.Step 0 s.queues _ := .enqueue pni pskb hcreated
      convert hstep using 1
      exact congrArg (fun q : Queues Ni Skb => { q with
        enqueued := update s.enqueued pni (s.enqueued pni ++ [pskb]) }) hqueues

theorem queues_busControlFlush (s : State) (pni : Ni) :
    Queues.Step 0 s.queues (s.busControlFlush pni).queues := by
  unfold busControlFlush
  split_ifs
  · unfold flushTxDataFifo
    rw [queues_removePackets pni Release.noConfusion]
    exact .release pni .flushed 65 Release.noConfusion
  · exact .same

theorem queues_createNetIface (s : State) : Queues.Step 0 s.queues s.createNetIface.queues := by
  unfold createNetIface
  cases halloc : s.niInterfaceAlloc with
  | none => exact .same
  | some pni =>
    have hfree : (s.niInterfaces pni).created = false := by
      have hfound := find?_some halloc
      rwa [Bool.not_eq_true'] at hfound
    rw [queues_update]
    exact .create pni hfree

theorem queues_deleteNetIface (s : State) (pni : Ni) :
    Queues.Step 0 s.queues (s.deleteNetIface pni).queues := by
  unfold deleteNetIface
  split_ifs with hpersistent hcreated
  · exact .same
  · exact .same
  · exact .same
  · rw [queues_update]
    unfold flushTxDataFifo
    rw [queues_removePackets pni Release.noConfusion]
    have hstep : Queues.Step 0 s.queues _ := .delete pni hpersistent (by
      rwa [Bool.not_eq_true', Bool.not_eq_false] at hcreated)
    have hlength : (s.queues.queue pni).length ≤ 65 := by
      change (s.fifo pni).contents.length ≤ 65
      rw [PtrFifo.length_contents, (s.fifo pni).count]
      exact ((s.fifo pni).tail - (s.fifo pni).head).isLt.le
    have hcnt : (removePackets pni .flushed 65 s).niInterfacesCnt = s.niInterfacesCnt :=
      congrArg Queues.cnt (queues_removePackets pni Release.noConfusion 65 s)
    convert hstep using 1
    simp only [update_idem]
    rw [take_of_length_le hlength, hcnt]
    rfl

theorem queues_sdmaTx (s : State) : s.sdmaTx.queues = s.queues := by
  unfold sdmaTx
  split_ifs
  · rfl
  · rcases s.niInterfaceFifoLookup with ⟨index, _ | ⟨pni, num⟩⟩
    · rfl
    · exact queues_setTxBusy { s with runningIndex := index } pni true

theorem queues_buildStep (s : State) (i : Nat) (pni : Ni) (num : Nat) :
    (s.buildStep i pni num).queues = s.queues := by
  unfold buildStep
  split_ifs
  · cases (s.fifo pni).peekOffset s.txSdmaXfer.length with
    | some pskb => rfl
    | none =>
      cases s.txSdmaXfer.getLast? with
      | some last => rfl
      | none => exact queues_setTxBusy s pni false
  · rfl

theorem queues_handleStatus (s : State) (pni : Ni) (status : Status) (nb : Nat) :
    Queues.Step 0 s.queues (s.handleStatus pni status nb).queues := by
  have hdrop : Queues.Step 0 s.queues
      (((removePackets pni .dropped s.txSdmaXferCnt s).zeroTxArrays).setTxBusy
        pni false).queues := by
    rw [queues_setTxBusy]
    change Queues.Step 0 s.queues (removePackets pni .dropped s.txSdmaXferCnt s).queues
    rw [queues_removePackets pni Release.noConfusion]
    exact .release pni .dropped _ Release.noConfusion
  cases status with
  | ok | busy => exact .same
  | resourcesFull =>
    have hsame : (s.handleStatus pni .resourcesFull nb).queues = s.queues := by
      unfold handleStatus
      split_ifs <;> try rw [queues_setTxBusy]
      all_goals rfl
    rw [hsame]
    exact .same
  | _ => exact hdrop

theorem queues_ulCompleteCb {pni : Ni} {k : Nat} (h : Listed s pni k) (hpos : 0 < s.txSdmaPacketCnt)
    (hle : s.txSdmaPacketCnt ≤ s.txSdmaXfer.length) :
    Queues.Step 0 s.queues s.ulCompleteCb.queues := by
  rcases ulCompleteCb_spec h hpos hle with ⟨f, hcb, hcontents⟩
  have hstep : Queues.Step 0 s.queues _ := .complete pni s.txSdmaPacketCnt
  rw [hcb]
  change Queues.Step 0 s.queues (setTxBusy _ pni false).queues
  rw [queues_setTxBusy]
  change Queues.Step 0 s.queues (s.handBack pni f .completed _).queues
  rw [queues_handBack, hcontents]
  exact hstep

end State

/-! ## Refinement -/

/-- When the list in transfer is safe: an interface is not flushed while it is busy, and the
transfer does not complete before `lte_dd_sdma_tx` has handled the status of
`IPC_4GHIF_submit_ul`. -/
def ddGuard (s : State) : Label → Prop
  | .flush pni => (s.niInterfaces pni).txBusy = false
  | .ulComplete => s.active = []
  | _ => True

instance (s : State) (l : Label) : Decidable (ddGuard s l) := by
  cases l <;> unfold ddGuard <;> infer_instance

namespace Phase

variable {s' : State}

/-- A run of `lte_dd_sdma_tx` goes on. -/
theorem run {i : Nat} (h : Phase s) (hstep : RunStep s i s') :
    Phase s' ∧ Queues.Step 0 s.queues s'.queues := by
  cases hstep with
  | ended hactive =>
    exact ⟨h.frame (.of_niInterfaces rfl (Prod.ext rfl (Prod.ext hactive rfl))), .same⟩
  | build hbuilding hi =>
    refine ⟨(buildStep hbuilding hi).1, ?_⟩
    rw [queues_buildStep]
    exact .same
  | submit hsubmitting hi hact =>
    refine ⟨submit hsubmitting hi hact, ?_⟩
    rw [queues_settle]
    exact .same
  | dropped hrefused hi => exact ⟨dropped hrefused hi, queues_handleStatus ..⟩
  | throttled hfull hi => exact ⟨throttled hfull hi, queues_handleStatus ..⟩

/-- An event below is a step of the call, or it leaves the phase as it is. -/
theorem ipcStep {e : Event} {ipc : Ghif.State} (h : Phase s) (hs : Ghif.system.Reachable s.ipc)
    (hinternal : ipcInternal e = true) (hact : s.ipc.act e = some ipc) :
    (e = .submitUlStep ∧ ∃ pni, Called s pni) ∨
      callView ipc.ul = callView s.ipc.ul ∧ Phase { s with ipc := ipc } := by
  by_cases he : e = .submitUlStep
  · subst he
    exact .inl ⟨rfl, h.called_of_call (Ghif.State.act_submitUlStep hact).1⟩
  · have hview := callView_of_internal hs hact hinternal he
    exact .inr ⟨hview, h.frame (.of_niInterfaces rfl (by rw [view, hview]; rfl))⟩

theorem transferring_of_tasklet (h : Phase s) (hs : Ghif.system.Reachable s.ipc)
    (hactive : s.active = []) (htasklet : s.ipc.ul.ulCompleteTasklet = true) :
    ∃ pni, Transferring s pni := by
  have hflag := (Ghif.ulInv_of_reachable hs).flag
  rw [htasklet, Bool.or_true] at hflag
  cases h with
  | idle _ _ hquiet => exact absurd (hquiet.flag.symm.trans hflag) Bool.false_ne_true
  | transferring h => exact ⟨_, h⟩
  | building h | submitting h | called h | refused h | full h => cases hactive.symm.trans h.active

/-- A step that meets the condition leads from phase to phase, and is a step of the abstract
model. -/
theorem change {l : Label} (h : Phase s) (hs : Ghif.system.Reachable s.ipc)
    (h0 : (s.niInterfaces 0).created = true) (hguard : ddGuard s l) (hexec : s.exec l = some s') :
    Phase s' ∧ Queues.Step 0 s.queues s'.queues := by
  cases exec_does hexec with
  | enqueue pni pskb =>
    exact ⟨h.frame (.txDataStart s pni pskb), queues_txDataStart s pni pskb⟩
  | flush pni =>
    exact ⟨h.frame (.busControlFlush hguard), queues_busControlFlush s pni⟩
  | drain pni =>
    refine ⟨h.frame .busControlTxDrain, ?_⟩
    unfold busControlTxDrain
    split_ifs <;> exact .same
  | create => exact ⟨h.frame .createNetIface, queues_createNetIface s⟩
  | delete pni => exact ⟨h.frame .deleteNetIface, queues_deleteNetIface s pni⟩
  | multiPacket b =>
    exact ⟨h.frame (.of_niInterfaces rfl rfl), .same⟩
  | sdmaTx =>
    have hphase : Phase { s with scheduled := s.scheduled - 1 } :=
      h.frame (.of_niInterfaces rfl rfl)
    refine ⟨hphase.sdmaTx h0, ?_⟩
    rw [queues_sdmaTx]
    exact .same
  | run hi hstep => exact h.run (h.runStep hi hstep)
  | ulComplete hact =>
    rcases h.transferring_of_tasklet hs hguard (Ghif.State.act_ulComplete hact).1 with
      ⟨pni, htransferring⟩
    refine ⟨ulComplete htransferring hact, ?_⟩
    rcases Ghif.State.act_ulComplete hact with ⟨-, rfl⟩
    have hlisted' : Listed { s with ipc := { s.ipc with ul :=
        s.ipc.ul.ulCompleteTaskletFunction } } pni s.txSdmaPacketCnt :=
      { htransferring with }
    exact queues_ulCompleteCb hlisted' htransferring.pos htransferring.le
  | ulResume hact =>
    rcases Ghif.State.act_ulResume hact with ⟨-, rfl⟩
    exact ⟨h.frame (.of_niInterfaces rfl rfl), .same⟩
  | ipc hinternal hact =>
    rcases h.ipcStep hs hinternal hact with ⟨rfl, pni, hcalled⟩ | ⟨-, hphase⟩
    · refine ⟨callStep hs hcalled hact, ?_⟩
      rw [queues_settle]
      exact .same
    · rw [hphase.settle]
      exact ⟨hphase, .same⟩

end Phase

/-! ## Runs -/

/-- What holds along every run that meets the condition. -/
structure Sound (s : State) : Prop where
  phase : Phase s
  owned : s.queues.Owned
  lte0 : (s.niInterfaces 0).created = true

theorem sound_init : Sound State.init where
  phase := .idle rfl rfl ⟨rfl, rfl⟩ rfl
  owned := by
    have hempty (pni) : (init.fifo pni).contents = [] := by
      by_cases hpni : pni = 0
      · subst hpni
        rfl
      · simp only [State.fifo, State.init, update_of_ne hpni]
        rfl
    exact ⟨by decide, hempty, fun pni _ => hempty pni, fun _ => rfl⟩
  lte0 := rfl

theorem sound_of_reachable (hs : system.ReachableUnder ddGuard s) : Sound s := by
  refine ReachableUnder.invariant_along (P := Sound) ?_ ?_ hs
  · rintro _ rfl
    exact sound_init
  · intro s l s' hreach h hguard hstep
    rcases h.phase.change (ipc_reachable hreach) h.lte0 hguard hstep with ⟨hphase, hqueues⟩
    exact ⟨hphase, h.owned.step hqueues, hqueues.created h.lte0⟩

/-- The accepted packets are those completed and the next of one interface. -/
theorem Phase.exists_accepted (h : Phase s) : ∃ pni, ∃ as : List Skb,
    as.Sublist (s.fifo pni).contents ∧
      (s.completed ++ as.map (Xfer.mk pni)).map Xfer.sdma = acceptedPackets s.ipc.ul := by
  cases hbusy : s.txBusy with
  | false =>
    refine ⟨0, [], nil_sublist _, ?_⟩
    rw [map_nil, append_nil, (h.idle_of_not_busy hbusy).2.2]
  | true =>
    rcases h.listed hbusy with ⟨pni, k, hlisted⟩
    refine ⟨pni, ((s.fifo pni).contents.take s.txSdmaXfer.length).take k,
      (take_sublist _ _).trans (take_sublist _ _), ?_⟩
    rw [map_take, ← hlisted.xfer, hlisted.done]

theorem Phase.completed_front (h : Phase s) :
    s.completed.map Xfer.sdma <+: acceptedPackets s.ipc.ul := by
  rcases h.exists_accepted with ⟨pni, as, -, hdone⟩
  rw [← hdone, map_append]
  exact prefix_append _ _

theorem Phase.completed_le (h : Phase s) :
    s.completed.length ≤ (acceptedPackets s.ipc.ul).length := by
  have hlength := h.completed_front.length_le
  rwa [length_map] at hlength

theorem Phase.call_packets (h : Phase s) (hcall : s.ipc.ul.call ≠ .idle) :
    callPackets s.ipc.ul.call = s.txSdmaXfer.map Xfer.sdma := by
  rcases h.called_of_call hcall with ⟨pni, hcalled⟩
  exact hcalled.packets

/-- A packet is completed only after its frame was put in `FIFO_UL`. -/
def Transferred (s : State) : Prop :=
  s.completed.length ≤ (Ghif.frames s.ipc.ul.added).length

/-- The frames in `FIFO_UL` become only more. -/
theorem frames_length_le {s s' : Ghif.State} {e : Event} (hs : Ghif.system.Reachable s)
    (hact : s.act e = some s') :
    (Ghif.frames s.ul.added).length ≤ (Ghif.frames s'.ul.added).length := by
  have hchange := (Ghif.ulInv_of_reachable hs).fifoUl_change (Ghif.fresh_of_reachable hs)
    (Ghif.State.act_change hact)
  cases hchange with
  | appended msgs _ hadded =>
    rw [hadded, Ghif.frames_append, length_append]
    exact Nat.le_add_right _ _
  | read _ _ hadded => rw [hadded]

theorem frames_length_of_tasklet {s : Ghif.State} (hs : Ghif.system.Reachable s)
    (htasklet : s.ul.ulCompleteTasklet = true) :
    (Ghif.frames s.ul.added).length = (acceptedPackets s.ul).length := by
  have hinv := Ghif.ulInv_of_reachable hs
  have hflag := hinv.flag
  rw [htasklet, Bool.or_true] at hflag
  have hdma : s.ul.dmaUl = false := by
    by_contra hdma
    have honce := hinv.once (Bool.eq_true_of_not_eq_false hdma)
    exact Bool.false_ne_true (honce.symm.trans htasklet)
  have hcall : s.ul.call = .idle := by
    by_contra hcall
    exact Bool.false_ne_true ((hinv.calm hcall).symm.trans hflag)
  have hpublished := congrArg length (Ghif.custody_of_reachable hs).published
  rw [Uplink.pendingMsgs, hdma, hcall, length_append, length_map] at hpublished
  rw [acceptedPackets, length_map, ← hpublished]
  rfl

theorem transferred_of_reachable (hs : system.ReachableUnder ddGuard s) : Transferred s := by
  refine ReachableUnder.invariant_along (P := Transferred) ?_ ?_ hs
  · rintro _ rfl
    exact Nat.le_refl 0
  · intro s l s' hreach h hguard hstep
    have hghif := ipc_reachable hreach
    cases exec_below hstep with
    | same hsame =>
      unfold Transferred
      rw [hsame.1, hsame.2]
      exact h
    | event e hact hcompleted =>
      have hframes := frames_length_le hghif hact
      rcases hcompleted with rfl | hcompleted
      · -- nothing is accepted that is not in the FIFO, and no more is completed than accepted
        have hlength := frames_length_of_tasklet hghif (Ghif.State.act_ulComplete hact).1
        have hsound := (sound_of_reachable (.step hreach hguard hstep)).phase.completed_le
        rw [(Ghif.State.act_ulComplete hact).2] at hsound
        exact le_trans (hsound.trans hlength.ge) hframes
      · unfold Transferred
        rw [hcompleted]
        exact le_trans h hframes

/-! ## The packets -/

/-- In every run in which no interface is flushed while it is busy and no transfer completes
before the status of `IPC_4GHIF_submit_ul` is handled: every packet of an interface is
released once, in the order of the queue, or waits in its FIFO; the packets completed were
accepted by the 4GHIF driver, in this order, and their frames are in `FIFO_UL`; and while the
device is busy its list is the front of the FIFO of an interface that is busy, and is what a call
of `IPC_4GHIF_submit_ul` is about. -/
theorem packets_owned {s : State} (hs : system.ReachableUnder ddGuard s) :
    (∀ pni, (s.released pni).map Prod.snd ++ (s.fifo pni).contents = s.enqueued pni) ∧
    (∀ pni, ((s.released pni).filter fun r => r.1 = .completed).map Prod.snd =
      (s.completed.filter fun x => x.pni = pni).map Xfer.pskb) ∧
    s.completed.map Xfer.sdma <+: acceptedPackets s.ipc.ul ∧
    s.completed.length ≤ (Ghif.frames s.ipc.ul.added).length ∧
    (s.txBusy = false → s.completed.map Xfer.sdma = acceptedPackets s.ipc.ul) ∧
    (s.txBusy = true → ∃ pni, (s.niInterfaces pni).created = true ∧
      (s.niInterfaces pni).txBusy = true ∧
      s.txSdmaXfer = ((s.fifo pni).contents.take s.txSdmaXfer.length).map (Xfer.mk pni) ∧
      (s.ipc.ul.call ≠ .idle → callPackets s.ipc.ul.call = s.txSdmaXfer.map Xfer.sdma) ∧
      ∃ k, (s.completed ++ s.txSdmaXfer.take k).map Xfer.sdma = acceptedPackets s.ipc.ul) := by
  have hsound := sound_of_reachable hs
  refine ⟨hsound.owned.once, ?_, hsound.phase.completed_front, transferred_of_reachable hs,
    fun hbusy => (hsound.phase.idle_of_not_busy hbusy).2.2, ?_⟩
  · intro pni
    refine (hsound.owned.done pni).trans ?_
    change ((s.completed.map fun x => (x.pni, x.pskb)).filter fun x => x.1 = pni).map Prod.snd = _
    rw [List.filter_map, List.map_map]
    rfl
  · intro hbusy
    rcases hsound.phase.listed hbusy with ⟨pni, k, hlisted⟩
    exact ⟨pni, hlisted.created, hlisted.niBusy, hlisted.xfer, hsound.phase.call_packets,
      k, hlisted.done⟩

theorem exists_observed_under {P : State → Prop} (guard : State → Label → Prop)
    (labels : List Label) (hguard : Guarded exec guard init labels)
    (hrun : ∃ s ∈ runLabels exec init labels, P s) :
    ∃ s, system.ReachableUnder guard s ∧ P s :=
  ReachableUnder.exists_observed labels (.init rfl) ⟨hguard, hrun⟩

/-- The run of `lte_dd_sdma_tx` for one packet, up to the call of
`IPC_4GHIF_submit_ul`. -/
def oneRun (pskb : Skb) : List Label :=
  [.enqueue 0 pskb, .sdmaTx, .run 0, .run 0, .run 0]

/-- The call of `IPC_4GHIF_submit_ul` for one packet, with the return from it. -/
def oneCall : List Label := replicate 4 (.ipc .submitUlStep) ++ [.run 0]

/-- A packet of 100 bytes. -/
def smallSkb : Skb := ⟨1, 1, 100, 5⟩

/-- The packet is transferred and completed. -/
def completeRun : List Label :=
  Ghif.readyRun.map .ipc ++ oneRun smallSkb ++ oneCall ++ [.ipc .sdmaUl, .ulComplete]

theorem packets_owned_transfer : ∃ s : State, s.released 0 = [(.completed, smallSkb)] ∧
    (s.released 0).map Prod.snd ++ (s.fifo 0).contents = s.enqueued 0 := by
  rcases exists_observed_under (P := fun s => s.released 0 = [(.completed, smallSkb)]) ddGuard
    completeRun (by decide +kernel) (by decide +kernel) with ⟨s, hs, hreleased⟩
  exact ⟨s, hreleased, (packets_owned hs).1 0⟩

/-- The 4GHIF driver is not yet open: the packet is neither transferred nor flushed, and is
released. -/
theorem packets_dropped : ∃ s : State, system.ReachableUnder ddGuard s ∧
    s.enqueued 0 = [smallSkb] ∧ s.released 0 = [(.dropped, smallSkb)] ∧ s.completed = [] ∧
    s.ipc.ul.accepted = [] := by
  exact exists_observed_under ddGuard (oneRun smallSkb ++ [.run 0]) (by decide +kernel)
    (by decide +kernel)

/-- In the same runs, the frames that the BP has read from `FIFO_UL` or finds in it are those of
packets of the interfaces, one for each: all that are completed are among them, and each interface
has enqueued its own in this order. -/
theorem packets_published {s : State} (hs : system.ReachableUnder ddGuard s) :
    ∃ (xs : List Xfer) (adrs : List (SdmaPacket × UInt32)),
      Ghif.frames (s.ipc.ul.taken ++ s.ipc.ul.fifoUl.contents) =
        adrs.map (fun pa => pa.1.ulMsg pa.2) ∧
      adrs.map Prod.fst = xs.map Xfer.sdma ∧ s.completed <+: xs ∧
      ∀ pni, ((xs.filter fun x => x.pni = pni).map Xfer.pskb).Sublist (s.enqueued pni) := by
  have hsound := sound_of_reachable hs
  have hghif := ipc_reachable hs
  rcases hsound.phase.exists_accepted with ⟨i, as, has, hdone⟩
  rw [Ghif.fifoUl_history hghif]
  generalize hn : (Ghif.frames s.ipc.ul.added).length = n
  refine ⟨(s.completed ++ as.map (Xfer.mk i)).take n, s.ipc.ul.accepted.take n, ?_, ?_,
    prefix_take_iff.mpr ⟨prefix_append _ _, hn ▸ transferred_of_reachable hs⟩, ?_⟩
  · rw [map_take, ← take_left' hn]
    exact congrArg _ (Ghif.custody_of_reachable hghif).published
  · rw [map_take, map_take, hdone]
    rfl
  · intro pni
    have hsub := hsound.owned.sublist_enqueued has pni
    have hpairs : s.queues.completed ++ as.map (i, ·) =
        (s.completed ++ as.map (Xfer.mk i)).map fun x => (x.pni, x.pskb) := by
      rw [map_append, List.map_map]
      rfl
    rw [hpairs, List.filter_map, List.map_map] at hsub
    exact (((take_sublist n _).filter _).map _).trans hsub

/-- A packet that is completed. -/
theorem packets_published_one : ∃ s : State, s.completed = [⟨0, smallSkb⟩] ∧ ∃ xs : List Xfer,
    s.completed <+: xs ∧
      ((xs.filter fun x => x.pni = 0).map Xfer.pskb).Sublist (s.enqueued 0) := by
  rcases exists_observed_under (P := fun s => s.completed = [⟨0, smallSkb⟩]) ddGuard
    completeRun (by decide +kernel) (by decide +kernel) with ⟨s, hs, hcompleted⟩
  rcases packets_published hs with ⟨xs, -, -, -, hfront, hsub⟩
  exact ⟨s, hcompleted, xs, hfront, hsub 0⟩

end LteModemKernel.DataDriver
