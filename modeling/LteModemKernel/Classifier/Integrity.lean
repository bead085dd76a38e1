import LteModemKernel.Classifier.Operations

/-!
# Integrity of the classifier table

The classifier over whole runs of NAS messages.  A message is admissible if the routine
it reaches meets its condition: a registration finds an otherwise empty default bearer,
an added filter finds a slot, a replaced filter is there and does not get the
precedence of the head, a deleted filter is not one of the default bearer, and a
deleted dedicated bearer is the last one and leaves a filter in the list.

Main results:

- Theorem `Sound.handle`: from a sound state every admissible message is processed
  without an invalid access, and the state after it is sound.
- Theorem `table_integrity`: in every run of admissible messages the list of every PDN
  is finite, doubly linked, sorted and without duplicates, and holds exactly the filters
  in the slots of the live bearers.
-/

namespace LteModemKernel.Classifier

open Lib List Option TransitionSystem Qa PdnClassifier

/-! ## Conditions on the messages -/

/-- The entries met by following the list of a PDN from its head. -/
def Table.nodes (t : Table) : List Ptr :=
  nodesFrom t.mem.heap t.mem.brk t.pdn.classifierTable

/-- Filters are added to a live bearer that has a slot for each of them. -/
def AddSafe (pdn : PdnClassifier) (b : Bearer) (filters : List PacketFilter) : Prop :=
  filters = [] ∨ (pdn.Live b ∧ filters.length ≤ pdn.vacantAfterMatchAll b)

/-- A new dedicated bearer gets an entry of the table that has no filters. -/
def CreateSafe (pdn : PdnClassifier) : Prop :=
  ∃ h : pdn.numDedicatedBearers < maxDedicatedBearerPerPdn,
    pdn.Bare (.dedicated ⟨pdn.numDedicatedBearers, h⟩)

/-- Either none of the filters to replace is there, or all of them are there, no two of
them are the same one, and each new precedence differs from that of the head when its
turn comes. -/
def ReplaceSafe (t : Table) (b : Bearer) (filters : List PacketFilter) : Prop :=
  (∀ f ∈ filters, findSlot t.mem (t.pdn.tft b) f.packetFilterIdentifier = some none) ∨
    (t.pdn.Live b ∧ (∀ f ∈ filters, t.target b f ≠ none) ∧
      (filters.filterMap (t.target b)).Nodup ∧
      ApartFromHead
        (headPrecedence t.mem
          (t.nodes.filter fun y => decide (y ∉ filters.filterMap (t.target b))))
        (filters.map PacketFilter.packetFilterPrecedence))

/-- Filters are deleted from a live dedicated bearer, or there is nothing to delete. -/
def DeleteFilterSafe (t : Table) (b : Bearer) (pfidList : List UInt8) : Prop :=
  NoneListed t b pfidList ∨ (t.pdn.Live b ∧ b ≠ .default)

/-- The operations on the filters of an existing bearer. -/
def TftOperation.OnFilters : TftOperation → Prop
  | .addPktFltrToExistingTft _ => True
  | .replacePktFltrToExistingTft _ => True
  | .deletePktFltrFromExistingTft _ => True
  | _ => False

/-- The condition on a TFT operation. -/
def TftSafe (t : Table) (bearerId linkedBearerId : UInt8) : TftOperation → Prop
  | .createNewTft filters =>
    if bearerId = linkedBearerId then AddSafe t.pdn .default filters.val
    else CreateSafe t.pdn
  | .deleteExistingTft => DeleteSafe t.pdn bearerId
  | .addPktFltrToExistingTft filters =>
    ∃ b ∈ targetBearer t.pdn bearerId linkedBearerId, AddSafe t.pdn b filters.val
  | .replacePktFltrToExistingTft filters =>
    ∃ b ∈ targetBearer t.pdn bearerId linkedBearerId, ReplaceSafe t b filters.val
  | .deletePktFltrFromExistingTft pfidList =>
    ∃ b ∈ targetBearer t.pdn bearerId linkedBearerId, DeleteFilterSafe t b pfidList.val
  | .noTftOperation => True

/-- The PDN in which `QA_Process_Bearer_Rel_Cnf` finds the bearer among `cts`. -/
def Qa.releaseTarget (s : Qa) (bearerId : UInt8) (cts : List (Fin maxPdns)) :
    Option (Fin maxPdns) :=
  cts.find? fun ct =>
    decide ((s.gsQaLte ct).defaultBearer.epsBearerId ≠ 0) &&
      (decide ((s.gsQaLte ct).defaultBearer.epsBearerId = bearerId) || decide (bearerId = 0) ||
        ((s.gsQaLte ct).findDedicated bearerId).isSome)

/-- The condition on a NAS message. -/
def Admissible (s : Qa) : NasMsg → Prop
  | .regConf _ => RegisterSafe (s.table 0)
  | .pdnConnCnf _ => ∀ ct ∈ s.findClassifierTable 0, RegisterSafe (s.table ct)
  | .bearerMod msgId bearerId linkedBearerId tft =>
    if bearerId = linkedBearerId ∧ (msgId = .allocInd ∨ msgId = .allocCnf) then
      RegisterSafe (s.table 0)
    else
      ∀ ct ∈ s.findClassifierTable linkedBearerId, TftSafe (s.table ct) bearerId linkedBearerId tft
  | .bearerRel bearerId linkedBearerId =>
    ∀ ct ∈ s.findClassifierTable linkedBearerId, DeleteSafe (s.gsQaLte ct) bearerId
  | .bearerRelCnf bearerId =>
    ∀ ct ∈ s.releaseTarget bearerId (List.finRange maxPdns), DeleteSafe (s.gsQaLte ct) bearerId
  | .detachConf _ => True

section Decidability

instance {P : Bearer → Prop} [DecidablePred P] : Decidable (∃ b, P b) :=
  decidable_of_iff (P .default ∨ ∃ k, P (.dedicated k))
    ⟨fun h => h.elim (fun h => ⟨_, h⟩) fun ⟨_, h⟩ => ⟨_, h⟩, fun
      | ⟨.default, h⟩ => .inl h
      | ⟨.dedicated k, h⟩ => .inr ⟨k, h⟩⟩

instance (t : Table) : Decidable (RegisterSafe t) :=
  inferInstanceAs (Decidable (_ ∧ _))

instance (pdn : PdnClassifier) (k : Fin maxDedicatedBearerPerPdn) :
    Decidable (DedicatedDeleteSafe pdn k) :=
  inferInstanceAs (Decidable (_ ∧ _))

instance (pdn : PdnClassifier) (bearerId : UInt8) : Decidable (DeleteSafe pdn bearerId) :=
  inferInstanceAs (Decidable (_ ∨ _))

instance (pdn : PdnClassifier) (b : Bearer) (filters : List PacketFilter) :
    Decidable (AddSafe pdn b filters) :=
  inferInstanceAs (Decidable (_ ∨ _))

instance (pdn : PdnClassifier) : Decidable (CreateSafe pdn) :=
  inferInstanceAs (Decidable (∃ _ : _ < _, pdn.Bare _))

instance (t : Table) (b : Bearer) (filters : List PacketFilter) :
    Decidable (ReplaceSafe t b filters) :=
  inferInstanceAs (Decidable (_ ∨ _))

instance (t : Table) (b : Bearer) (pfidList : List UInt8) :
    Decidable (DeleteFilterSafe t b pfidList) := by
  unfold DeleteFilterSafe NoneListed
  infer_instance

instance (t : Table) (bearerId linkedBearerId : UInt8) (tft : TftOperation) :
    Decidable (TftSafe t bearerId linkedBearerId tft) := by
  cases tft <;> unfold TftSafe <;> infer_instance

instance (s : Qa) (msg : NasMsg) : Decidable (Admissible s msg) := by
  cases msg <;> unfold Admissible <;> infer_instance

end Decidability

/-! ## One PDN -/

namespace Linked

variable {t : Table} {ps : List Ptr} {b : Bearer}

variable (h : Linked t ps []) {bearerId linkedBearerId : UInt8} {tft : TftOperation}
include h

theorem nodes_eq : t.nodes = ps := by
  rw [Table.nodes, h.head]
  exact h.chain.nodesFrom_eq h.length_le

omit h in
theorem targets_filterMap {filters : List PacketFilter}
    (hfound : ∀ f ∈ filters, t.target b f ≠ none) :
    Targets t b filters (filters.filterMap (t.target b)) := by
  induction filters with
  | nil => exact .nil
  | cons f filters ih =>
    rcases ne_none_iff_exists'.mp (hfound f mem_cons_self) with ⟨x, hx⟩
    rw [filterMap_cons_some hx]
    exact .cons hx (ih fun g hg => hfound g (mem_cons_of_mem f hg))

theorem addSafe {filters : List PacketFilter} (hlive : t.pdn.Live b)
    (hsafe : AddSafe t.pdn b filters) : Yields b t ps (Classifier.addSortTft t b filters) := by
  apply h.addSortTft hlive
  rcases hsafe with rfl | ⟨_, hroom⟩
  · exact Nat.zero_le _
  · exact hroom

/-- The operations on the filters of a bearer, under their condition: they find a live bearer or
nothing to do. -/
theorem applyTft_onFilters (hsafe : TftSafe t bearerId linkedBearerId tft) (htft : tft.OnFilters)
    (hb : targetBearer t.pdn bearerId linkedBearerId = some b) :
    (t.pdn.Live b ∧ Yields b t ps (Classifier.applyTft t bearerId linkedBearerId tft)) ∨
      Classifier.applyTft t bearerId linkedBearerId tft = some (t, .success) := by
  cases tft
  case createNewTft | deleteExistingTft | noTftOperation => exact htft.elim
  all_goals
    rcases hsafe with ⟨b', hb', hsafe⟩
    cases hb.symm.trans hb'
    simp [Classifier.applyTft, hb]
  case addPktFltrToExistingTft filters =>
    by_cases hlive : t.pdn.Live b
    · exact .inl ⟨hlive, h.addSafe hlive hsafe⟩
    · rcases hsafe with hnil | ⟨hlive', _⟩
      · have hne : b ≠ .default := fun hdefault => hlive (hdefault ▸ trivial)
        right
        simp [hnil, Classifier.addSortTft, hne, Classifier.addFilters]
      · exact absurd hlive' hlive
  case replacePktFltrToExistingTft filters =>
    rcases hsafe with hnone | ⟨hlive, hfound, hnodup, hapart⟩
    · exact .inr (h.replaceFilters_none hnone)
    · rw [h.nodes_eq] at hapart
      exact .inl ⟨hlive, h.replaceFilters hlive (targets_filterMap hfound) hnodup hapart⟩
  case deletePktFltrFromExistingTft pfidList =>
    rcases hsafe with hnone | ⟨hlive, hne⟩
    · exact .inr (deleteFilter_none hnone)
    · cases b with
      | default => exact absurd rfl hne
      | dedicated k => exact .inl ⟨hlive, h.deleteFilter hlive pfidList.val⟩

theorem createDedicated (hne : bearerId ≠ linkedBearerId)
    (hlt : t.pdn.numDedicatedBearers < maxDedicatedBearerPerPdn)
    (hbare : t.pdn.Bare (.dedicated ⟨t.pdn.numDedicatedBearers, hlt⟩))
    (filters : Recvd PacketFilter) :
    ∃ t' ret ps', createTft t bearerId linkedBearerId filters.val = some (t', ret) ∧
      Linked t' ps' [] ∧
      Isolated (.dedicated ⟨t.pdn.numDedicatedBearers, hlt⟩) t ps t' ps' ∧
      t'.pdn.numDedicatedBearers = t.pdn.numDedicatedBearers + 1 ∧
      (t'.pdn.tft (.dedicated ⟨t.pdn.numDedicatedBearers, hlt⟩)).epsBearerId = bearerId := by
  let b := Bearer.dedicated ⟨t.pdn.numDedicatedBearers, hlt⟩
  let pdn₁ := t.pdn.recount ⟨t.pdn.numDedicatedBearers, hlt⟩
    { t.pdn.tft b with epsBearerId := bearerId } (t.pdn.numDedicatedBearers + 1)
  have hnew : Linked ⟨t.mem, pdn₁⟩ ps [] := by
    refine { h with held := h.held.recount rfl fun k => ?_ }
    by_cases heq : k.val = t.pdn.numDedicatedBearers
    · exact .inr (Fin.ext (b := ⟨_, hlt⟩) heq ▸ hbare)
    · exact .inl (by omega)
  have hlive : pdn₁.Live b := Nat.lt_succ_self _
  have hempty (j) : (pdn₁.tft b).packetFilters j = none := by
    rw [tft_recount, if_pos rfl]
    exact hbare j
  have hvacant : (pdn₁.tft b).vacant = 16 := by
    simp only [Tft.vacant, hempty, Finset.filter_true]
    exact Finset.card_fin 16
  have hroom : filters.val.length ≤ pdn₁.vacantAfterMatchAll b := by
    have hdedicated : b ≠ .default := fun hb => Bearer.noConfusion hb
    rw [vacantAfterMatchAll, if_neg (fun hb => hdedicated hb.1), hvacant]
    omega
  have hothers : ∀ O, Others O b t → Others O b ⟨t.mem, pdn₁⟩ := by
    refine fun O hO => ⟨fun j x hx => ?_, hO.old⟩
    rw [slot, hempty j] at hx
    cases hx
  rcases hnew.addSortTft hlive hroom with ⟨t', ret, ps', hrun, hlinked, hmoves⟩
  refine ⟨t', ret, ps', ?_, hlinked, ⟨hmoves.isolated.keeps, ?_, ?_, ?_⟩, hmoves.num, ?_⟩
  · simp only [createTft, hne, if_false, hlt, dite_true, numDedicatedBearers_setTft]
    exact hrun
  · intro b' hb'
    rw [hmoves.tfts b' hb', tft_recount, if_neg hb']
  · exact fun O hO => hmoves.order O (hothers O hO)
  · exact fun O hO => hmoves.data O (hothers O hO)
  · rw [hmoves.ids, tft_recount, if_pos rfl]

theorem applyTft (hsafe : TftSafe t bearerId linkedBearerId tft) :
    Ends t ps (Classifier.applyTft t bearerId linkedBearerId tft) := by
  cases tft with
  | createNewTft filters =>
    by_cases hid : bearerId = linkedBearerId
    · simp only [TftSafe, hid, if_true] at hsafe
      simp only [Classifier.applyTft, createTft, hid, if_true]
      exact (h.addSafe (b := .default) trivial hsafe).ends
    · simp only [TftSafe, hid, if_false] at hsafe
      rcases hsafe with ⟨hlt, hbare⟩
      rcases h.createDedicated hid hlt hbare filters with
        ⟨t', ret, ps', hrun, hlinked, hisolated, _, _⟩
      exact ⟨t', ret, ps', hrun, hlinked, hisolated.keeps⟩
  | deleteExistingTft => exact h.bearerDelete hsafe
  | addPktFltrToExistingTft filters | replacePktFltrToExistingTft filters
  | deletePktFltrFromExistingTft pfidList =>
    rcases id hsafe with ⟨b, hb, _⟩
    rcases h.applyTft_onFilters hsafe trivial hb with ⟨_, hyields⟩ | hnone
    · exact hyields.ends
    · rw [hnone]
      exact (h.yields b .success).ends
  | noTftOperation => exact (h.yields .default .success).ends

end Linked

/-! ## All PDNs -/

/-- Every PDN meets its invariant, with the list `lists ct`, and no two PDNs share an
entry. -/
structure Sound (s : Qa) (lists : Fin maxPdns → List Ptr) : Prop where
  linked : ∀ ct, Linked (s.table ct) (lists ct) []
  apart : ∀ ct ct', ct ≠ ct' → ∀ x ∈ lists ct, x ∉ lists ct'

/-- A message is processed and leaves a sound state. -/
def Processed (result : Option (Qa × RetCode)) : Prop :=
  ∃ s' ret lists', result = some (s', ret) ∧ Sound s' lists'

variable {bearerId : UInt8} {t : Table} {s : Qa}

namespace Sound

variable {lists : Fin maxPdns → List Ptr} {ct : Fin maxPdns}

theorem processed (h : Sound s lists) (ret : RetCode) : Processed (some (s, ret)) :=
  ⟨s, ret, lists, rfl, h⟩

/-- The other PDNs do not notice what happens in one. -/
theorem setTable (h : Sound s lists) {t' : Table} {ps' : List Ptr} (hlinked : Linked t' ps' [])
    (hkeeps : Keeps s.mem (lists ct) t'.mem ps') :
    Sound (s.setTable ct t') (Function.update lists ct ps') := by
  have hlt : ∀ ct', ∀ x ∈ lists ct', x < s.mem.brk := fun ct' x hx =>
    (h.linked ct').lt_brk (mem_append_left [] hx)
  constructor
  · intro ct'
    by_cases hct : ct' = ct
    · subst hct
      simpa [Qa.setTable, Qa.table] using hlinked
    · have hold := h.linked ct'
      have hheap : ∀ y ∈ lists ct', t'.mem.heap y = s.mem.heap y := fun y hy =>
        hkeeps.frame y (h.apart ct' ct hct y hy) (hlt ct' y hy)
      have htable : (s.setTable ct t').table ct' = ⟨t'.mem, s.gsQaLte ct'⟩ := by
        simp [Qa.setTable, Qa.table, hct]
      rw [htable, Function.update_of_ne hct]
      exact ⟨hold.chain.congr hheap, hold.head, hold.sorted.congr_heap hheap, hold.nodup, nofun,
        hold.held, hlinked.fresh⟩
  · have hnew (c) (hc : c ≠ ct) (x) (hx : x ∈ lists c) : x ∉ ps' := by
      intro hx'
      rcases hkeeps.mem x hx' with hold | hnew
      · exact h.apart c ct hc x hx hold
      · exact Nat.not_lt.mpr hnew (hlt c x hx)
    intro c c' hne x hx hx'
    by_cases hc : c = ct
    · subst hc
      rw [Function.update_self] at hx
      rw [Function.update_of_ne hne.symm] at hx'
      exact hnew c' hne.symm x hx' hx
    · rw [Function.update_of_ne hc] at hx
      by_cases hc' : c' = ct
      · subst hc'
        rw [Function.update_self] at hx'
        exact hnew c hc x hx hx'
      · rw [Function.update_of_ne hc'] at hx'
        exact h.apart c c' hne x hx hx'

theorem on (h : Sound s lists) {result : Option (Table × RetCode)}
    (hends : Ends (s.table ct) (lists ct) result) : Processed (s.on ct result) := by
  rcases hends with ⟨t', ret, ps', rfl, hlinked, hkeeps⟩
  exact ⟨_, ret, _, rfl, h.setTable hlinked hkeeps⟩

theorem register (h : Sound s lists) (hsafe : RegisterSafe (s.table ct)) (bearerId : UInt8) :
    Ends (s.table ct) (lists ct) (registerDefaultBearer (s.table ct) bearerId) :=
  Linked.registerDefaultBearer (h.linked ct).fresh hsafe bearerId

end Sound

theorem bearerDelete_unknown
    (hdefault : ¬ (t.pdn.defaultBearer.epsBearerId = bearerId ∨ bearerId = 0))
    (hfind : t.pdn.findDedicated bearerId = none) : bearerDelete t bearerId = some (t, .fail) := by
  simp [bearerDelete, hdefault, hfind]

theorem bearerDelete_known (hknown : (t.pdn.defaultBearer.epsBearerId = bearerId ∨ bearerId = 0) ∨
      t.pdn.findDedicated bearerId ≠ none) {r : Table × RetCode}
    (hr : bearerDelete t bearerId = some r) : r.2 = .success := by
  by_cases hdefault : t.pdn.defaultBearer.epsBearerId = bearerId ∨ bearerId = 0
  · simp only [bearerDelete, hdefault, if_true] at hr
    rcases map_eq_some_iff.mp hr with ⟨_, _, rfl⟩
    rfl
  · rcases hknown with hdefault' | hfind
    · exact absurd hdefault' hdefault
    · rcases ne_none_iff_exists'.mp hfind with ⟨k, hk⟩
      simp only [bearerDelete, hdefault, if_false, hk] at hr
      rcases map_eq_some_iff.mp hr with ⟨_, _, rfl⟩
      rfl

theorem Qa.setTable_table (s : Qa) (ct : Fin maxPdns) : s.setTable ct (s.table ct) = s := by
  simp [setTable, table]

theorem releaseIn_eq (s : Qa) (bearerId : UInt8) (cts : List (Fin maxPdns)) :
    releaseIn bearerId s cts =
      match s.releaseTarget bearerId cts with
      | none => some (s, .fail)
      | some ct => s.on ct (bearerDelete (s.table ct) bearerId) := by
  induction cts with
  | nil => rfl
  | cons ct cts ih =>
    by_cases hzero : (s.gsQaLte ct).defaultBearer.epsBearerId = 0
    · have htarget : s.releaseTarget bearerId (ct :: cts) = s.releaseTarget bearerId cts := by
        simp [releaseTarget, hzero]
      simp only [releaseIn, hzero, ne_eq, not_true_eq_false, if_false, htarget]
      exact ih
    · by_cases hknown : ((s.table ct).pdn.defaultBearer.epsBearerId = bearerId ∨ bearerId = 0) ∨
          (s.table ct).pdn.findDedicated bearerId ≠ none
      · have htarget : s.releaseTarget bearerId (ct :: cts) = some ct := by
          apply find?_cons_of_pos
          have hsome : ((s.gsQaLte ct).findDedicated bearerId).isSome = true ↔
              (s.table ct).pdn.findDedicated bearerId ≠ none := isSome_iff_ne_none
          simp only [Bool.and_eq_true, Bool.or_eq_true, decide_eq_true_eq, hsome]
          exact ⟨hzero, hknown⟩
        simp only [releaseIn, hzero, ne_eq, not_false_eq_true, if_true, htarget]
        cases hdelete : bearerDelete (s.table ct) bearerId with
        | none => rfl
        | some r =>
          have hret := bearerDelete_known hknown hdelete
          simp [on, hret]
      · rw [not_or, not_not] at hknown
        have htarget : s.releaseTarget bearerId (ct :: cts) = s.releaseTarget bearerId cts := by
          apply find?_cons_of_neg
          have hnone : (s.gsQaLte ct).findDedicated bearerId = none := hknown.2
          have hdefault : ¬ ((s.gsQaLte ct).defaultBearer.epsBearerId = bearerId ∨ bearerId = 0) :=
            hknown.1
          simp only [hnone, isSome_none, Bool.or_false, Bool.and_eq_true, Bool.or_eq_true,
            decide_eq_true_eq]
          exact fun h => hdefault h.2
        have hdelete := bearerDelete_unknown hknown.1 hknown.2
        simp only [releaseIn, hzero, ne_eq, not_false_eq_true, if_true, htarget, hdelete,
          on, map_some, setTable_table, bind_eq_bind, bind_some]
        exact ih

/-! ## Messages -/

/-- The PDN that a message works on. -/
def Qa.addressed (s : Qa) : NasMsg → Option (Fin maxPdns)
  | .regConf _ => some 0
  | .pdnConnCnf _ => s.findClassifierTable 0
  | .bearerMod msgId bearerId linkedBearerId _ =>
    if bearerId = linkedBearerId ∧ (msgId = .allocInd ∨ msgId = .allocCnf) then some 0
    else s.findClassifierTable linkedBearerId
  | .bearerRel _ linkedBearerId => s.findClassifierTable linkedBearerId
  | .bearerRelCnf bearerId => s.releaseTarget bearerId (List.finRange maxPdns)
  | .detachConf bearerId => s.findClassifierTable bearerId

/-- What a message does there. -/
def NasMsg.onTable (t : Table) : NasMsg → Option (Table × RetCode)
  | .regConf bearerId | .pdnConnCnf bearerId => registerDefaultBearer t bearerId
  | .bearerMod msgId bearerId linkedBearerId tft =>
    if bearerId = linkedBearerId ∧ (msgId = .allocInd ∨ msgId = .allocCnf) then
      registerDefaultBearer t bearerId
    else (applyTft t bearerId linkedBearerId tft).map fun r => (r.1, .success)
  | .bearerRel bearerId _ | .bearerRelCnf bearerId | .detachConf bearerId => bearerDelete t bearerId

theorem Qa.handle_eq (s : Qa) (msg : NasMsg) :
    s.handle msg = match s.addressed msg with
      | none => some (s, .fail)
      | some ct => s.on ct (msg.onTable (s.table ct)) := by
  cases msg with
  | bearerMod msgId bearerId linkedBearerId tft =>
    simp only [handle, processBearerMod, addressed, NasMsg.onTable]
    split_ifs <;> rfl
  | bearerRelCnf bearerId => exact releaseIn_eq s bearerId _
  | regConf _ | pdnConnCnf _ | bearerRel _ _ | detachConf _ => rfl

/-! ## Runs -/

section

variable {lists : Fin maxPdns → List Ptr} (h : Sound s lists) {msg : NasMsg}
  (hmsg : Admissible s msg)

include h hmsg

theorem Sound.onTable {ct : Fin maxPdns} (hct : s.addressed msg = some ct) :
    Ends (s.table ct) (lists ct) (msg.onTable (s.table ct)) := by
  have hlinked := h.linked ct
  cases msg with
  | regConf bearerId =>
    cases hct
    exact h.register hmsg bearerId
  | pdnConnCnf bearerId => exact h.register (hmsg ct hct) bearerId
  | bearerMod msgId bearerId linkedBearerId tft =>
    simp only [Admissible, addressed, NasMsg.onTable] at hmsg hct ⊢
    split_ifs at hmsg hct ⊢
    · cases hct
      exact h.register hmsg _
    · rcases hlinked.applyTft (hmsg ct hct) with ⟨t', ret, ps', hrun, hrest⟩
      exact ⟨t', .success, ps', by rw [hrun]; rfl, hrest⟩
  | bearerRel bearerId _ | bearerRelCnf bearerId => exact hlinked.bearerDelete (hmsg ct hct)
  | detachConf bearerId =>
    have hfound := find?_some hct
    exact hlinked.bearerDelete (.inl (beq_iff_eq.mp hfound))

/-- From a sound state every admissible message is processed, without an invalid access,
and leaves a sound state. -/
theorem Sound.handle : Processed (s.handle msg) := by
  rw [handle_eq]
  cases hct : s.addressed msg with
  | none => exact h.processed .fail
  | some ct => exact h.on (h.onTable hmsg hct)

end

/-- Before the registration there is nothing. -/
theorem sound_boot (free : Nat) (garbage : Ptr → PacketFilter) :
    Sound (boot free garbage) fun _ => [] := by
  refine ⟨fun ct => ⟨trivial, rfl, .nil, nodup_nil, by simp, ⟨?_, ?_⟩, fun _ _ => rfl⟩, by simp⟩
  · intro x
    constructor
    · exact nofun
    · rintro ⟨b, j, _, hx⟩
      cases b <;> cases hx
  · intro b j b' j' x _ _ hx
    cases b <;> cases hx

theorem sound_of_reachable (hs : system.ReachableUnder Admissible s) : ∃ lists, Sound s lists := by
  apply hs.invariant
  · rintro s ⟨free, garbage, bearerId, ret, hstart⟩
    have hboot := sound_boot free garbage
    by_cases hfree : free = 0
    · subst hfree
      cases hstart
    · have hsafe : RegisterSafe ((boot free garbage).table 0) := ⟨hfree, fun _ _ => rfl⟩
      rcases hboot.on (hboot.register hsafe bearerId) with ⟨s', ret', lists, hrun, hsound⟩
      cases hrun.symm.trans hstart
      exact ⟨lists, hsound⟩
  · rintro s msg s' ⟨lists, hsound⟩ hmsg ⟨ret, hstep⟩
    rcases hsound.handle hmsg with ⟨s'', ret', lists', hrun, hsound'⟩
    cases hrun.symm.trans hstep
    exact ⟨lists', hsound'⟩

/-- The list of a PDN: the entries `ps` are those met from the head, linked both ways,
sorted and different, and they are the filters in the slots of the live bearers. -/
structure TableIntegrity (t : Table) (ps : List Ptr) : Prop where
  head : t.pdn.classifierTable = ps.head?
  finite : ∀ n, ps.length ≤ n → nodesFrom t.mem.heap n t.pdn.classifierTable = ps
  linked : Chain t.mem.heap none ps none
  sorted : Sorted precedence t.mem.heap ps
  once : ps.Nodup
  slots : ∀ x, x ∈ ps ↔ ∃ b j, t.pdn.Live b ∧ t.pdn.slot b j = some x

theorem Linked.integrity {ps : List Ptr} (h : Linked t ps []) :
    TableIntegrity t ps where
  head := h.head
  finite n hn := by
    rw [h.head]
    exact h.chain.nodesFrom_eq hn
  linked := h.chain
  sorted := h.sorted
  once := (nodup_append.mp h.nodup).1
  slots x := by simpa using h.held.mem_iff x

/-- In every run of admissible messages every PDN has an intact list, and every further
admissible message is processed without an invalid access. -/
theorem table_integrity {s : Qa} (hs : system.ReachableUnder Admissible s) :
    (∀ ct, ∃ ps, TableIntegrity (s.table ct) ps) ∧
      ∀ msg, Admissible s msg → ∃ s' ret, s.handle msg = some (s', ret) := by
  rcases sound_of_reachable hs with ⟨lists, hsound⟩
  constructor
  · intro ct
    exact ⟨lists ct, (hsound.linked ct).integrity⟩
  · intro msg hmsg
    rcases hsound.handle hmsg with ⟨s', ret, _, hrun, _⟩
    exact ⟨s', ret, hrun⟩

/-- The steps of the classifier as a function. -/
def Qa.act (s : Qa) (msg : NasMsg) : Option Qa :=
  (s.handle msg).map Prod.fst

theorem Qa.act_step (s : Qa) (msg : NasMsg) (s' : Qa) (h : s.act msg = some s') :
    system.step s msg s' :=
  exists_of_map_fst h

/-- A received filter with an identifier and a precedence. -/
def PacketFilter.numbered (bearerId identifier precedence : UInt8) : PacketFilter :=
  { PacketFilter.zero with
    epsId := bearerId
    direction := 3
    packetFilterIdentifier := identifier
    packetFilterPrecedence := precedence
    claMask := 0x800000 }

/-- The classifier behind the registration of the default bearer 5. -/
def Qa.attached : Qa :=
  ((boot 8 fun _ => .zero).act (.regConf 5)).getD (boot 0 fun _ => .zero)

theorem attached_init : system.init attached :=
  ⟨8, fun _ => .zero, 5, .success, rfl⟩

theorem reachable_attached {g : Qa → NasMsg → Prop} {l : List NasMsg}
    (hguard : Guarded act g attached l) (hrun : runLabels act attached l = some s) :
    system.ReachableUnder g s :=
  .runLabels act_step (.init attached_init) hguard hrun

/-- Two dedicated bearers come, a filter is added to the default bearer, one is replaced and
one deleted, and the second dedicated bearer goes. -/
def bearerRun : List NasMsg :=
  [.bearerMod .allocInd 6 5 (.createNewTft ⟨[.numbered 6 1 10], by decide⟩),
    .bearerMod .allocInd 7 5 (.createNewTft ⟨[.numbered 7 1 5, .numbered 7 2 10], by decide⟩),
    .bearerMod .modInd 5 5 (.addPktFltrToExistingTft ⟨[.numbered 5 3 20], by decide⟩),
    .bearerMod .modInd 6 5 (.replacePktFltrToExistingTft ⟨[.numbered 6 1 7], by decide⟩),
    .bearerMod .modInd 7 5 (.deletePktFltrFromExistingTft ⟨[2], by decide⟩),
    .bearerRel 7 5]

/-- The condition is met by a run that ends with two filters of two bearers. -/
theorem table_integrity_bearers : ∃ s : Qa,
    system.ReachableUnder Admissible s ∧ (s.table 0).nodes = [1, 4] ∧
      ∃ ps, TableIntegrity (s.table 0) ps := by
  have hs := reachable_attached (g := Admissible) (l := bearerRun) (by decide +kernel) rfl
  exact ⟨_, hs, by decide +kernel, (table_integrity hs).1 0⟩

/-- Without the condition: a filter that is replaced by one of the precedence of the head
stays in its slot but leaves the list. -/
theorem replaced_filter_lost : ∃ s : Qa,
    system.Reachable s ∧ ¬ ∃ ps, TableIntegrity (s.table 0) ps := by
  have hs := reachable_attached (l :=
    [.bearerMod .allocInd 6 5 (.createNewTft ⟨[.numbered 6 1 10], by decide⟩),
      .bearerMod .modInd 6 5 (.replacePktFltrToExistingTft ⟨[.numbered 6 1 255], by decide⟩)])
    (.trivial _ _) rfl
  refine ⟨_, hs, ?_⟩
  rintro ⟨ps, hps⟩
  -- the match-all filter is all that is reached from the head
  have hlist : [0] = ps := hps.finite (ps.length + 2) (Nat.le_add_right _ _)
  subst hlist
  have hslot := (hps.slots 1).mpr ⟨.dedicated 0, 0, Nat.zero_lt_one, rfl⟩
  exact absurd hslot (by decide)

end LteModemKernel.Classifier
