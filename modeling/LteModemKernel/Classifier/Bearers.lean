import LteModemKernel.Classifier.Integrity

/-!
# Isolation of the bearers

The filters of all bearers of a PDN are linked into one list, and the memory is shared by
all PDNs.  An operation on the filters of one bearer still changes nothing of another
bearer: neither its slots nor the contents of its filters nor their order in the list.

Main results:

- Theorem `Isolated.filter`: an isolated operation keeps the filters of the other
  bearers.
- Theorem `bearer_isolation`: in every run of admissible messages, an operation on the
  filters of a bearer leaves everything of the other bearers and PDNs as it is.
-/

namespace LteModemKernel.Classifier

open Lib Option TransitionSystem

/-! ## Filters -/

/-- The filter in a slot, with its contents. -/
def Table.filterAt (t : Table) (b : Bearer) (j : Fin maxFiltersPerTft) : Option PacketFilter :=
  (t.pdn.slot b j).bind (dataAt t.mem.heap)

/-- Whether an entry is held by a live bearer other than `b`. -/
def heldByOthers (pdn : PdnClassifier) (b : Bearer) (x : Ptr) : Bool :=
  decide (∃ b', (pdn.Live b' ∧ b' ≠ b) ∧ ∃ j, pdn.slot b' j = some x)

variable {b : Bearer}

theorem heldByOthers_iff {pdn : PdnClassifier} {x : Ptr} :
    heldByOthers pdn b x = true ↔ ∃ b' j, pdn.Live b' ∧ b' ≠ b ∧ pdn.slot b' j = some x := by
  rw [heldByOthers, decide_eq_true_eq]
  constructor
  · rintro ⟨b', ⟨hlive, hne⟩, j, hx⟩
    exact ⟨b', j, hlive, hne, hx⟩
  · rintro ⟨b', j, hlive, hne, hx⟩
    exact ⟨b', ⟨hlive, hne⟩, j, hx⟩

/-- The entries of the other bearers, for a bearer that is live or has no filters. -/
theorem Linked.others {t : Table} {ps : List Ptr} (h : Linked t ps [])
    (hb : t.pdn.Live b ∨ t.pdn.Bare b) : Others (heldByOthers t.pdn b) b t := by
  constructor
  · intro j x hx
    rw [← Bool.not_eq_true, heldByOthers_iff]
    rintro ⟨b', j', hlive', hne, hx'⟩
    rcases hb with hlive | hbare
    · exact hne (h.held.once b' j' b j x hlive' hlive hx' hx).1
    · rw [hbare j] at hx
      cases hx
  · intro x hge
    rw [← Bool.not_eq_true, heldByOthers_iff]
    rintro ⟨b', j', hlive', _, hx'⟩
    exact Nat.not_lt.mpr hge (h.lt_brk (h.held.mem hlive' hx'))

namespace Isolated

variable {t t' : Table} {ps ps' : List Ptr}

/-- An isolated operation keeps the filters of the other live bearers. -/
theorem filter (h : Isolated b t ps t' ps') (hlinked : Linked t ps [])
    (hb : t.pdn.Live b ∨ t.pdn.Bare b) {b' : Bearer} (hlive : t.pdn.Live b') (hne : b' ≠ b)
    (j : Fin maxFiltersPerTft) : t'.filterAt b' j = t.filterAt b' j := by
  have hslot : t'.pdn.slot b' j = t.pdn.slot b' j := by
    simp [PdnClassifier.slot, h.tfts b' hne]
  cases hx : t.pdn.slot b' j with
  | none => simp [Table.filterAt, hslot, hx]
  | some x =>
    have hheld : heldByOthers t.pdn b x = true := heldByOthers_iff.mpr ⟨b', j, hlive, hne, hx⟩
    have hdata := h.data _ (hlinked.others hb) x hheld
    simp [Table.filterAt, hslot, hx, hdata]

end Isolated

/-! ## Isolation -/

/-- Nothing changes but the bearer `b` of the PDN `ct`. -/
structure Unaffected (s : Qa) (ct : Fin maxPdns) (b : Bearer) (s' : Qa) : Prop where
  pdns : ∀ ct', ct' ≠ ct → s'.gsQaLte ct' = s.gsQaLte ct'
  pdnFilters : ∀ ct', ct' ≠ ct → ∀ b' j, (s.gsQaLte ct').Live b' →
    (s'.table ct').filterAt b' j = (s.table ct').filterAt b' j
  pdnOrder : ∀ ct', ct' ≠ ct → (s'.table ct').nodes = (s.table ct').nodes
  bearers : ∀ b', b' ≠ b → (s'.gsQaLte ct).tft b' = (s.gsQaLte ct).tft b'
  filters : ∀ b', b' ≠ b → (s.gsQaLte ct).Live b' → ∀ j,
    (s'.table ct).filterAt b' j = (s.table ct).filterAt b' j
  order : (s'.table ct).nodes.filter (heldByOthers (s.gsQaLte ct) b) =
    (s.table ct).nodes.filter (heldByOthers (s.gsQaLte ct) b)

namespace Sound

variable {s : Qa} {lists : Fin maxPdns → List Ptr} {ct : Fin maxPdns} {t' : Table} {ps' : List Ptr}

/-- What an operation on one PDN leaves of the others. -/
theorem pdn_filter (h : Sound s lists) {ct' : Fin maxPdns} (hct : ct' ≠ ct)
    (hkeeps : Keeps s.mem (lists ct) t'.mem ps') (hlive : (s.gsQaLte ct').Live b)
    (j : Fin maxFiltersPerTft) :
    ((s.setTable ct t').table ct').filterAt b j = (s.table ct').filterAt b j := by
  have htable : (s.setTable ct t').table ct' = ⟨t'.mem, s.gsQaLte ct'⟩ := by
    simp [Qa.setTable, Qa.table, hct]
  rw [htable]
  cases hx : (s.gsQaLte ct').slot b j with
  | none => simp [Table.filterAt, Qa.table, hx]
  | some x =>
    have hmem : x ∈ lists ct' := by simpa using (h.linked ct').held.mem hlive hx
    have hheap : t'.mem.heap x = s.mem.heap x := hkeeps.frame x (h.apart ct' ct hct x hmem)
      ((h.linked ct').lt_brk (List.mem_append_left [] hmem))
    simp [Table.filterAt, Qa.table, hx, dataAt, hheap]

theorem unaffected (h : Sound s lists) (hb : (s.gsQaLte ct).Live b ∨ (s.gsQaLte ct).Bare b)
    (hlinked : Linked t' ps' []) (hisolated : Isolated b (s.table ct) (lists ct) t' ps') :
    Unaffected s ct b (s.setTable ct t') := by
  have hsound := h.setTable hlinked hisolated.keeps
  have hself : (s.setTable ct t').table ct = t' := by simp [Qa.setTable, Qa.table]
  refine ⟨?_, ?_, ?_, ?_, ?_, ?_⟩
  · intro ct' hct
    exact Function.update_of_ne hct _ _
  · intro ct' hct b' j hlive
    exact h.pdn_filter hct hisolated.keeps hlive j
  · intro ct' hct
    rw [(hsound.linked ct').nodes_eq, (h.linked ct').nodes_eq, Function.update_of_ne hct]
  · intro b' hne
    have hpdn : (s.setTable ct t').gsQaLte ct = t'.pdn := Function.update_self _ _ _
    rw [hpdn]
    exact hisolated.tfts b' hne
  · intro b' hne hlive j
    rw [hself]
    exact hisolated.filter (h.linked ct) hb hlive hne j
  · rw [hself, hlinked.nodes_eq, (h.linked ct).nodes_eq]
    exact hisolated.order _ ((h.linked ct).others hb)

end Sound

theorem Unaffected.refl (s : Qa) (ct : Fin maxPdns) (b : Bearer) : Unaffected s ct b s :=
  ⟨fun _ _ => rfl, fun _ _ _ _ _ => rfl, fun _ _ => rfl, fun _ _ => rfl, fun _ _ _ _ => rfl, rfl⟩

/-- In every run of admissible messages, an operation on the filters of a bearer leaves the
filters of the other bearers and of the other PDNs, and their order in the list, as they
are. -/
theorem bearer_isolation {s : Qa} (hs : system.ReachableUnder Admissible s) {msgId : BearerMsgId}
    {bearerId linkedBearerId : UInt8} {tft : TftOperation} (htft : tft.OnFilters)
    (hmod : ¬ (bearerId = linkedBearerId ∧ (msgId = .allocInd ∨ msgId = .allocCnf)))
    (hmsg : Admissible s (.bearerMod msgId bearerId linkedBearerId tft)) {ct : Fin maxPdns}
    (hct : s.findClassifierTable linkedBearerId = some ct) {b : Bearer}
    (hb : targetBearer (s.gsQaLte ct) bearerId linkedBearerId = some b) :
    ∃ s' ret, s.handle (.bearerMod msgId bearerId linkedBearerId tft) = some (s', ret) ∧
      Unaffected s ct b s' := by
  rcases sound_of_reachable hs with ⟨lists, hsound⟩
  simp only [Admissible, hmod, if_false] at hmsg
  simp only [Qa.handle, Qa.processBearerMod, hmod, if_false, Qa.onFound, hct]
  rcases (hsound.linked ct).applyTft_onFilters (hmsg ct hct) htft hb with
    ⟨hlive, t', ret, ps', hrun, hlinked, hmoves⟩ | hnone
  · rw [hrun]
    exact ⟨_, _, rfl, hsound.unaffected (.inl hlive) hlinked hmoves.isolated⟩
  · rw [hnone]
    refine ⟨_, _, rfl, ?_⟩
    rw [Qa.setTable_table]
    exact .refl s ct b

/-- Two dedicated bearers with three filters. -/
def twoBearers : List NasMsg :=
  bearerRun.take 2

theorem reachable_twoBearers {s : Qa} (hrun : runLabels Qa.act Qa.attached twoBearers = some s) :
    system.ReachableUnder Admissible s :=
  reachable_attached (by decide +kernel) hrun

/-- The condition is met by the replacement of a filter between two filters of another
bearer. -/
theorem bearer_isolation_replace : ∃ s s' : Qa, system.ReachableUnder Admissible s ∧
    (s.table 0).nodes = [2, 3, 1, 0] ∧ (s'.table 0).nodes = [2, 1, 3, 0] ∧
    Unaffected s 0 (.dedicated 0) s' := by
  obtain ⟨s', ret, hrun, hother⟩ := @bearer_isolation _ (reachable_twoBearers rfl) .modInd 6 5
    (.replacePktFltrToExistingTft ⟨[.numbered 6 1 7], by decide⟩) trivial (by decide)
    (by decide +kernel) 0 rfl (.dedicated 0) rfl
  cases hrun
  exact ⟨_, _, reachable_twoBearers rfl, by decide +kernel, by decide +kernel, hother⟩

/-- Without the condition: deleting a filter of the default bearer clears the filter in the
same slot of the first dedicated bearer. -/
theorem default_delete_clears_dedicated : ∃ s s' : Qa, ∃ ret, system.Reachable s ∧
    s.findClassifierTable 5 = some 0 ∧ targetBearer (s.gsQaLte 0) 5 5 = some .default ∧
    s.handle (.bearerMod .modInd 5 5 (.deletePktFltrFromExistingTft ⟨[3], by decide⟩)) =
      some (s', ret) ∧
    (s.table 0).filterAt (.dedicated 0) 0 = some (.numbered 6 1 10) ∧
    (s'.table 0).filterAt (.dedicated 0) 0 = some .zero ∧ ¬ Unaffected s 0 .default s' := by
  have hs := reachable_attached (l :=
    [.bearerMod .allocInd 6 5 (.createNewTft ⟨[.numbered 6 1 10], by decide⟩),
      .bearerMod .modInd 5 5 (.addPktFltrToExistingTft ⟨[.numbered 5 3 20], by decide⟩)])
    (.trivial _ _) rfl
  refine ⟨_, _, _, hs, rfl, rfl, rfl, rfl, rfl, ?_⟩
  intro hother
  have hsame := hother.filters (.dedicated 0) (by decide) Nat.zero_lt_one 0
  exact absurd hsame (by decide +kernel)

end LteModemKernel.Classifier
