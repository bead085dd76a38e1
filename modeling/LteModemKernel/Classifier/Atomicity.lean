import LteModemKernel.Classifier.Integrity

/-!
# Requests that fail

`Qa_Replace_Filters` checks with a dry run that every filter to replace is there, and
`Qa_Add_SortTFT` stops when a bearer has no slot left.  Neither takes back what it has done
by then: the sorting pass of a replacement runs also after a failed dry run, on entries that are
still linked, and a filter without a slot stays in the list.

Main results:

- Theorem `replaceFilters_idle`: where every filter from the first one on that is there has the
  precedence of the head, the sorting pass does nothing.
- Theorem `failed_request_unchanged`: the requests that fail and change nothing.
- Theorem `failed_request_changes`: requests that fail and change the table.
-/

namespace LteModemKernel.Classifier

open Lib List Option TransitionSystem

/-! ## Replacing filters that are not there -/

/-- The precedence of the entry at the head of the list. -/
def Table.headPrecedence (t : Table) : Option UInt8 :=
  t.pdn.classifierTable.bind (precedenceAt t.mem)

/-- The received filters from the first one on that is in a slot of the bearer have the precedence
of the head. -/
def ReplaceIdle (t : Table) (b : Bearer) (filters : List PacketFilter) : Prop :=
  ∀ f ∈ filters.dropWhile fun f =>
      findSlot t.mem (t.pdn.tft b) f.packetFilterIdentifier = some none,
    t.headPrecedence = some f.packetFilterPrecedence

instance (t : Table) (b : Bearer) (filters : List PacketFilter) :
    Decidable (ReplaceIdle t b filters) :=
  inferInstanceAs (Decidable (∀ f ∈ _, _))

section Replace

variable {t : Table} {b : Bearer} {filters : List PacketFilter}

/-- The dry run fails at the first filter that is not there, if the searches return. -/
theorem deleteFilterReplace_absent
    (habsent : ∃ f ∈ filters, findSlot t.mem (t.pdn.tft b) f.packetFilterIdentifier = some none) :
    deleteFilterReplace false b t filters = some (t, .fail) ∨
      deleteFilterReplace false b t filters = none ∧
        ∃ f ∈ filters, findSlot t.mem (t.pdn.tft b) f.packetFilterIdentifier = none := by
  induction filters with
  | nil =>
    rcases habsent with ⟨f, hf, -⟩
    cases hf
  | cons f rest ih =>
    rw [deleteFilterReplace]
    cases hfound : findSlot t.mem (t.pdn.tft b) f.packetFilterIdentifier with
    | none => exact .inr ⟨rfl, f, mem_cons_self, hfound⟩
    | some found =>
      cases found with
      | none => exact .inl rfl
      | some j =>
        simp only [bind_eq_bind, bind_some, Bool.false_eq_true, if_false]
        cases t.pdn.slot b j with
        | none => exact .inl rfl
        | some temp =>
          rcases habsent with ⟨g, hg, hnone⟩
          rcases mem_cons.mp hg with rfl | hg
          · cases hfound.symm.trans hnone
          · refine (ih ⟨g, hg, hnone⟩).imp_right (.imp_right ?_)
            rintro ⟨g', hg', hnone'⟩
            exact ⟨g', mem_cons_of_mem f hg', hnone'⟩

theorem replaceInsert_head {temp : Ptr} {k : UInt8} (h : t.headPrecedence = some k) :
    replaceInsert t temp k = some t := by
  rcases bind_eq_some_iff.mp h with ⟨p, hp, hprecedence⟩
  rcases map_eq_some_iff.mp hprecedence with ⟨f, hdata, rfl⟩
  rcases map_eq_some_iff.mp hdata with ⟨c, hc, rfl⟩
  have hnot : decide (c.data.packetFilterPrecedence < c.data.packetFilterPrecedence) = false :=
    decide_eq_false (UInt8.lt_irrefl _)
  have hbefore : beforeHead t c.data.packetFilterPrecedence = some false := by
    simp [beforeHead, hp, hc]
  have hseek : seekPlace t c.data.packetFilterPrecedence = some (none, some p) := by
    simp [seekPlace, hp, seek, hc]
  simp [replaceInsert, hbefore, hseek]

/-- Where every filter has the precedence of the head, the sorting pass does nothing. -/
theorem replaceSortTft_head
    (hhead : ∀ f ∈ filters, t.headPrecedence = some f.packetFilterPrecedence)
    (temp1 : Option Ptr) : replaceSortTft b temp1 t filters =
      if ∀ f ∈ filters, (findSlot t.mem (t.pdn.tft b) f.packetFilterIdentifier).isSome then
        some (t, .success) else none := by
  induction filters generalizing temp1 with
  | nil => rfl
  | cons f rest ih =>
    have hrest := ih fun g hg => hhead g (mem_cons_of_mem f hg)
    cases hfound : findSlot t.mem (t.pdn.tft b) f.packetFilterIdentifier with
    | none => simp [replaceSortTft, hfound]
    | some found =>
      simp only [replaceSortTft, hfound, replaceInsert_head (hhead f mem_cons_self), bind_eq_bind,
        bind_some, hrest]
      split <;> simp [hfound]

/-- A replacement of which a filter is not there leaves the table as it is, and is processed if
the searches return and the list ends. -/
theorem replaceFilters_idle
    (habsent : ∃ f ∈ filters, findSlot t.mem (t.pdn.tft b) f.packetFilterIdentifier = some none)
    (hidle : ReplaceIdle t b filters) :
    (∀ t' ret, replaceFilters t b filters = some (t', ret) → t' = t) ∧
      ((∀ f ∈ filters, (findSlot t.mem (t.pdn.tft b) f.packetFilterIdentifier).isSome) →
        printFilterList t = some () → replaceFilters t b filters = some (t, .success)) := by
  have hsort := Linked.replaceSortTft_absent b t filters
  rw [replaceSortTft_head hidle] at hsort
  rcases deleteFilterReplace_absent habsent with hdry | ⟨hdry, f, hf, hnone⟩
  · simp only [replaceFilters, hdry, hsort, bind_eq_bind, bind_some, reduceCtorEq, if_false]
    constructor
    · intro t' ret h
      split_ifs at h
      · rcases map_eq_some_iff.mp h with ⟨_, -, heq⟩
        cases heq
        rfl
      · cases h
    · intro hsome hprint
      rw [if_pos fun f hf => hsome f ((dropWhile_sublist _).subset hf), bind_some, hprint]
      rfl
  · refine ⟨by simp [replaceFilters, hdry], fun hsome => ?_⟩
    have hfound := hsome f hf
    rw [hnone] at hfound
    cases hfound

end Replace

/-! ## Adding filters without memory -/

/-- No memory is left, and the filters are not to take the place of a match-all filter. -/
def AddIdle (t : Table) (b : Bearer) : Prop :=
  t.mem.free = 0 ∧ (b = .default → t.pdn.matchAll = true → t.pdn.slot .default 0 = none)

variable {t : Table} {ps : List Ptr} {b : Bearer} {filters : List PacketFilter}

/-- An addition of filters that gets no memory fails where it has found the place of the first. -/
theorem addSortTft_idle (hidle : AddIdle t b) (hne : filters ≠ []) :
    ∃ k, addSortTft t b filters = (addPlace t k).map fun _ => (t, .fail) := by
  cases filters with
  | nil => exact absurd rfl hne
  | cons f rest =>
    have hkeep : addSortTft t b (f :: rest) = addFilters b t (f :: rest) := by
      unfold addSortTft
      split_ifs with hall
      · simp [deleteDefaultBearerMatchAllTft, hidle.2 hall.1 hall.2]
      · rfl
    refine ⟨f.packetFilterPrecedence, ?_⟩
    rw [hkeep]
    simp only [bind_eq_bind, addFilters, addFilter, Mem.kmalloc, if_pos hidle.1]
    cases addPlace t f.packetFilterPrecedence <;> rfl

/-! ## Requests that fail -/

theorem Linked.findSlotIn_isSome (h : Linked t ps []) (hb : t.pdn.Live b) (identifier : UInt8)
    (js : List (Fin maxFiltersPerTft)) :
    ∃ found, findSlotIn t.mem (t.pdn.tft b) identifier js = some found := by
  induction js with
  | nil => exact ⟨none, rfl⟩
  | cons j js ih =>
    rw [findSlotIn]
    cases hslot : (t.pdn.tft b).packetFilters j with
    | none => exact ih
    | some x =>
      have hx : x ∈ ps := by
        have hmem := (h.held.mem_iff x).mpr ⟨b, j, hb, hslot⟩
        rwa [append_nil] at hmem
      rcases h.chain.exists_cell hx with ⟨c, hc⟩
      simp only [hc]
      split_ifs
      · exact ⟨some j, rfl⟩
      · exact ih

/-- A replacement of which a filter is not there leaves the table as it is if every filter from the
first one on that is there has the precedence of the head; so does an addition of more filters than
there are slots, if no memory is left and no match-all filter is to be removed.  In every run of
admissible messages such requests to a live bearer are processed. -/
theorem failed_request_unchanged (s : Qa) (ct : Fin maxPdns) (b : Bearer)
    (filters : List PacketFilter) :
    ((∃ f ∈ filters, findSlot s.mem ((s.gsQaLte ct).tft b) f.packetFilterIdentifier = some none) →
      ReplaceIdle (s.table ct) b filters →
        (∀ t' ret, replaceFilters (s.table ct) b filters = some (t', ret) → t' = s.table ct) ∧
        (system.ReachableUnder Admissible s → (s.gsQaLte ct).Live b →
          replaceFilters (s.table ct) b filters = some (s.table ct, .success))) ∧
    ((s.gsQaLte ct).vacantAfterMatchAll b < filters.length → AddIdle (s.table ct) b →
        (∀ t' ret, addSortTft (s.table ct) b filters = some (t', ret) → t' = s.table ct) ∧
        (system.ReachableUnder Admissible s →
          addSortTft (s.table ct) b filters = some (s.table ct, .fail))) := by
  have hlinked (hs : system.ReachableUnder Admissible s) : ∃ ps, Linked (s.table ct) ps [] := by
    rcases sound_of_reachable hs with ⟨lists, hsound⟩
    exact ⟨lists ct, hsound.linked ct⟩
  constructor
  · intro habsent hidle
    rcases replaceFilters_idle habsent hidle with ⟨hsame, hdone⟩
    refine ⟨hsame, fun hs hb => ?_⟩
    rcases hlinked hs with ⟨ps, hps⟩
    refine hdone (fun f _ => ?_) hps.printFilterList_eq
    rcases hps.findSlotIn_isSome hb f.packetFilterIdentifier (.finRange _) with ⟨found, hfound⟩
    exact isSome_iff_exists.mpr ⟨found, hfound⟩
  · intro hlength hidle
    have hne : filters ≠ [] := length_pos_iff.mp (Nat.zero_lt_of_lt hlength)
    rcases addSortTft_idle hidle hne with ⟨k, hadd⟩
    rw [hadd]
    constructor
    · intro t' ret h
      rcases map_eq_some_iff.mp h with ⟨_, -, heq⟩
      cases heq
      rfl
    · intro hs
      rcases hlinked hs with ⟨ps, hps⟩
      rw [hps.addPlace_eq]
      rfl

/-- Filters of bearer 6 with the identifiers from 2 on. -/
def otherFilters (n : Nat) : List PacketFilter :=
  (List.range n).map fun i => .numbered 6 (UInt8.ofNat (i + 2)) 20

/-- Bearer 6 gets its sixteen filters in two messages, out of a memory for so many more
entries. -/
def Qa.full (free : Nat) : Option Qa :=
  runLabels Qa.act (Qa.boot (free + 17) fun _ => .zero) (.regConf 5 :: bearerRun.take 1 ++
    [.bearerMod .modInd 6 5 (.addPktFltrToExistingTft ⟨otherFilters 15, by decide⟩)])

theorem full_reachable {free : Nat} {s : Qa} (h : Qa.full free = some s) : system.Reachable s := by
  rw [Qa.full, List.cons_append, runLabels] at h
  rcases bind_eq_some_iff.mp h with ⟨s₁, hreg, hrest⟩
  rcases map_eq_some_iff.mp hreg with ⟨⟨_, ret⟩, hhandle, rfl⟩
  exact Reachable.runLabels Qa.act_step
    (.start ⟨free + 17, fun _ => .zero, 5, ret, hhandle⟩) hrest

/-- The filter 90 is not there, and the filter 1 is at the head of the list. -/
theorem failed_request_unchanged_no_memory : ∃ s ∈ Qa.full 0,
    (∃ t', replaceFilters (s.table 0) (.dedicated 0) [.numbered 6 90 20, .numbered 6 1 10] =
      some (t', .success) ∧ t' = s.table 0) ∧
    (∃ t', addSortTft (s.table 0) (.dedicated 0) [.numbered 6 90 20] = some (t', .fail) ∧
      t' = s.table 0) := by
  have hreplace := fun s => (failed_request_unchanged s 0 (.dedicated 0)
    [.numbered 6 90 20, .numbered 6 1 10]).1
  have hadd := fun s => (failed_request_unchanged s 0 (.dedicated 0) [.numbered 6 90 20]).2
  refine ⟨_, rfl, ⟨_, rfl, ?_⟩, ⟨_, rfl, ?_⟩⟩
  · exact (hreplace _ ⟨.numbered 6 90 20, by decide, by decide⟩ (by decide)).1 _ _ rfl
  · exact (hadd _ (by decide) ⟨rfl, by decide⟩).1 _ _ rfl

/-- Requests that fail and change the table.  Of the filters 9 and 1 of bearer 7 to replace only the
last is there: it is linked in a second time, behind the others, which are no longer in the list.
A filter that finds no slot stays in the list without one. -/
theorem failed_request_changes :
    (∃ s, system.Reachable s ∧
      findSlot s.mem ((s.gsQaLte 0).tft (.dedicated 1)) 9 = some none ∧
      ∃ r, replaceFilters (s.table 0) (.dedicated 1) [.numbered 7 9 20, .numbered 7 1 20] = some r ∧
        (s.table 0).nodes.length = 4 ∧ r.1.nodes.length = 2) ∧
    ∃ s, system.Reachable s ∧ (s.gsQaLte 0).vacantAfterMatchAll (.dedicated 0) = 0 ∧
      ∃ r, addSortTft (s.table 0) (.dedicated 0) [.numbered 6 90 20] = some r ∧ r.2 = .fail ∧
        (s.table 0).nodes.length = 17 ∧ r.1.nodes.length = 18 := by
  constructor
  · have hs := reachable_attached (l := bearerRun.take 2) (.trivial _ _) rfl
    exact ⟨_, hs, by decide +kernel, _, rfl, by decide +kernel, by decide +kernel⟩
  · have hobs : ∃ s ∈ Qa.full 1, (s.gsQaLte 0).vacantAfterMatchAll (.dedicated 0) = 0 ∧
        ∃ r ∈ addSortTft (s.table 0) (.dedicated 0) [.numbered 6 90 20], r.2 = .fail ∧
          (s.table 0).nodes.length = 17 ∧ r.1.nodes.length = 18 := by decide +kernel
    rcases hobs with ⟨s, hs, hfull, r, hr, hfacts⟩
    exact ⟨s, full_reachable hs, hfull, r, hr, hfacts⟩

end LteModemKernel.Classifier
