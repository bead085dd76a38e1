import LteModemKernel.DataDriver.Transfer

/-!
# Choosing the interface of the next transfer

`lte_dd_ni_interface_fifo_lookup` goes around the table of interfaces with a static counter of 32
bits, of which it takes the remainder.  The driver's model keeps the remainder; here is the
function with its counter, and what it does in a sequence of calls.

Main results:

- Theorem `fifoLookup_refines`: the remainder of the counter is the running index of the model.
- Theorem `fifo_lookup_fair`: an interface is returned if one has packets, and with more than one
  interface one that keeps having packets is returned within eight calls.
-/

namespace LteModemKernel.DataDriver

/-- `running_index % 8`. -/
def arrayIndex (runningIndex : UInt32) : Ni :=
  ⟨runningIndex.toNat % 8, Nat.mod_lt _ (by decide)⟩

/-- The counter wraps around at a multiple of the size of the table. -/
theorem arrayIndex_succ (i : UInt32) : arrayIndex (i + 1) = arrayIndex i + 1 := by
  apply Fin.ext
  change (i.toNat + 1) % 2 ^ 32 % 8 = (i.toNat % 8 + 1) % 8
  omega

namespace State

/-- The loop of `lte_dd_ni_interface_fifo_lookup`. -/
def fifoLookupLoop (s : State) : Nat → UInt32 → UInt32 × Option (Ni × Nat)
  | 0, i => (i, none)
  | k + 1, i =>
    let pni := arrayIndex i
    if (s.niInterfaces pni).created ∧ 0 < (s.fifo pni).numElements then
      (i + 1, some (pni, if s.multiPacket then (s.fifo pni).numElements else 1))
    else fifoLookupLoop s k (i + 1)

/-- `lte_dd_ni_interface_fifo_lookup`: the counter, and the interface with the number of packets. -/
def fifoLookup (s : State) (i : UInt32) : UInt32 × Option (Ni × Nat) :=
  if s.niInterfacesCnt = 1 then
    if 0 < (s.fifo 0).numElements then
      (i, some (0, if s.multiPacket then (s.fifo 0).numElements else 1))
    else (i, none)
  else s.fifoLookupLoop 8 i

theorem lookupLoop_arrayIndex (s : State) (k : Nat) (i : UInt32) :
    s.lookupLoop k (arrayIndex i) =
      (arrayIndex (s.fifoLookupLoop k i).1, (s.fifoLookupLoop k i).2) := by
  induction k generalizing i with
  | zero => rfl
  | succ k ih =>
    simp only [lookupLoop, fifoLookupLoop]
    split_ifs
    · rw [arrayIndex_succ]
    · rw [arrayIndex_succ]
    · rw [← ih, arrayIndex_succ]

/-- The function of the model is this one, up to the size of the table. -/
theorem fifoLookup_refines {s : State} {i : UInt32} (h : s.runningIndex = arrayIndex i) :
    s.niInterfaceFifoLookup = (arrayIndex (s.fifoLookup i).1, (s.fifoLookup i).2) := by
  unfold niInterfaceFifoLookup fifoLookup
  rw [h, lookupLoop_arrayIndex]
  split_ifs <;> rfl

end State

variable {tables : List State} {s : State} {pni : Ni}

/-- The results of a sequence of calls, where anything may happen to the table in between. -/
def fifoLookups : List State → UInt32 → List (Option (Ni × Nat))
  | [], _ => []
  | s :: tables, i => (s.fifoLookup i).2 :: fifoLookups tables (s.fifoLookup i).1

/-- The search is work-conserving. -/
theorem fifoLookup_isSome_iff (h : s.Counted) (i : UInt32) :
    (s.fifoLookup i).2.isSome ↔ ∃ pni, s.Waiting pni := by
  have hrefines := State.fifoLookup_refines (s := { s with runningIndex := arrayIndex i }) rfl
  have hcounted : ({ s with runningIndex := arrayIndex i } : State).Counted := ⟨h.lte0, h.cnt⟩
  change _ = (_, (s.fifoLookup i).2) at hrefines
  rcases hresult : (s.fifoLookup i).2 with _ | ⟨pni, num⟩
  · rw [hresult] at hrefines
    refine iff_of_false Bool.false_ne_true ?_
    rintro ⟨pni, hwaiting⟩
    exact State.not_waiting_of_lookup hcounted hrefines pni hwaiting
  · rw [hresult] at hrefines
    have hchosen := State.niInterfaceFifoLookup_some hcounted.lte0 hrefines
    refine iff_of_true rfl ⟨pni, hchosen.created, ?_⟩
    exact List.length_pos_iff.mp (hchosen.pos.trans_le hchosen.le)

theorem fifoLookup_closer (hcnt : s.niInterfacesCnt ≠ 1) (hwaiting : s.Waiting pni) (i : UInt32) :
    (∃ num, (s.fifoLookup i).2 = some (pni, num)) ∨
      (pni - arrayIndex (s.fifoLookup i).1).val < (pni - arrayIndex i).val := by
  have hloop := s.lookupLoop_arrayIndex 8 i
  rw [State.fifoLookup, if_neg hcnt]
  rcases hresult : (s.fifoLookupLoop 8 i).2 with _ | ⟨k, num⟩
  · rw [hresult] at hloop
    exact absurd hwaiting (State.lookupLoop_none hloop pni)
  · rw [hresult] at hloop
    obtain ⟨-, j, -, hk, hindex, hskipped⟩ := (s.lookupLoop_spec hloop).1 _ rfl
    simp only at hk hindex
    by_cases hpni : k = pni
    · exact .inl ⟨num, by rw [hpni]⟩
    have hle : ¬(pni - arrayIndex i).val < j := by
      intro hlt
      refine hskipped _ hlt ?_
      rwa [Fin.ofNat_val_eq_self, add_sub_cancel]
    have hne : (pni - arrayIndex i).val ≠ j := by
      intro heq
      apply hpni
      rw [hk, ← heq, Fin.ofNat_val_eq_self, add_sub_cancel]
    right
    rw [hindex, hk]
    simp only [Fin.val_sub, Fin.val_add, Fin.ofNat] at hle hne ⊢
    omega

/-- The induction is on the calls; the measure is the distance from the counter. -/
theorem mem_fifoLookups (i : UInt32) (h : ∀ s ∈ tables, s.niInterfacesCnt ≠ 1 ∧ s.Waiting pni)
    (hlength : (pni - arrayIndex i).val < tables.length) :
    ∃ num, some (pni, num) ∈ fifoLookups tables i := by
  induction tables generalizing i with
  | nil => exact absurd hlength (Nat.not_lt_zero _)
  | cons s tables ih =>
    obtain ⟨⟨hcnt, hwaiting⟩, htables⟩ := List.forall_mem_cons.mp h
    rcases fifoLookup_closer hcnt hwaiting i with ⟨num, hfound⟩ | hcloser
    · exact ⟨num, hfound ▸ List.mem_cons_self⟩
    · rw [List.length_cons] at hlength
      obtain ⟨num, hmem⟩ := ih (s.fifoLookup i).1 htables (by omega)
      exact ⟨num, List.mem_cons_of_mem _ hmem⟩

/-- A call returns an interface exactly if one that is created has packets, and, with more than
one interface, one that keeps having packets is returned by one of any eight calls in a row,
whatever the counter is and whatever happens to the table in between. -/
theorem fifo_lookup_fair (tables : List State) (hcounted : ∀ s ∈ tables, s.Counted) :
    (∀ s ∈ tables, ∀ i, (s.fifoLookup i).2.isSome ↔
        ∃ pni, (s.niInterfaces pni).created = true ∧ 0 < (s.fifo pni).numElements) ∧
      ∀ pni i, tables.length = 8 →
        (∀ s ∈ tables, 1 < s.niInterfacesCnt ∧ (s.niInterfaces pni).created = true ∧
          0 < (s.fifo pni).numElements) →
        ∃ num, some (pni, num) ∈ fifoLookups tables i := by
  constructor
  · intro s hs i
    simp only [← State.waiting_iff]
    exact fifoLookup_isSome_iff (hcounted s hs) i
  · intro pni i hlength h
    refine mem_fifoLookups i (fun s hs => ?_) (by rw [hlength]; exact (pni - arrayIndex i).isLt)
    obtain ⟨hcnt, hwaiting⟩ := h s hs
    exact ⟨hcnt.ne', (State.waiting_iff s pni).mpr hwaiting⟩

/-- The driver with two interfaces that have a packet each. -/
def twoWaiting : State :=
  (State.init.createNetIface.txDataStart 0 ⟨1, 0, 60, 5⟩).txDataStart 1 ⟨2, 0, 60, 6⟩

theorem fifo_lookup_fair_two :
    ∃ num, some ((1 : Ni), num) ∈ fifoLookups (List.replicate 8 twoWaiting) 0xFFFFFFFF := by
  have hcounted : twoWaiting.Counted := ⟨by decide, by decide⟩
  refine (fifo_lookup_fair (List.replicate 8 twoWaiting) ?_).2 1 _ List.length_replicate ?_
  · intro s hs
    rwa [List.eq_of_mem_replicate hs]
  · intro s hs
    rw [List.eq_of_mem_replicate hs]
    decide

end LteModemKernel.DataDriver
