import LteModemKernel.Ashmem.Pinning

/-!
# No memory for a new range

`ashmem_unpin` deletes the ranges that overlap the pages before it allocates the range that takes
their place, and `ashmem_pin` does not look at the result of `range_alloc`.  Without memory the
first leaves pages pinned that were unpinned, and the second pins the rest of a range behind the
pages.

Main results:

- Theorem `out_of_memory_harmless`: requests that lose nothing without memory.
- Theorem `out_of_memory_pins_pages`: two requests that do.
-/

namespace LteModemKernel.Ashmem

open Lib

variable {s : State}

/-- The conditions of `requestGuard`, with memory or without. -/
def memGuard (s : State) (label : Bool × Label) : Prop :=
  requestGuard s label.2

instance (s : State) (label : Bool × Label) : Decidable (memGuard s label) :=
  inferInstanceAs (Decidable (requestGuard _ _))

theorem State.sound_of_memReachable (hs : memSystem.ReachableUnder memGuard s) : s.Sound False := by
  refine TransitionSystem.ReachableUnder.invariant (P := State.Sound False) ?_ ?_ hs
  · rintro s rfl
    exact sound_init
  · rintro s label s' h hguard ⟨ret, hexec⟩
    exact h.execMem False.elim hguard hexec

/-- In every run with memory or without, under the conditions of `requestGuard`, an accepted
request returns without memory.  An unpin request for pages none of which is unpinned gives
`-ENOMEM` and changes nothing.  After a pin request that is not in the middle of an unpinned range,
every other page is in a range with a mark exactly if it was before. -/
theorem out_of_memory_harmless (hs : memSystem.ReachableUnder memGuard s) (asma : Nat) (cmd : Cmd)
    (offset len : UInt32) (hguard : requestGuard s (.pinUnpin asma cmd offset len))
    (haccepts : Accepts (s.area asma) offset len) :
    ∃ s' ret, s.execMem false (.pinUnpin asma cmd offset len) = some (s', ret) ∧
      (cmd = .unpin → (∀ page, Requested (s.area asma).size offset len page →
          page ∉ s.unpinnedPages asma) → ret = -enomem ∧ s' = s) ∧
      (cmd = .pin → (∀ range ∈ (s.area asma).unpinned,
          ¬∀ page, Requested (s.area asma).size offset len page →
            range.pgstart.toNat < page ∧ page < range.pgend.toNat) →
        ∀ a mark page, (a = asma → ¬Requested (s.area asma).size offset len page) →
          (Covers (s'.area a).unpinned mark page ↔ Covers (s.area a).unpinned mark page)) := by
  have hshape := (State.sound_of_memReachable hs).shape asma
  rcases State.pinUnpin_cases false hguard with
    ⟨-, hrefused⟩ | ⟨pgstart, pgend, heq, -, hle, hpages⟩
  · exact absurd haccepts hrefused
  simp only [State.execMem, heq, ← hpages]
  cases cmd with
  | getPinStatus => exact ⟨s, _, rfl, by simp, by simp⟩
  | unpin =>
    rcases unpinRanges_spec false asma s.lru hshape hle (Nat.lt_succ_self _)
      (fun hmark => absurd hmark Bool.false_ne_true) with ⟨ranges', lru', ret, hunpin, -⟩
    simp only [State.onPages, hunpin, Option.map_some]
    refine ⟨_, _, rfl, fun _ hpinned => ?_, by simp⟩
    -- the walk meets no range
    have hspec := walk_spec hshape hle
    rw [unpinRanges] at hunpin
    generalize walk pgstart pgend (s.area asma).unpinned = w at hspec hunpin
    cases w with
    | held =>
      rcases hspec with ⟨r, hr, hstart, hend⟩
      exact absurd ⟨r, hr, hstart, hle.trans hend⟩ (hpinned _ ⟨le_rfl, hle⟩)
    | overlap before range behind =>
      rcases hspec with ⟨hranges, hstart, hend⟩
      have hmem : range ∈ (s.area asma).unpinned :=
        hranges ▸ List.mem_append_right _ List.mem_cons_self
      have hne := hshape.nonempty range hmem
      exact absurd ⟨range, hmem, le_max_left _ _, max_le hne hend⟩
        (hpinned _ ⟨le_max_right range.pgstart.toNat _, max_le hstart hle⟩)
    | place before behind =>
      cases hunpin
      rw [← hspec.1]
      exact ⟨rfl, congrArg (State.mk · s.lru) (Function.update_eq_self asma s.area)⟩
  | pin =>
    refine ⟨_, _, rfl, by simp, fun _ hinside a mark page hout => ?_⟩
    by_cases ha : a = asma
    · rcases pinRanges_mem false asma hshape hle with
        ⟨last, rfl | ⟨-, r, hr, hstart, hend, -⟩, hpin⟩
      · rw [ha, State.setArea_area_self, hpin, (pinRanges_spec asma s.lru hshape hle).1.covers_iff,
          and_iff_left (hout ha)]
      · refine absurd (fun page hin => ?_) (hinside r hr)
        exact ⟨(UInt32.lt_iff_toNat_lt.mp hstart).trans_le hin.1,
          hin.2.trans_lt (UInt32.lt_iff_toNat_lt.mp hend)⟩
    · rw [State.setArea_area_of_ne ha]

/-- Page 0 of an area of four pages is unpinned, and pages 2 and 3 are to be. -/
theorem out_of_memory_harmless_apart :
    ∃ s, memSystem.ReachableUnder memGuard s ∧ (s.area 0).unpinned = [⟨0, 0, 0, false⟩] ∧
      s.execMem false (.pinUnpin 0 .unpin 0x2000 0x2000) = some (s, -enomem) := by
  have hstart : memSystem.ReachableUnder memGuard .init := .init rfl
  rcases hstart.exists_observed_of (fun _ _ _ => TransitionSystem.exists_of_map_fst)
    (P := fun s : State => (s.area 0).unpinned = [⟨0, 0, 0, false⟩] ∧ (s.area 0).file = true ∧
      (s.area 0).size = 0x4000)
    [(true, .setSize 0 0x4000), (true, .mmap 0), (true, .pinUnpin 0 .unpin 0 0x1000)]
    (by decide +kernel) with ⟨s, hs, hranges, hfile, hsize⟩
  rcases out_of_memory_harmless hs 0 .unpin 0x2000 0x2000 (by simp [requestGuard, hsize])
    (by simp [Accepts, hfile, hsize]) with ⟨s', ret, hexec, hunpin, -⟩
  have hpinned (page) (hpage : Requested (s.area 0).size 0x2000 0x2000 page) :
      page ∉ s.unpinnedPages 0 := fun hmem => by
    rw [State.mem_unpinnedPages, hranges, unpinned_singleton] at hmem
    have hstart : 0x2000 ≤ page * 4096 := hpage.1
    have hend : page ≤ 0 := hmem.2
    omega
  rcases hunpin rfl hpinned with ⟨rfl, rfl⟩
  exact ⟨s', hs, hranges, hexec⟩

/-- Without memory, page 0 of an area is pinned by a request to unpin pages 0 and 1, and pages 2
and 3 are pinned by a request to pin page 1. -/
theorem out_of_memory_pins_pages :
    (∃ s, memSystem.Reachable s ∧ (s.area 0).unpinned = [⟨0, 0, 0, false⟩] ∧
      (s.execMem false (.pinUnpin 0 .unpin 0 0x2000)).map
        (fun r => ((r.1.area 0).unpinned, r.2)) = some ([], -enomem)) ∧
    ∃ s, memSystem.Reachable s ∧ (s.area 0).unpinned = [⟨0, 0, 3, false⟩] ∧
      (s.execMem false (.pinUnpin 0 .pin 0x1000 0x1000)).map
        (fun r => ((r.1.area 0).unpinned, r.2)) = some ([⟨0, 0, 0, false⟩], 0) := by
  have hstart : memSystem.Reachable .init := .start rfl
  constructor
  · exact TransitionSystem.ReachableUnder.exists_observed_of
      (fun _ _ _ => TransitionSystem.exists_of_map_fst)
      [(true, .setSize 0 0x4000), (true, .mmap 0), (true, .pinUnpin 0 .unpin 0 0x1000)]
      hstart ⟨.trivial _ _, by decide +kernel⟩
  · exact TransitionSystem.ReachableUnder.exists_observed_of
      (fun _ _ _ => TransitionSystem.exists_of_map_fst)
      [(true, .setSize 0 0x4000), (true, .mmap 0), (true, .pinUnpin 0 .unpin 0 0)]
      hstart ⟨.trivial _ _, by decide +kernel⟩

end LteModemKernel.Ashmem
