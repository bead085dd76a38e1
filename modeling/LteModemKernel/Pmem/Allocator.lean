import LteModemKernel.Pmem.Tiles

/-!
# The PMEM allocator

The blocks of a region tile it, the live allocations are the blocks that are marked as allocated, an
allocation takes a smallest sufficient block, and freeing everything leads back to the blocks of
`pmem_setup`.

There is one entry that `pmem_free` reads although it is not in the bitmap.  The buddy of the last
block of a region may be the first page behind the region, and `pmem_free` takes the word behind
the bitmap for its entry.  If it looks like a free block of the same order, the two are merged into
a block that reaches out of the region.

Main results:

- Theorem `pmemOrder_le_iff`: the order of `pmem_order` is the smallest sufficient one.
- Theorem `pmem_buddy_allocator`: the allocator in every run in which the word behind the bitmap
  does not look like a free buddy when `pmem_free` is called.
- Theorem `pmem_bitmap_bounds`: the calls stay in the bitmap in every run in which the last pages
  do not all become free.
- Theorem `block_behind_region`: a region of one page is merged with a page behind it, which is
  then handed out.
-/

namespace LteModemKernel.Pmem

open Lib List UInt32 Bitmap Nat State TransitionSystem

/-! ## Orders -/

theorem orderLoop_le_iff {len o : Nat} {rounds i : Nat} (hbefore : ∀ j < i, len >>> j ≠ 0)
    (ho : o < i + rounds) : orderLoop len rounds i ≤ o ↔ len >>> o = 0 := by
  induction rounds generalizing i with
  | zero => exact iff_of_false (not_le.mpr ho) (hbefore o ho)
  | succ rounds ih =>
    rw [orderLoop]
    split
    · rename_i hzero
      constructor
      · intro hle
        rw [← Nat.add_sub_cancel' hle, Nat.shiftRight_add, hzero, Nat.zero_shiftRight]
      · intro ho'
        by_contra hlt
        exact hbefore o (not_le.mp hlt) ho'
    · rename_i hne
      refine ih (fun j hj => ?_) (by omega)
      rcases Nat.lt_or_eq_of_le (Nat.lt_succ_iff.mp hj) with hlt | rfl
      · exact hbefore j hlt
      · exact hne

theorem orderLoop_le {len : Nat} (rounds i : Nat) : orderLoop len rounds i ≤ i + rounds := by
  induction rounds generalizing i with
  | zero => exact le_rfl
  | succ rounds ih =>
    rw [orderLoop]
    split
    · omega
    · exact (ih (i + 1)).trans (by omega)

/-- A block is long enough exactly if its order is not below the one of `pmem_order`.  For lengths
in the last page of the address space the sum in `pmem_order` wraps, and the order is 32. -/
theorem pmemOrder_le_iff {len : UInt32} {o : Nat} (hlen : len ≠ 0) (ho : o < 20) :
    pmemOrder len ≤ o ↔ len.toNat ≤ 2 ^ o * 4096 := by
  have hpage : (4096 : UInt32).toNat = 4096 := rfl
  have hone : (1 : UInt32).toNat = 1 := rfl
  have hpos : len.toNat ≠ 0 := fun hzero => hlen (UInt32.toNat_inj.mp hzero)
  have hlt := len.toNat_lt
  have hbound : 2 ^ o ≤ 2 ^ 19 := Nat.pow_le_pow_right (by decide) (by omega)
  have hpages : ((len + 4096 - 1) / 4096 - 1).toNat =
      if len.toNat ≤ 2 ^ 32 - 4096 then (len.toNat - 1) / 4096 else 2 ^ 32 - 1 := by
    rw [UInt32.toNat_sub, UInt32.toNat_div, UInt32.toNat_sub, UInt32.toNat_add, hpage, hone]
    split
    · omega
    · omega
  rw [pmemOrder, orderLoop_le_iff (fun j hj => absurd hj (not_lt_zero j)) (by omega), hpages,
    Nat.shiftRight_eq_div_pow, Nat.div_eq_zero_iff_lt (Nat.two_pow_pos o)]
  split
  · omega
  · omega

/-! ## The invariant -/

/-- The blocks that `PMEM_NEXT_INDEX` visits. -/
def State.IsBlock (s : State) (p k : Nat) : Prop :=
  p ∈ s.heads ∧ s.bitmap.order p = k

/-- The blocks `blk` tile the region, without two free buddies of one order, and the live
allocations are those that are marked as allocated, and long enough. -/
structure State.Sound (s : State) (blk : Nat → Nat → Prop) : Prop where
  tiled : Tiled s.numEntries s.bitmap blk fun _ => False
  live_iff : ∀ p, p ∈ s.live.map Prod.fst ↔ p < s.numEntries ∧ (s.bitmap p).allocated = true
  live_nodup : (s.live.map Prod.fst).Nodup
  live_len : ∀ a ∈ s.live, a.2.toNat ≤ 2 ^ s.bitmap.order a.1 * 4096

namespace State

variable {s s' : State} {blk : Nat → Nat → Prop} {len : UInt32} {index p k : Nat} {bitmap : Bitmap}

theorem Sound.isBlock_iff (h : s.Sound blk) : s.IsBlock p k ↔ blk p k := by
  unfold IsBlock heads
  rw [h.tiled.walk_iff]
  constructor
  · rintro ⟨⟨l, hp⟩, rfl⟩
    rw [h.tiled.order_eq hp]
    exact hp
  · intro hp
    exact ⟨⟨k, hp⟩, h.tiled.order_eq hp⟩

theorem sound_setup (size : UInt32) (memory : Bitmap) : ∃ blk, (setup size memory).Sound blk := by
  have hsmall : (size / 4096).toNat < 2 ^ 20 := by
    have hpage : (4096 : UInt32).toNat = 4096 := rfl
    have hlt := size.toNat_lt
    rw [UInt32.toNat_div, hpage]
    omega
  rcases tiled_pmemSetup memory hsmall with ⟨blk, htiled, -, hfree, -⟩
  refine ⟨blk, htiled, ?_, nodup_nil, nofun⟩
  intro p
  refine iff_of_false not_mem_nil ?_
  rintro ⟨hp, hallocated⟩
  have hfree' := hfree p hp
  cases hfree'.symm.trans hallocated

/-! ## Allocating -/

/-- What an allocation of `len` bytes finds: a smallest free block that is long enough. -/
structure Suits (s : State) (blk : Nat → Nat → Prop) (len : UInt32) (p : Nat) : Prop where
  isFree : (s.bitmap p).allocated = false
  block : ∃ k, blk p k ∧ len.toNat ≤ 2 ^ k * 4096 ∧
    ∀ q l, blk q l → (s.bitmap q).allocated = false → len.toNat ≤ 2 ^ l * 4096 → k ≤ l

/-- The block that was cut to the order of `pmem_order` becomes a live allocation. -/
theorem Sound.taken {best : Nat} {blk' : Nat → Nat → Prop} (h : s.Sound blk) (hlen : len ≠ 0)
    (htiled : Tiled s.numEntries (bitmap.setAllocated best true) blk' fun _ => False)
    (hbest : blk' best (pmemOrder len)) (hfree : (s.bitmap best).allocated = false)
    (hallocated : ∀ p, (bitmap p).allocated = (s.bitmap p).allocated)
    (hkept : ∀ p < s.numEntries, (s.bitmap p).allocated = true →
      bitmap.order p = s.bitmap.order p) :
    State.Sound { s with
      bitmap := bitmap.setAllocated best true, live := s.live ++ [(best, len)] } blk' where
  tiled := htiled
  live_iff p := by
    simp only [map_append, mem_append, map_cons, map_nil, mem_singleton]
    by_cases hp : p = best
    · subst hp
      rw [setAllocated_allocated_self]
      exact iff_of_true (.inr rfl) ⟨htiled.head_lt hbest, rfl⟩
    · rw [setAllocated_allocated_of_ne hp, hallocated, ← h.live_iff]
      exact or_iff_left hp
  live_nodup := by
    simp only [map_append, map_cons, map_nil]
    refine nodup_append.mpr ⟨h.live_nodup, nodup_singleton _, ?_⟩
    intro p hp q hq heq
    cases mem_singleton.mp hq
    have hlive := ((h.live_iff p).mp hp).2
    rw [heq] at hlive
    cases hfree.symm.trans hlive
  live_len a ha := by
    simp only [setAllocated_order]
    rcases mem_append.mp ha with ha | ha
    · rcases (h.live_iff a.1).mp (mem_map_of_mem ha) with ⟨hlt, hlive⟩
      rw [hkept a.1 hlt hlive]
      exact h.live_len a ha
    · cases mem_singleton.mp ha
      have horder : bitmap.order best = pmemOrder len := by
        rw [← htiled.order_eq hbest, setAllocated_order]
      rw [horder]
      exact (pmemOrder_le_iff hlen (htiled.order_lt hbest)).mp le_rfl

theorem bestFitAccesses_lt {numEntries order fuel curr : Nat} :
    ∀ i ∈ bestFitAccesses bitmap numEntries order fuel curr, i < numEntries := by
  induction fuel generalizing curr with
  | zero => nofun
  | succ fuel ih =>
    rw [bestFitAccesses]
    split
    · rename_i hlt
      refine forall_mem_cons.mpr ⟨hlt, ?_⟩
      split
      · nofun
      · exact ih
    · nofun

/-- `pmem_allocate` stays in the bitmap.  It fails if no free block is long enough; otherwise it
takes one that suits. -/
theorem Sound.pmemAllocate (h : s.Sound blk) (hlen : len ≠ 0) :
    (∀ i ∈ s.accesses (.allocate len), i < s.numEntries) ∧
    ((pmemAllocate s.numEntries s.bitmap len = none ∧
        ∀ p k, blk p k → (s.bitmap p).allocated = false → ¬len.toNat ≤ 2 ^ k * 4096) ∨
      ∃ best bitmap blk', pmemAllocate s.numEntries s.bitmap len = some (best, bitmap) ∧
        s.Suits blk len best ∧
        State.Sound { s with bitmap, live := s.live ++ [(best, len)] } blk') := by
  have hmaxOrder : ¬pmemMaxOrder < pmemOrder len := by
    have hle : pmemOrder len ≤ 0 + 32 := orderLoop_le 32 0
    rw [pmemMaxOrder]
    omega
  have hfit : Tiled.Best s.bitmap blk (pmemOrder len) s.numEntries
      (bestFit s.bitmap s.numEntries (pmemOrder len) s.numEntries 0 none) := h.tiled.bestFit
  have hleast {q l : Nat} (hq : blk q l) (hqfree : (s.bitmap q).allocated = false)
      (hlong : len.toNat ≤ 2 ^ l * 4096) := hfit.least q l hq (h.tiled.head_lt hq) hqfree
    ((pmemOrder_le_iff hlen (h.tiled.order_lt hq)).mpr hlong)
  simp only [Pmem.pmemAllocate, accesses, if_neg hmaxOrder, forall_mem_append]
  generalize bestFit s.bitmap s.numEntries (pmemOrder len) s.numEntries 0 none = best
    at hfit hleast
  cases best with
  | none =>
    refine ⟨⟨bestFitAccesses_lt, nofun⟩, .inl ⟨rfl, fun p k hp hfree hlong => ?_⟩⟩
    rcases hleast hp hfree hlong with ⟨b, hb, -⟩
    cases hb
  | some best =>
    rcases hfit.fits best rfl with ⟨⟨k, hk⟩, hfree, horder⟩
    have hord := h.tiled.order_eq hk
    rw [hord] at horder
    rcases (h.tiled.mono fun _ => False.elim).partition hk hfree horder hord.ge with
      ⟨blk', htiled, hbest, hallocated, hkept, haccesses⟩
    refine ⟨⟨bestFitAccesses_lt, haccesses⟩, .inr ⟨best, _, blk', rfl, ⟨hfree, k, hk, ?_, ?_⟩, ?_⟩⟩
    · exact (pmemOrder_le_iff hlen (h.tiled.order_lt hk)).mp horder
    · intro q l hq hqfree hlong
      rcases hleast hq hqfree hlong with ⟨b, ⟨⟩, hle⟩
      exact hord ▸ hle
    · exact h.taken hlen (htiled.mark (fun _ => ⟨_, hbest⟩) nofun fun _ hne heq => absurd heq hne)
        hbest hfree hallocated hkept

/-! ## Freeing -/

/-- The word behind the bitmap does not look like a free buddy when a block is freed. -/
def freeGuard (s : State) : Label → Prop
  | .free _ => ¬Tiled.BehindLooksFree s.numEntries s.bitmap
  | _ => True

instance (s : State) (label : Label) : Decidable (freeGuard s label) := by
  cases label <;> unfold freeGuard <;> infer_instance

/-- A block of the last `2 ^ k` pages, where this is the largest power of two that divides the
number of pages, is freed only while another allocation in these pages is live. -/
def lastGuard (s : State) : Label → Prop
  | .free index => Tiled.InLast s.numEntries index →
      ∃ a ∈ s.live, a.1 ≠ index ∧ Tiled.InLast s.numEntries a.1
  | _ => True

instance (s : State) (label : Label) : Decidable (lastGuard s label) := by
  cases label <;> unfold lastGuard <;> infer_instance

/-- `pmem_free` of a live allocation returns, and stays in the bitmap if the last pages do not all
become free. -/
theorem Sound.pmemFree (h : s.Sound blk) (hindex : index ∈ s.live.map Prod.fst)
    (hguard : freeGuard s (.free index) ∨ lastGuard s (.free index)) :
    ∃ bitmap blk', pmemFree s.numEntries s.bitmap index = some bitmap ∧
      (lastGuard s (.free index) → ∀ i ∈ s.accesses (.free index), i < s.numEntries) ∧
      State.Sound { s with bitmap, live := s.live.filter fun a => a.1 ≠ index } blk' := by
  rcases (h.live_iff index).mp hindex with ⟨hlt, hallocated⟩
  rcases h.tiled.stale hlt hallocated with ⟨k, hk⟩
  have hbehind (hfree : freeGuard s (.free index)) :
      ¬Tiled.BehindLooksFree s.numEntries (s.bitmap.setAllocated index false) := by
    unfold Tiled.BehindLooksFree
    rw [setAllocated_allocated_of_ne hlt.ne', setAllocated_order]
    exact hfree
  have hheld (hlast : lastGuard s (.free index)) :
      Tiled.Held s.numEntries (s.bitmap.setAllocated index false) index k := by
    by_cases hin : Tiled.InLast s.numEntries index
    · rcases hlast hin with ⟨a, ha, hne, hin'⟩
      rcases (h.live_iff a.1).mp (mem_map_of_mem ha) with ⟨hlt', hallocated'⟩
      refine .inr ⟨a.1, hlt', hin', ?_⟩
      rw [setAllocated_allocated_of_ne hne, hallocated']
    · exact .inl ⟨index, inBlock_self index k, hin⟩
  have hfuel : 20 ≤ 128 + k := by omega
  have hdropped : Tiled s.numEntries (s.bitmap.setAllocated index false) _ (· = index) :=
    h.tiled.mark nofun (fun _ => rfl) fun _ _ => False.elim
  rcases hdropped.freeLoop hk setAllocated_allocated_self hfuel (hguard.imp hbehind hheld) with
    ⟨bitmap, blk', hloop, htiled, hallocated', hkept, haccesses⟩
  refine ⟨bitmap, blk', hloop, fun hlast => forall_mem_cons.mpr ⟨hlt, haccesses (hheld hlast)⟩,
    htiled, ?_, ?_, ?_⟩
  · intro p
    simp only [hallocated', mem_map, mem_filter, decide_eq_true_eq]
    by_cases hp : p = index
    · subst hp
      rw [setAllocated_allocated_self]
      refine iff_of_false ?_ (fun hfalse => Bool.false_ne_true hfalse.2)
      rintro ⟨a, ⟨-, hne⟩, heq⟩
      exact hne heq
    · rw [setAllocated_allocated_of_ne hp, ← h.live_iff, mem_map]
      constructor
      · rintro ⟨a, ⟨ha, -⟩, heq⟩
        exact ⟨a, ha, heq⟩
      · rintro ⟨a, ha, rfl⟩
        exact ⟨a, ⟨ha, hp⟩, rfl⟩
  · exact h.live_nodup.sublist (filter_sublist.map _)
  · intro a ha
    rcases mem_filter.mp ha with ⟨hmem, hne⟩
    rw [decide_eq_true_eq] at hne
    have hlive := ((h.live_iff a.1).mp (mem_map_of_mem hmem)).2
    have horder : bitmap.order a.1 = s.bitmap.order a.1 := by
      rw [hkept a.1 (by rw [setAllocated_allocated_of_ne hne, hlive]),
        setAllocated_order]
    rw [horder]
    exact h.live_len a hmem

theorem Sound.exec_free (h : s.Sound blk) (hindex : index ∈ s.live.map Prod.fst)
    (hguard : freeGuard s (.free index) ∨ lastGuard s (.free index)) :
    (lastGuard s (.free index) → ∀ i ∈ s.accesses (.free index), i < s.numEntries) ∧
      ∃ s', s.exec (.free index) = some (s', 0) := by
  rcases h.pmemFree hindex hguard with ⟨bitmap, blk', hfree, haccesses, -⟩
  have hcontains : (s.live.map Prod.fst).contains index = true := by
    rw [contains_eq_mem, decide_eq_true_eq]
    exact hindex
  refine ⟨haccesses, { s with bitmap, live := s.live.filter fun a => a.1 ≠ index }, ?_⟩
  rw [exec, if_pos hcontains, hfree, Option.map_some]

/-! ## Runs -/

theorem Sound.exec {label : Label} {ret : Int} (h : s.Sound blk)
    (hguard : freeGuard s label ∨ lastGuard s label)
    (hexec : s.exec label = some (s', ret)) : ∃ blk', s'.Sound blk' := by
  cases label with
  | allocate len =>
    simp only [State.exec] at hexec
    split at hexec
    · cases hexec
    · rename_i hlen
      rcases (h.pmemAllocate hlen).2 with ⟨hnone, -⟩ | ⟨best, bitmap, blk', hsome, -, hsound⟩
      · rw [hnone] at hexec
        cases hexec
        exact ⟨blk, h⟩
      · rw [hsome] at hexec
        cases hexec
        exact ⟨blk', hsound⟩
  | free index =>
    simp only [State.exec] at hexec
    split at hexec
    · rename_i hindex
      rw [contains_eq_mem, decide_eq_true_eq] at hindex
      rcases h.pmemFree hindex hguard with ⟨bitmap, blk', hfree, -, hsound⟩
      rw [hfree] at hexec
      cases hexec
      exact ⟨blk', hsound⟩
    · cases hexec
  | other index bits =>
    simp only [State.exec] at hexec
    split at hexec
    · rename_i hle
      cases hexec
      have hsame {p : Nat} (hp : p < s.numEntries) :
          Function.update s.bitmap index bits p = s.bitmap p :=
        Function.update_of_ne (by omega) _ _
      have horder {p : Nat} (hp : p < s.numEntries) :
          order (Function.update s.bitmap index bits) p = s.bitmap.order p := by
        rw [order, hsame hp, order]
      refine ⟨blk, ⟨h.tiled.small, h.tiled.tiling, ?_, ?_, ?_⟩, ?_, h.live_nodup, ?_⟩
      · intro p k hp
        rw [horder (h.tiled.head_lt hp)]
        exact h.tiled.order_eq hp
      · intro p hp hallocated
        simp only [hsame hp] at hallocated
        exact h.tiled.stale hp hallocated
      · intro p k hp hp' hfree hfree'
        simp only [hsame (h.tiled.head_lt hp)] at hfree
        simp only [hsame (h.tiled.head_lt hp')] at hfree'
        exact h.tiled.merged hp hp' hfree hfree'
      · intro p
        rw [h.live_iff]
        refine and_congr_right fun hp => ?_
        simp [hsame hp]
      · intro a ha
        have hlt := ((h.live_iff a.1).mp (mem_map_of_mem ha)).1
        simp only [horder hlt]
        exact h.live_len a ha
    · cases hexec

theorem sound_of_reachable
    (hs : system.ReachableUnder (fun s label => freeGuard s label ∨ lastGuard s label) s) :
    ∃ blk, s.Sound blk := by
  refine ReachableUnder.invariant (P := fun s => ∃ blk, s.Sound blk) ?_ ?_ hs
  · rintro s ⟨size, memory, -, rfl⟩
    exact sound_setup size memory
  · rintro s label s' ⟨blk, h⟩ hguard ⟨ret, hexec⟩
    exact h.exec hguard hexec

theorem Sound.blocks_eq (h : s.Sound blk) (hlive : s.live = []) (memory : Bitmap) :
    s.blocks = blocks ⟨s.numEntries, pmemSetup s.numEntries memory, []⟩ := by
  have hfree (p : Nat) (hp : p < s.numEntries) : (s.bitmap p).allocated = false := by
    rw [← Bool.not_eq_true]
    intro hallocated
    have hmem := (h.live_iff p).mpr ⟨hp, hallocated⟩
    rw [hlive] at hmem
    cases hmem
  have hmerged (p k : Nat) (hp : blk p k) : ¬blk (buddy p k) k := fun hp' =>
    (h.tiled.merged hp hp' (hfree p (h.tiled.head_lt hp))
      (hfree _ (h.tiled.head_lt hp'))).elim (fun h => h) fun h => h
  rcases tiled_pmemSetup memory h.tiled.small with ⟨blk', htiled, hmax, -⟩
  have hsame := h.tiled.tiling.eq_of_merged hmerged htiled.tiling hmax
  have horder (p k : Nat) (hp : blk p k) : (pmemSetup s.numEntries memory).order p = k :=
    htiled.order_eq ((hsame p k).mp hp)
  have hheads : heads ⟨s.numEntries, pmemSetup s.numEntries memory, []⟩ = s.heads :=
    h.tiled.walk_eq horder h.tiled.start
  unfold blocks
  rw [hheads]
  apply map_congr_left
  intro p hp
  rcases h.tiled.walk_iff.mp hp with ⟨k, hk⟩
  rw [h.tiled.order_eq hk, horder p k hk]

end State

/-- The live allocations: the blocks that are marked as allocated, without a common page, and long
enough. -/
structure LiveExact (s : State) : Prop where
  mem_iff : ∀ p, p ∈ s.live.map Prod.fst ↔ p ∈ s.heads ∧ (s.bitmap p).allocated = true
  disjoint : s.live.Pairwise fun a b =>
    ∀ x, ¬(InBlock a.1 (s.bitmap.order a.1) x ∧ InBlock b.1 (s.bitmap.order b.1) x)
  long : ∀ a ∈ s.live, a.2.toNat ≤ 2 ^ s.bitmap.order a.1 * 4096

theorem State.Sound.liveExact {s : State} {blk : Nat → Nat → Prop} (h : s.Sound blk) :
    LiveExact s where
  mem_iff p := by
    rw [h.live_iff, heads, h.tiled.walk_iff]
    constructor
    · rintro ⟨hp, hallocated⟩
      exact ⟨h.tiled.stale hp hallocated, hallocated⟩
    · rintro ⟨⟨k, hk⟩, hallocated⟩
      exact ⟨h.tiled.head_lt hk, hallocated⟩
  disjoint := by
    have hblock (a : Nat × UInt32) (ha : a ∈ s.live) : blk a.1 (s.bitmap.order a.1) := by
      rcases (h.live_iff a.1).mp (mem_map_of_mem ha) with ⟨hp, hallocated⟩
      rcases h.tiled.stale hp hallocated with ⟨k, hk⟩
      rw [h.tiled.order_eq hk]
      exact hk
    have hnodup : s.live.Pairwise fun a b => a.1 ≠ b.1 := pairwise_map.mp h.live_nodup
    refine hnodup.imp_of_mem ?_
    intro a b ha hb hne x hx
    exact hne (h.tiled.tiling.apart (hblock a ha) (hblock b hb) hx.1 hx.2).1
  long := h.live_len

/-- A free block that is long enough for `len` bytes. -/
def State.Sufficient (s : State) (len : UInt32) (p k : Nat) : Prop :=
  s.IsBlock p k ∧ (s.bitmap p).allocated = false ∧ len.toNat ≤ 2 ^ k * 4096

/-- In every run in which the word behind the bitmap does not look like a free buddy when
`pmem_free` is called: the blocks visited from 0 on tile the region; the live allocations are
those that are marked as allocated, disjoint and long enough; an allocation of a positive length
succeeds exactly if a free block is long enough, and takes a smallest one of these; freeing a live
allocation returns; and when nothing is allocated the blocks are those of `pmem_setup`. -/
theorem pmem_buddy_allocator {s : State} (hs : system.ReachableUnder freeGuard s) :
    Tiling s.IsBlock (fun x => x < s.numEntries) ∧ LiveExact s ∧
      (∀ len, len ≠ 0 → ∃ s' ret, s.exec (.allocate len) = some (s', ret) ∧
        (ret ≠ -1 ↔ ∃ p k, s.Sufficient len p k) ∧
        ∀ p : Nat, ret = p → (∃ k, s.Sufficient len p k ∧
            ∀ q l, s.Sufficient len q l → k ≤ l) ∧
          s'.live = s.live ++ [(p, len)]) ∧
      (∀ index ∈ s.live.map Prod.fst, freeGuard s (.free index) →
        ∃ s', s.exec (.free index) = some (s', 0)) ∧
      (s.live = [] → ∀ memory,
        s.blocks = blocks ⟨s.numEntries, pmemSetup s.numEntries memory, []⟩) := by
  rcases sound_of_reachable (hs.mono fun _ _ => .inl) with ⟨blk, h⟩
  have hsufficient (len : UInt32) (p k : Nat) : s.Sufficient len p k ↔
      blk p k ∧ (s.bitmap p).allocated = false ∧ len.toNat ≤ 2 ^ k * 4096 := by
    rw [State.Sufficient, h.isBlock_iff]
  refine ⟨h.tiled.tiling.congr (fun p k => h.isBlock_iff) fun _ => .rfl, h.liveExact, ?_, ?_,
    fun hlive memory => h.blocks_eq hlive memory⟩
  · intro len hlen
    simp only [exec, if_neg hlen, hsufficient]
    rcases (h.pmemAllocate hlen).2 with ⟨hnone, hall⟩ | ⟨best, bitmap, blk', hsome, hsuits, -⟩
    · rw [hnone]
      refine ⟨s, -1, rfl, iff_of_false (fun hne => hne rfl) ?_, fun p hp => ?_⟩
      · rintro ⟨p, k, hp, hfree, hlong⟩
        exact hall p k hp hfree hlong
      · omega
    · rw [hsome]
      rcases hsuits with ⟨hfree, k, hk, hlong, hmin⟩
      refine ⟨_, _, rfl, iff_of_true (by omega) ⟨best, k, hk, hfree, hlong⟩, fun p hp => ?_⟩
      cases Int.ofNat_inj.mp hp
      exact ⟨⟨k, ⟨hk, hfree, hlong⟩, fun q l hq => hmin q l hq.1 hq.2.1 hq.2.2⟩, rfl⟩
  · intro index hindex hguard
    exact (h.exec_free hindex (.inl hguard)).2

/-- The word behind the bitmap reads as an allocated entry. -/
def markedBehind : Bitmap :=
  fun _ => ⟨true, 0⟩

/-- A region of six pages: blocks of four and two pages, one allocation of one page, and freeing it
again. -/
theorem pmem_buddy_allocator_six :
    ∃ s, system.ReachableUnder freeGuard s ∧ s.live = [] ∧
      s.blocks = blocks ⟨s.numEntries, pmemSetup s.numEntries markedBehind, []⟩ ∧
      s.blocks = [(0, 2), (4, 1)] := by
  have hstart : system.ReachableUnder freeGuard (setup 0x6000 markedBehind) :=
    .init ⟨0x6000, markedBehind, by decide, rfl⟩
  rcases hstart.exists_observed_of (fun _ _ _ => exists_of_map_fst)
    (P := fun s : State => s.live = [] ∧ s.blocks = [(0, 2), (4, 1)])
    [.allocate 1, .allocate 0x1001, .free 4, .allocate 0x3000, .free 0]
    (by decide +kernel) with ⟨s, hs, hlive, hblocks⟩
  exact ⟨s, hs, hlive, (pmem_buddy_allocator hs).2.2.2.2 hlive markedBehind, hblocks⟩

/-- The memory behind the bitmap: a word that is 0, and then others. -/
def zeroBehind : Bitmap :=
  fun index => if index = 1 then ⟨false, 0⟩ else ⟨true, 0⟩

/-- In a region of one page, allocating and freeing it makes a block of two pages, which is then
handed out for a request of two pages. -/
theorem block_behind_region :
    ∃ s, system.Reachable s ∧ s.numEntries = 1 ∧ s.live = [] ∧ s.blocks = [(0, 1)] ∧
      ¬Tiling s.IsBlock (fun x => x < s.numEntries) ∧
      (s.exec (.allocate 0x2000)).map Prod.snd = some 0 := by
  have hstart : system.Reachable (.setup 0x1000 zeroBehind) :=
    .start ⟨0x1000, zeroBehind, by decide, rfl⟩
  rcases ReachableUnder.exists_observed_of (fun _ _ _ => exists_of_map_fst)
    (P := fun s : State => s.numEntries = 1 ∧ s.live = [] ∧ s.blocks = [(0, 1)] ∧
      s.heads = [0] ∧ s.bitmap.order 0 = 1 ∧
      (s.exec (.allocate 0x2000)).map Prod.snd = some 0) [.allocate 1, .free 0]
    hstart ⟨.trivial _ _, by decide +kernel⟩ with ⟨s, hs, hn, hlive, hblocks, hheads, horder, hnext⟩
  refine ⟨s, hs, hn, hlive, hblocks, fun htiling => ?_, hnext⟩
  have hblock : s.IsBlock 0 1 := ⟨hheads ▸ mem_singleton.mpr rfl, horder⟩
  have hlt := htiling.inside hblock (x := 1) ⟨by decide, by decide⟩
  omega

/-! ## Accesses to the bitmap -/

/-- In every run in which a block of the last `2 ^ k` pages is freed only while another allocation
there is live: `pmem_setup`, `pmem_allocate` and `pmem_free` read and write entries of the bitmap
only, and `pmem_free` returns. -/
theorem pmem_bitmap_bounds {s : State} (hs : system.ReachableUnder lastGuard s) :
    (∀ memory, ∀ i ∈ pmemSetupAccesses s.numEntries memory, i < s.numEntries) ∧
      (∀ len, len ≠ 0 → ∀ i ∈ s.accesses (.allocate len), i < s.numEntries) ∧
      ∀ index ∈ s.live.map Prod.fst, lastGuard s (.free index) →
        (∀ i ∈ s.accesses (.free index), i < s.numEntries) ∧
          ∃ s', s.exec (.free index) = some (s', 0) := by
  rcases sound_of_reachable (hs.mono fun _ _ => .inr) with ⟨blk, h⟩
  refine ⟨fun memory => ?_, fun len hlen => (h.pmemAllocate hlen).1, fun index hindex hlast => ?_⟩
  · rcases tiled_pmemSetup memory h.tiled.small with ⟨_, -, -, -, haccesses⟩
    exact haccesses
  · exact (h.exec_free hindex (.inr hlast)).imp_left fun haccesses => haccesses hlast

/-- Six pages, of which the last two are one block of `pmem_setup`: one of two allocations there
may be freed. -/
theorem pmem_bitmap_bounds_six :
    ∃ s, system.ReachableUnder lastGuard s ∧
      (∀ i ∈ s.accesses (.free 4), i < s.numEntries) ∧ s.accesses (.free 4) = [4, 4, 5] := by
  have hstart : system.ReachableUnder lastGuard (setup 0x6000 markedBehind) :=
    .init ⟨0x6000, markedBehind, by decide, rfl⟩
  rcases hstart.exists_observed_of (fun _ _ _ => exists_of_map_fst)
    (P := fun s : State => 4 ∈ s.live.map Prod.fst ∧ lastGuard s (.free 4) ∧
      s.accesses (.free 4) = [4, 4, 5]) [.allocate 1, .allocate 1]
    (by decide +kernel) with ⟨s, hs, hlive, hlast, haccesses⟩
  exact ⟨s, hs, ((pmem_bitmap_bounds hs).2.2 4 hlive hlast).1, haccesses⟩

/-- In a region of one page, freeing it reads the entry behind the bitmap. -/
theorem entry_behind_read :
    ∃ s, system.Reachable s ∧ s.numEntries = 1 ∧ 0 ∈ s.live.map Prod.fst ∧
      1 ∈ s.accesses (.free 0) :=
  ReachableUnder.exists_observed_of
    (fun _ _ _ => exists_of_map_fst) [.allocate 1]
    (s := .setup 0x1000 zeroBehind) (.init ⟨0x1000, zeroBehind, by decide, rfl⟩)
    ⟨.trivial _ _, by decide +kernel⟩

end LteModemKernel.Pmem
