import LteModemKernel.Lib.BuddyTiling
import LteModemKernel.Pmem.Model

/-!
# The bitmap as a tiling

The blocks of a region tile its pages, and the entry at the head of a block has its order.  While
`pmem_allocate` cuts a block, or `pmem_free` merges one, two buddies of one order may both
be free, but only if the block at work is one of them (`Tiled`).

Main results:

- Theorem `Tiled.walk_iff`: `PMEM_NEXT_INDEX` visits the heads of the blocks.
- Theorem `Tiled.bestFit`: the search finds a smallest sufficient block.
- Theorem `Tiled.partition`: cutting leaves a tiling.
- Theorem `Tiled.freeLoop`: merging leaves a tiling, if the entry behind the bitmap does not
  look like the buddy of the last block, or the last block cannot become free.
- Theorem `tiled_pmemSetup`: the blocks of `pmem_setup`.
-/

namespace LteModemKernel.Pmem

open Lib Function Bitmap Nat

namespace Bitmap

variable {bitmap : Bitmap} {p q order : Nat} {allocated : Bool}

theorem buddyIndex_eq : bitmap.buddyIndex p = buddy p (bitmap.order p) := by
  rw [buddyIndex, buddy, one_shiftLeft]

theorem nextIndex_eq : bitmap.nextIndex p = p + 2 ^ bitmap.order p := by
  rw [nextIndex, one_shiftLeft]

theorem setOrder_order_self (h : order < 128) : (bitmap.setOrder p order).order p = order := by
  rw [Bitmap.order, setOrder, update_self]
  exact mod_eq_of_lt h

theorem setOrder_order_of_ne (h : q ≠ p) : (bitmap.setOrder p order).order q = bitmap.order q := by
  rw [Bitmap.order, setOrder, update_of_ne h, Bitmap.order]

@[simp]
theorem setOrder_allocated : (bitmap.setOrder p order q).allocated = (bitmap q).allocated := by
  by_cases h : q = p
  · subst h
    rw [setOrder, update_self]
  · rw [setOrder, update_of_ne h]

@[simp]
theorem setAllocated_order : (bitmap.setAllocated p allocated).order q = bitmap.order q := by
  by_cases h : q = p
  · subst h
    rw [order, setAllocated, update_self, order]
  · rw [order, setAllocated, update_of_ne h, order]

theorem setAllocated_allocated_self :
    (bitmap.setAllocated p allocated p).allocated = allocated := by
  rw [setAllocated, update_self]

theorem setAllocated_allocated_of_ne (h : q ≠ p) :
    (bitmap.setAllocated p allocated q).allocated = (bitmap q).allocated := by
  rw [setAllocated, update_of_ne h]

theorem isFree_iff : bitmap.isFree p = true ↔ (bitmap p).allocated = false := by
  rw [isFree, Bool.not_eq_true']

end Bitmap

/-- The blocks `blk` tile the region and the bitmap has their orders; only heads are marked as
allocated; and two buddies of one order are not both free, apart from the blocks in
`atWork`. -/
structure Tiled (numEntries : Nat) (bitmap : Bitmap) (blk : Nat → Nat → Prop)
    (atWork : Nat → Prop) : Prop where
  small : numEntries < 2 ^ 20
  tiling : Tiling blk fun x => x < numEntries
  order_eq : ∀ {p k}, blk p k → bitmap.order p = k
  stale : ∀ {p}, p < numEntries → (bitmap p).allocated = true → ∃ k, blk p k
  merged : ∀ {p k}, blk p k → blk (buddy p k) k → (bitmap p).allocated = false →
    (bitmap (buddy p k)).allocated = false → atWork p ∨ atWork (buddy p k)

namespace Tiled

variable {numEntries order best p k fuel curr : Nat} {bitmap bitmap' : Bitmap}
  {blk : Nat → Nat → Prop} {atWork atWork' : Nat → Prop} {allocated : Bool}

section

variable (h : Tiled numEntries bitmap blk atWork)
include h

theorem head_lt (hp : blk p k) : p < numEntries :=
  h.tiling.inside hp (inBlock_self p k)

theorem end_le (hp : blk p k) : p + 2 ^ k ≤ numEntries := by
  have hpos := Nat.two_pow_pos k
  have hlast : p + 2 ^ k - 1 < numEntries := h.tiling.inside hp ⟨by omega, by omega⟩
  omega

theorem order_lt (hp : blk p k) : k < 20 := by
  have hend := h.end_le hp
  have hsmall := h.small
  exact (Nat.pow_lt_pow_iff_right (by decide : 1 < 2)).mp (by omega)

theorem next_eq (hp : blk p k) : bitmap.nextIndex p = p + 2 ^ k := by
  rw [nextIndex_eq, h.order_eq hp]

theorem mono (himp : ∀ p, atWork p → atWork' p) : Tiled numEntries bitmap blk atWork' :=
  { h with merged := fun hp hp' hfree hfree' =>
      (h.merged hp hp' hfree hfree').imp (himp _) (himp _) }

end

/-- The mark of an entry is written. -/
theorem mark (h : Tiled numEntries bitmap blk atWork) (htaken : allocated = true → ∃ k, blk p k)
    (hfreed : allocated = false → atWork' p) (hothers : ∀ q ≠ p, atWork q → atWork' q) :
    Tiled numEntries (bitmap.setAllocated p allocated) blk atWork' where
  small := h.small
  tiling := h.tiling
  order_eq hq := by
    rw [setAllocated_order]
    exact h.order_eq hq
  stale {q} hq hallocated := by
    by_cases hqp : q = p
    · rw [hqp, setAllocated_allocated_self] at hallocated
      exact hqp ▸ htaken hallocated
    · rw [setAllocated_allocated_of_ne hqp] at hallocated
      exact h.stale hq hallocated
  merged {q l} hq hq' hfree hfree' := by
    have hcases {r : Nat} (hr : (bitmap.setAllocated p allocated r).allocated = false) :
        atWork' r ∨ (r ≠ p ∧ (bitmap r).allocated = false) := by
      by_cases hrp : r = p
      · rw [hrp, setAllocated_allocated_self] at hr
        exact .inl (hrp ▸ hfreed hr)
      · exact .inr ⟨hrp, setAllocated_allocated_of_ne hrp ▸ hr⟩
    rcases hcases hfree with hq | ⟨hqp, hfree⟩
    · exact .inl hq
    rcases hcases hfree' with hq' | ⟨hbp, hfree'⟩
    · exact .inr hq'
    · exact (h.merged hq hq' hfree hfree').imp (hothers _ hqp) (hothers _ hbp)

section

variable (h : Tiled numEntries bitmap blk atWork)
include h

theorem start : 0 = numEntries ∨ ∃ k, blk 0 k := by
  rcases Nat.eq_zero_or_pos numEntries with hzero | hpos
  · exact .inl hzero.symm
  · rcases h.tiling.cover hpos with ⟨p, k, hp, hin⟩
    have hzero : p = 0 := le_zero.mp hin.1
    exact .inr ⟨k, hzero ▸ hp⟩

theorem le_or_end_le {q l : Nat} (hp : blk p k) (hq : blk q l) (hle : p ≤ q) :
    q = p ∨ p + 2 ^ k ≤ q := by
  rcases lt_or_ge q (p + 2 ^ k) with hlt | hge
  · exact .inl (h.tiling.head_eq hq hp ⟨hle, hlt⟩).1.symm
  · exact .inr hge

theorem no_head_of_le (hn : numEntries ≤ curr) : ¬(curr ≤ p ∧ ∃ k, blk p k) := by
  rintro ⟨hle, k, hp⟩
  have hlt := h.head_lt hp
  omega

/-- `PMEM_NEXT_INDEX` visits the heads. -/
theorem mem_walk (hcurr : curr = numEntries ∨ ∃ k, blk curr k) (hfuel : numEntries ≤ curr + fuel) :
    p ∈ bitmap.walk numEntries fuel curr ↔ curr ≤ p ∧ ∃ k, blk p k := by
  induction fuel generalizing curr with
  | zero => exact iff_of_false List.not_mem_nil (h.no_head_of_le hfuel)
  | succ fuel ih =>
    rw [walk]
    rcases hcurr with rfl | ⟨k, hk⟩
    · rw [if_neg (lt_irrefl _)]
      exact iff_of_false List.not_mem_nil (h.no_head_of_le le_rfl)
    · have hpos := Nat.two_pow_pos k
      rw [if_pos (h.head_lt hk), List.mem_cons, h.next_eq hk, ih (h.tiling.next_head hk) (by omega)]
      constructor
      · rintro (rfl | ⟨hle, hp⟩)
        · exact ⟨le_rfl, k, hk⟩
        · exact ⟨by omega, hp⟩
      · rintro ⟨hle, l, hp⟩
        rcases h.le_or_end_le hk hp hle with rfl | hle
        · exact .inl rfl
        · exact .inr ⟨hle, l, hp⟩

theorem walk_iff : p ∈ bitmap.walk numEntries numEntries 0 ↔ ∃ k, blk p k := by
  rw [h.mem_walk h.start (by omega)]
  exact and_iff_right (zero_le p)

theorem walk_eq (horder : ∀ p k, blk p k → bitmap'.order p = k)
    (hcurr : curr = numEntries ∨ ∃ k, blk curr k) :
    bitmap'.walk numEntries fuel curr = bitmap.walk numEntries fuel curr := by
  induction fuel generalizing curr with
  | zero => rfl
  | succ fuel ih =>
    rw [walk, walk]
    rcases hcurr with rfl | ⟨k, hk⟩
    · rw [if_neg (lt_irrefl _), if_neg (lt_irrefl _)]
    · have hnext : bitmap'.nextIndex curr = curr + 2 ^ k := by
        rw [nextIndex_eq, horder curr k hk]
      rw [if_pos (h.head_lt hk), if_pos (h.head_lt hk), hnext, h.next_eq hk,
        ih (h.tiling.next_head hk)]

end

/-! ## The search -/

/-- The best fit among the blocks before `curr`: a free block of a sufficient order, and none of
these is smaller. -/
structure Best (bitmap : Bitmap) (blk : Nat → Nat → Prop) (order curr : Nat)
    (best : Option Nat) : Prop where
  fits : ∀ b ∈ best, (∃ l, blk b l) ∧ (bitmap b).allocated = false ∧ order ≤ bitmap.order b
  least : ∀ p k, blk p k → p < curr → (bitmap p).allocated = false → order ≤ k →
    ∃ b ∈ best, bitmap.order b ≤ k

section

variable (h : Tiled numEntries bitmap blk atWork)
include h

/-- A block that is visited: it is the best fit, or the one before stays. -/
theorem best_step {best : Option Nat} (hk : blk curr k) (hbest : Best bitmap blk order curr best)
    (hexact : ¬((bitmap curr).allocated = false ∧ k = order)) :
    Best bitmap blk order (curr + 2 ^ k)
      (if bitmap.isFree curr && order < bitmap.order curr && bitmap.better curr best then some curr
        else best) := by
  have hleast {best' : Option Nat}
      (hold : ∀ l, (∃ b ∈ best, bitmap.order b ≤ l) → ∃ b ∈ best', bitmap.order b ≤ l)
      (hcurr : (bitmap curr).allocated = false → order ≤ k → ∃ b ∈ best', bitmap.order b ≤ k)
      (q l : Nat) (hq : blk q l) (hlt : q < curr + 2 ^ k) (hfree : (bitmap q).allocated = false)
      (hle : order ≤ l) : ∃ b ∈ best', bitmap.order b ≤ l := by
    rcases lt_or_ge q curr with hlow | hge
    · exact hold l (hbest.least q l hq hlow hfree hle)
    · rcases h.tiling.head_eq hq hk ⟨hge, hlt⟩ with ⟨rfl, rfl⟩
      exact hcurr hfree hle
  split
  · -- the block becomes the best fit
    rename_i htake
    simp only [Bool.and_eq_true, isFree_iff, decide_eq_true_eq] at htake
    rcases htake with ⟨⟨hfree, hlt⟩, hbetter⟩
    refine ⟨?_, hleast ?_ fun _ _ => ⟨curr, rfl, (h.order_eq hk).le⟩⟩
    · rintro b ⟨⟩
      exact ⟨⟨k, hk⟩, hfree, hlt.le⟩
    · rintro l ⟨b, rfl, hle⟩
      exact ⟨curr, rfl, (of_decide_eq_true hbetter).le.trans hle⟩
  · -- the block is not free, too small or not better
    rename_i hkeep
    simp only [Bool.and_eq_true, isFree_iff, decide_eq_true_eq, h.order_eq hk] at hkeep
    refine ⟨hbest.fits, hleast (fun _ hl => hl) fun hfree hle => ?_⟩
    have hlt : order < k := lt_of_le_of_ne hle fun heq => hexact ⟨hfree, heq.symm⟩
    cases best with
    | none => exact absurd ⟨⟨hfree, hlt⟩, rfl⟩ hkeep
    | some b =>
      refine ⟨b, rfl, ?_⟩
      by_contra hgt
      refine hkeep ⟨⟨hfree, hlt⟩, ?_⟩
      rw [better, decide_eq_true_eq, h.order_eq hk]
      exact not_le.mp hgt

/-- The search from a block on. -/
theorem bestFit_from {best : Option Nat} (hcurr : curr = numEntries ∨ ∃ k, blk curr k)
    (hfuel : numEntries ≤ curr + fuel) (hbest : Best bitmap blk order curr best) :
    Best bitmap blk order numEntries (bestFit bitmap numEntries order fuel curr best) := by
  induction fuel generalizing curr best with
  | zero =>
    rcases hcurr with rfl | ⟨k, hk⟩
    · exact hbest
    · have hlt := h.head_lt hk
      omega
  | succ fuel ih =>
    unfold bestFit
    rcases hcurr with rfl | ⟨k, hk⟩
    · rw [if_neg (lt_irrefl _)]
      exact hbest
    · have hpos := Nat.two_pow_pos k
      rw [if_pos (h.head_lt hk)]
      split
      · -- a block of just the order
        rename_i hexact
        rw [Bool.and_eq_true, isFree_iff, beq_iff_eq] at hexact
        refine ⟨?_, fun q l _ _ _ hle => ⟨curr, rfl, hexact.2.trans_le hle⟩⟩
        rintro b ⟨⟩
        exact ⟨⟨k, hk⟩, hexact.1, hexact.2.ge⟩
      · rename_i hexact
        rw [Bool.and_eq_true, isFree_iff, beq_iff_eq, h.order_eq hk] at hexact
        rw [h.next_eq hk]
        exact ih (h.tiling.next_head hk) (by omega) (h.best_step hk hbest hexact)

theorem bestFit :
    Best bitmap blk order numEntries (bestFit bitmap numEntries order numEntries 0 none) :=
  h.bestFit_from h.start (by omega) ⟨nofun, fun _ _ _ hlt => absurd hlt (not_lt_zero _)⟩

end

/-! ## Cutting a block -/

section

variable (h : Tiled numEntries bitmap blk (· = best))
include h

/-- A free block at work is cut in halves. -/
theorem halve (hb : blk best (k + 1)) :
    Tiled numEntries ((bitmap.setOrder best k).setOrder (best + 2 ^ k) k)
      (fun q l => (blk q l ∧ q ≠ best) ∨ (l = k ∧ (q = best ∨ q = best + 2 ^ k)))
      (· = best) := by
  have hpos := Nat.two_pow_pos k
  have hk := h.order_lt hb
  have hne : best ≠ best + 2 ^ k := by omega
  have hpow : 2 ^ (k + 1) = 2 ^ k + 2 ^ k := Nat.two_pow_succ k
  -- the upper half was not the head of a block
  have hupper (l : Nat) : ¬blk (best + 2 ^ k) l := fun hq =>
    absurd (h.tiling.head_eq hq hb ⟨by omega, by omega⟩).1 (by omega)
  have hbuddy : buddy best k = best + 2 ^ k := buddy_eq_add (h.tiling.aligned hb)
  refine ⟨h.small, h.tiling.split hb, ?_, ?_, ?_⟩
  · rintro q l (⟨hq, hqne⟩ | ⟨rfl, rfl | rfl⟩)
    · have hqne' : q ≠ best + 2 ^ k := by
        rintro rfl
        exact hupper l hq
      rw [setOrder_order_of_ne hqne', setOrder_order_of_ne hqne, h.order_eq hq]
    · rw [setOrder_order_of_ne hne, setOrder_order_self (by omega)]
    · rw [setOrder_order_self (by omega)]
  · intro q hlt hallocated
    rw [setOrder_allocated, setOrder_allocated] at hallocated
    rcases h.stale hlt hallocated with ⟨l, hq⟩
    by_cases hqb : q = best
    · exact ⟨k, Or.inr ⟨rfl, Or.inl hqb⟩⟩
    · exact ⟨l, Or.inl ⟨hq, hqb⟩⟩
  · rintro q l hq hq' hfree hfree'
    simp only [setOrder_allocated] at hfree hfree'
    rcases hq with ⟨hq, -⟩ | ⟨rfl, rfl | rfl⟩
    · rcases hq' with ⟨hq', -⟩ | ⟨rfl, heq | heq⟩
      · exact h.merged hq hq' hfree hfree'
      · exact Or.inr heq
      · -- the buddy of the upper half is the lower one
        left
        rw [← hbuddy] at heq
        rw [← buddy_buddy q l, heq, buddy_buddy]
    · exact Or.inl rfl
    · right
      rw [← hbuddy, buddy_buddy]

theorem halve_kept (hb : blk best (k + 1)) (hfree : (bitmap best).allocated = false)
    (hp : p < numEntries) (hallocated : (bitmap p).allocated = true) :
    ((bitmap.setOrder best k).setOrder (best + 2 ^ k) k).order p = bitmap.order p := by
  have hpos := Nat.two_pow_pos k
  have hpow : 2 ^ (k + 1) = 2 ^ k + 2 ^ k := Nat.two_pow_succ k
  have hne : p ≠ best := by
    rintro rfl
    cases hfree.symm.trans hallocated
  have hne' : p ≠ best + 2 ^ k := by
    rintro rfl
    rcases h.stale hp hallocated with ⟨l, hq⟩
    exact absurd (h.tiling.head_eq hq hb ⟨by omega, by omega⟩).1 (by omega)
  rw [setOrder_order_of_ne hne', setOrder_order_of_ne hne]

/-- Cutting a free block down to an order leaves a tiling, with a block of the order in place. -/
theorem partition (hb : blk best k) (hfree : (bitmap best).allocated = false) (horder : order ≤ k)
    (hfuel : k ≤ fuel) :
    ∃ blk', Tiled numEntries (partition order best fuel bitmap) blk' (· = best) ∧
      blk' best order ∧
      (∀ p, (Pmem.partition order best fuel bitmap p).allocated = (bitmap p).allocated) ∧
      (∀ p < numEntries, (bitmap p).allocated = true →
        (Pmem.partition order best fuel bitmap).order p = bitmap.order p) ∧
      ∀ i ∈ partitionAccesses order best fuel bitmap, i < numEntries := by
  have hlt := h.head_lt hb
  induction fuel generalizing bitmap blk k with
  | zero =>
    have hzero : order = k := by omega
    exact ⟨blk, h, hzero ▸ hb, fun _ => rfl, fun _ _ _ => rfl, List.forall_mem_singleton.mpr hlt⟩
  | succ fuel ih =>
    rw [partition, partitionAccesses, h.order_eq hb]
    rcases lt_or_eq_of_le horder with hless | rfl
    · rw [if_pos hless, if_pos hless]
      rcases exists_eq_succ_of_ne_zero (by omega : k ≠ 0) with ⟨j, rfl⟩
      have hj := h.order_lt hb
      have hself : (bitmap.setOrder best j).order best = j :=
        setOrder_order_self (by omega)
      have hbuddy : (bitmap.setOrder best j).buddyIndex best = best + 2 ^ j := by
        rw [buddyIndex_eq, hself]
        exact buddy_eq_add (h.tiling.aligned hb)
      simp only [succ_eq_add_one, Nat.add_sub_cancel, hself, hbuddy]
      rcases ih (h.halve hb) (.inr ⟨rfl, .inl rfl⟩) (by simpa using hfree) (by omega)
        (by omega) with ⟨blk', htiled, hbest, hallocated, hkept, haccesses⟩
      refine ⟨blk', htiled, hbest, fun p => by simpa using hallocated p, ?_, ?_⟩
      · intro p hp hp'
        rw [hkept p hp (by simpa using hp'), h.halve_kept hb hfree hp hp']
      · have hupper := (h.halve hb).head_lt (.inr ⟨rfl, .inr rfl⟩)
        exact List.forall_mem_cons.mpr ⟨hlt, List.forall_mem_cons.mpr ⟨hupper, haccesses⟩⟩
    · rw [if_neg (lt_irrefl _), if_neg (lt_irrefl _)]
      exact ⟨blk, h, hb, fun _ => rfl, fun _ _ _ => rfl, List.forall_mem_singleton.mpr hlt⟩

end

/-! ## Merging blocks -/

/-- The entry behind the bitmap looks like a free buddy of the last block: its order is the number
of zeros at the end of the number of entries. -/
def BehindLooksFree (numEntries : Nat) (bitmap : Bitmap) : Prop :=
  (bitmap numEntries).allocated = false ∧ 2 ^ bitmap.order numEntries ∣ numEntries ∧
    ¬2 ^ (bitmap.order numEntries + 1) ∣ numEntries

instance (numEntries : Nat) (bitmap : Bitmap) : Decidable (BehindLooksFree numEntries bitmap) :=
  inferInstanceAs (Decidable (_ ∧ _ ∧ _))

/-- The page lies in the last block of `pmem_setup`, which is the largest one at the end. -/
def InLast (numEntries x : Nat) : Prop :=
  ∃ k < 20, 2 ^ k ∣ numEntries ∧ ¬2 ^ (k + 1) ∣ numEntries ∧ numEntries ≤ x + 2 ^ k

instance (numEntries x : Nat) : Decidable (InLast numEntries x) :=
  inferInstanceAs (Decidable (∃ k < 20, _ ∧ _ ∧ _))

/-- The block cannot grow to the last block of `pmem_setup`: it has a page outside of that, or
something there is allocated. -/
def Held (numEntries : Nat) (bitmap : Bitmap) (curr k : Nat) : Prop :=
  (∃ x, InBlock curr k x ∧ ¬InLast numEntries x) ∨
    ∃ q < numEntries, InLast numEntries q ∧ (bitmap q).allocated = true

section

variable (h : Tiled numEntries bitmap blk atWork) (hp : blk p k)
include h hp

/-- The only buddy of a block that is not in the region is the entry behind the bitmap. -/
theorem buddy_behind (hge : ¬buddy p k < numEntries) :
    buddy p k = numEntries ∧ p + 2 ^ k = numEntries ∧ 2 ^ k ∣ numEntries ∧
      ¬2 ^ (k + 1) ∣ numEntries := by
  have hend := h.end_le hp
  have hlt := h.head_lt hp
  have hdvd := h.tiling.aligned hp
  rcases buddy_cases hdvd with ⟨hlow, heq⟩ | ⟨-, heq⟩
  · have hn : p + 2 ^ k = numEntries := by omega
    refine ⟨heq.trans hn, hn, hn ▸ dvd_add hdvd (dvd_refl _), ?_⟩
    rw [← hn, Nat.dvd_add_right hlow]
    intro hdvd'
    have hpos := Nat.two_pow_pos k
    have hle := le_of_dvd hpos hdvd'
    omega
  · omega

theorem buddy_lt_of_behind (hbehind : ¬BehindLooksFree numEntries bitmap)
    (hfree : (bitmap (buddy p k)).allocated = false) (horder : bitmap.order (buddy p k) = k) :
    buddy p k < numEntries := by
  by_contra hge
  rcases h.buddy_behind hp hge with ⟨hn, -, hdvd⟩
  rw [hn] at hfree horder
  exact hbehind ⟨hfree, horder.symm ▸ hdvd⟩

theorem buddy_lt_of_held (hfree : (bitmap p).allocated = false)
    (hheld : Held numEntries bitmap p k) : buddy p k < numEntries := by
  by_contra hge
  rcases h.buddy_behind hp hge with ⟨-, hn, hdvd, hndvd⟩
  rcases hheld with ⟨x, hx, hout⟩ | ⟨q, hq, ⟨l, -, hdvd', hndvd', hlast⟩, hallocated⟩
  · exact hout ⟨k, h.order_lt hp, hdvd, hndvd, hn ▸ Nat.add_le_add_right hx.1 _⟩
  · have hl : l = k := by
      by_contra hne
      rcases lt_or_gt_of_ne hne with hlt | hlt
      · exact hndvd' ((pow_dvd_pow 2 hlt).trans hdvd)
      · exact hndvd ((pow_dvd_pow 2 hlt).trans hdvd')
    subst hl
    rcases h.stale hq hallocated with ⟨m, hm⟩
    rw [(h.tiling.head_eq hm hp ⟨by omega, by omega⟩).1, hallocated] at hfree
    cases hfree

end

/-- Two free buddies become one block, the one at work. -/
theorem join (h : Tiled numEntries bitmap blk (· = curr)) (hc : blk curr k)
    (hb : blk (buddy curr k) k) (hfree : (bitmap curr).allocated = false)
    (hfree' : (bitmap (buddy curr k)).allocated = false) :
    ∃ blk', Tiled numEntries ((bitmap.setOrder (buddy curr k) (k + 1)).setOrder curr (k + 1)) blk'
        (· = min (buddy curr k) curr) ∧ blk' (min (buddy curr k) curr) (k + 1) := by
  have hk := h.order_lt hc
  rcases dvd_min_buddy (h.tiling.aligned hc) with ⟨hdvd, hmax⟩
  rw [min_comm] at hdvd
  have hne := buddy_ne curr k
  generalize hm : min (buddy curr k) curr = m at hdvd hmax
  have hpair : (m = curr ∧ m + 2 ^ k = buddy curr k) ∨ (m = buddy curr k ∧ m + 2 ^ k = curr) := by
    omega
  -- both halves, in the order of their addresses
  obtain ⟨hlow, hhigh⟩ : blk m k ∧ blk (m + 2 ^ k) k := by
    rcases hpair with ⟨hlow, hhigh⟩ | ⟨hlow, hhigh⟩ <;> rw [hhigh, hlow]
    · exact ⟨hc, hb⟩
    · exact ⟨hb, hc⟩
  have hother {q : Nat} (hq : q ≠ m) (hq' : q ≠ m + 2 ^ k) : q ≠ curr ∧ q ≠ buddy curr k := by
    omega
  have hfreeHalf {q : Nat} (hq : q = m ∨ q = m + 2 ^ k) : (bitmap q).allocated = false := by
    have hcases : q = curr ∨ q = buddy curr k := by omega
    rcases hcases with rfl | rfl
    · exact hfree
    · exact hfree'
  refine ⟨_, ⟨h.small, h.tiling.merge hlow hhigh hdvd, ?_, ?_, ?_⟩, .inr ⟨rfl, rfl⟩⟩
  · rintro q l (⟨hq, hqm, hqm'⟩ | ⟨rfl, rfl⟩)
    · rcases hother hqm hqm' with ⟨hqc, hqb⟩
      rw [setOrder_order_of_ne hqc, setOrder_order_of_ne hqb, h.order_eq hq]
    · rcases hpair with ⟨heq, -⟩ | ⟨heq, -⟩
      · rw [heq, setOrder_order_self (by omega)]
      · rw [heq, setOrder_order_of_ne hne, setOrder_order_self (by omega)]
  · intro q hlt hallocated
    rw [setOrder_allocated, setOrder_allocated] at hallocated
    rcases h.stale hlt hallocated with ⟨l, hq⟩
    have hneither : ¬(q = m ∨ q = m + 2 ^ k) := by
      intro hhalf
      rw [hfreeHalf hhalf] at hallocated
      cases hallocated
    exact ⟨l, .inl ⟨hq, not_or.mp hneither⟩⟩
  · rintro q l (⟨hq, hqm, hqm'⟩ | ⟨rfl, -⟩) hq' hqfree hqfree'
    · rcases hq' with ⟨hq', hbm, hbm'⟩ | ⟨heq, -⟩
      · simp only [setOrder_allocated] at hqfree hqfree'
        rcases h.merged hq hq' hqfree hqfree' with heq | heq
        · exact absurd heq (hother hqm hqm').1
        · exact absurd heq (hother hbm hbm').1
      · exact .inr heq
    · exact .inl rfl

/-- The loop of `pmem_free` ends and leaves a tiling without two free buddies of one order. -/
theorem freeLoop (h : Tiled numEntries bitmap blk (· = curr)) (hc : blk curr k)
    (hfree : (bitmap curr).allocated = false) (hfuel : 20 ≤ fuel + k)
    (hin : ¬BehindLooksFree numEntries bitmap ∨ Held numEntries bitmap curr k) :
    ∃ bitmap' blk', freeLoop numEntries fuel curr bitmap = some bitmap' ∧
      Tiled numEntries bitmap' blk' (fun _ => False) ∧
      (∀ p, (bitmap' p).allocated = (bitmap p).allocated) ∧
      (∀ p, (bitmap p).allocated = true → bitmap'.order p = bitmap.order p) ∧
      (Held numEntries bitmap curr k →
        ∀ i ∈ freeAccesses numEntries fuel curr bitmap, i < numEntries) := by
  induction fuel generalizing bitmap blk curr k with
  | zero =>
    have hk := h.order_lt hc
    omega
  | succ fuel ih =>
    have hindex : bitmap.buddyIndex curr = buddy curr k := by
      rw [buddyIndex_eq, h.order_eq hc]
    unfold freeLoop freeAccesses
    simp only [hindex, h.order_eq hc, List.forall_mem_cons]
    by_cases hmerge : (bitmap.isFree (buddy curr k) && bitmap.order (buddy curr k) == k) = true
    · rw [if_pos hmerge, if_pos hmerge]
      rw [Bool.and_eq_true, isFree_iff, beq_iff_eq] at hmerge
      rcases hmerge with ⟨hfree', horder⟩
      have hlt := hin.elim (h.buddy_lt_of_behind hc · hfree' horder) (h.buddy_lt_of_held hc hfree)
      have hb : blk (buddy curr k) k := by
        rcases h.tiling.buddy_head hc hlt with ⟨l, -, hb⟩
        have hl : l = k := (h.order_eq hb).symm.trans horder
        exact hl ▸ hb
      have hne := buddy_ne curr k
      have hself : (bitmap.setOrder (buddy curr k) (k + 1)).order curr = k := by
        rw [setOrder_order_of_ne hne.symm, h.order_eq hc]
      simp only [horder, hself]
      rcases h.join hc hb hfree hfree' with ⟨blk', htiled, hblk'⟩
      have hcurr := htiled.head_lt hblk'
      rw [if_pos hcurr, if_pos hcurr]
      generalize hbm : (bitmap.setOrder (buddy curr k) (k + 1)).setOrder curr (k + 1) = bitmap₁
        at htiled
      have hallocated (p : Nat) : (bitmap₁ p).allocated = (bitmap p).allocated := by
        rw [← hbm, setOrder_allocated, setOrder_allocated]
      have hkept (p : Nat) (hp : p ≠ curr) (hp' : p ≠ buddy curr k) :
          bitmap₁.order p = bitmap.order p := by
        rw [← hbm, setOrder_order_of_ne hp, setOrder_order_of_ne hp']
      have hbehind' (hbehind : ¬BehindLooksFree numEntries bitmap) :
          ¬BehindLooksFree numEntries bitmap₁ := by
        unfold BehindLooksFree
        rw [hallocated, hkept _ (h.head_lt hc).ne' hlt.ne']
        exact hbehind
      have hheld' (hheld : Held numEntries bitmap curr k) :
          Held numEntries bitmap₁ (min (buddy curr k) curr) (k + 1) := by
        refine hheld.imp ?_ fun ⟨q, hq, hlast, hq'⟩ => ⟨q, hq, hlast, hallocated q ▸ hq'⟩
        rintro ⟨x, ⟨hlow, hhigh⟩, hout⟩
        have hmax := (dvd_min_buddy (h.tiling.aligned hc)).2
        have hpow : 2 ^ (k + 1) = 2 ^ k + 2 ^ k := two_pow_succ k
        exact ⟨x, ⟨by omega, by omega⟩, hout⟩
      have hfree₁ : (bitmap₁ (min (buddy curr k) curr)).allocated = false := by
        rw [hallocated]
        rcases min_choice (buddy curr k) curr with heq | heq
        · rw [heq, hfree']
        · rw [heq, hfree]
      rcases ih htiled hblk' hfree₁ (by omega) (hin.imp hbehind' hheld') with
        ⟨bitmap', blk₂, heq, htiled', hallocated', hkept', haccesses⟩
      refine ⟨bitmap', blk₂, heq, htiled', fun p => (hallocated' p).trans (hallocated p), ?_,
        fun hheld => ⟨h.head_lt hc, hlt, haccesses (hheld' hheld)⟩⟩
      intro p hp
      rw [hkept' p (by rw [hallocated, hp])]
      apply hkept
      · rintro rfl
        cases hfree.symm.trans hp
      · rintro rfl
        cases hfree'.symm.trans hp
    · rw [if_neg hmerge, if_neg hmerge]
      rw [Bool.and_eq_true, isFree_iff, beq_iff_eq] at hmerge
      refine ⟨bitmap, blk, rfl, { h with merged := ?_ }, fun _ => rfl, fun _ _ => rfl,
        fun hheld => ⟨h.head_lt hc, h.buddy_lt_of_held hc hfree hheld, nofun⟩⟩
      intro p l hp hp' hpfree hpfree'
      exfalso
      rcases h.merged hp hp' hpfree hpfree' with rfl | heq
      · -- the buddy of the block is not free or smaller
        obtain rfl := h.tiling.order_unique hp hc
        exact hmerge ⟨hpfree', h.order_eq hp'⟩
      · rw [heq] at hp'
        obtain rfl := h.tiling.order_unique hp' hc
        have hpb : p = buddy curr l := by rw [← heq, buddy_buddy]
        rw [hpb] at hp hpfree
        exact hmerge ⟨hpfree, h.order_eq hp⟩

end Tiled

/-! ## The blocks of `pmem_setup` -/

/-- The rest of the region behind a multiple of `2 ^ i` is a block if the bit is set, and the
rest behind that. -/
theorem div_mul_succ (n i : Nat) :
    n / 2 ^ i * 2 ^ i = n / 2 ^ (i + 1) * 2 ^ (i + 1) + if n.testBit i then 2 ^ i else 0 := by
  have hpow : 2 ^ (i + 1) = 2 ^ i * 2 := Nat.pow_succ 2 i
  have hbit : n.testBit i = decide (n / 2 ^ i % 2 = 1) := Nat.testBit_eq_decide_div_mod_eq
  rw [hbit, hpow, ← Nat.div_div_eq_div_mul]
  generalize n / 2 ^ i = m
  calc
    m * 2 ^ i = (2 * (m / 2) + m % 2) * 2 ^ i := by rw [Nat.div_add_mod]
    _ = _ := by rcases Nat.mod_two_eq_zero_or_one m with h | h <;> grind

/-- What the setup is about: blocks that cannot be extended to twice their size. -/
def Maximal (numEntries : Nat) (blk : Nat → Nat → Prop) : Prop :=
  ∀ p k, blk p k → 2 ^ (k + 1) ∣ p ∧ ∃ x, InBlock p (k + 1) x ∧ ¬x < numEntries

variable {numEntries : Nat}

/-- The bits below `i` are still to be set up: the blocks tile the region up to a multiple of
`2 ^ i`. -/
theorem setupLoop_spec {i : Nat} (bitmap : Bitmap) {blk : Nat → Nat → Prop} (hi : i ≤ 32)
    (htiling : Tiling blk fun x => x < numEntries / 2 ^ i * 2 ^ i)
    (horder : ∀ {p k}, blk p k → bitmap.order p = k) (hmax : Maximal numEntries blk) :
    ∃ blk', Tiling blk' (fun x => x < numEntries) ∧
      (∀ {p k}, blk' p k →
        (setupLoop numEntries i (numEntries / 2 ^ i * 2 ^ i) bitmap).order p = k) ∧
      Maximal numEntries blk' ∧
      (∀ p, (setupLoop numEntries i (numEntries / 2 ^ i * 2 ^ i) bitmap p).allocated =
        (bitmap p).allocated) ∧
      ∀ x ∈ setupAccesses numEntries i (numEntries / 2 ^ i * 2 ^ i) bitmap, x < numEntries := by
  induction i generalizing bitmap blk with
  | zero =>
    rw [Nat.pow_zero, Nat.div_one, Nat.mul_one] at htiling ⊢
    exact ⟨blk, htiling, horder, hmax, fun _ => rfl, nofun⟩
  | succ i ih =>
    have hnext := div_mul_succ numEntries i
    rw [setupLoop, setupAccesses]
    generalize hindex : numEntries / 2 ^ (i + 1) * 2 ^ (i + 1) = index at htiling hnext ⊢
    have hdvd : 2 ^ (i + 1) ∣ index := hindex ▸ dvd_mul_left _ _
    cases hbit : numEntries.testBit i with
    | true =>
      rw [if_pos rfl, if_pos rfl]
      rw [hbit, if_pos rfl] at hnext
      have hsub : 2 ^ i ∣ index := (pow_dvd_pow 2 (le_succ i)).trans hdvd
      have hself : (bitmap.setOrder index i).order index = i :=
        setOrder_order_self (by omega)
      have hstep : (bitmap.setOrder index i).nextIndex index = numEntries / 2 ^ i * 2 ^ i := by
        rw [nextIndex_eq, hself, hnext]
      simp only [hstep]
      have htiling' := htiling.snoc hsub
      rw [← hnext] at htiling'
      have horder' {p k : Nat} (hp : blk p k ∨ (p = index ∧ k = i)) :
          (bitmap.setOrder index i).order p = k := by
        rcases hp with hp | ⟨rfl, rfl⟩
        · have hne : p ≠ index := (htiling.inside hp (inBlock_self p k)).ne
          rw [setOrder_order_of_ne hne, horder hp]
        · exact hself
      have hmax' : Maximal numEntries fun p k => blk p k ∨ (p = index ∧ k = i) := by
        rintro p k (hp | ⟨rfl, rfl⟩)
        · exact hmax p k hp
        · rw [← hindex]
          exact ⟨dvd_mul_left _ _, numEntries,
            ⟨div_mul_le_self _ _, Nat.lt_div_mul_add (Nat.two_pow_pos _)⟩, lt_irrefl _⟩
      rcases ih (bitmap.setOrder index i) (by omega) htiling' horder' hmax' with
        ⟨blk', htiled, horder₁, hmax₁, hallocated, haccesses⟩
      refine ⟨blk', htiled, horder₁, hmax₁, fun p => ?_, List.forall_mem_cons.mpr ⟨?_, haccesses⟩⟩
      · rw [hallocated, setOrder_allocated]
      · have hle := div_mul_le_self numEntries (2 ^ i)
        omega
    | false =>
      rw [if_neg Bool.false_ne_true, if_neg Bool.false_ne_true]
      rw [hbit, if_neg Bool.false_ne_true, add_zero] at hnext
      rw [← hnext] at htiling ⊢
      exact ih bitmap (by omega) htiling horder hmax

/-- The blocks of `pmem_setup` tile the region and cannot be extended. -/
theorem tiled_pmemSetup (memory : Bitmap) (hsmall : numEntries < 2 ^ 20) :
    ∃ blk, Tiled numEntries (pmemSetup numEntries memory) blk (fun _ => False) ∧
      Maximal numEntries blk ∧
      (∀ p < numEntries, (pmemSetup numEntries memory p).allocated = false) ∧
      ∀ x ∈ pmemSetupAccesses numEntries memory, x < numEntries := by
  have hzero : numEntries / 2 ^ 32 * 2 ^ 32 = 0 := by
    rw [div_eq_of_lt (by omega), zero_mul]
  have hempty : Tiling (fun _ _ => False) fun x => x < numEntries / 2 ^ 32 * 2 ^ 32 := by
    rw [hzero]
    exact .empty
  rcases setupLoop_spec (i := 32)
    (fun index => if index < numEntries then ⟨false, 0⟩ else memory index) le_rfl hempty
    (fun h => h.elim) (fun _ _ h => h.elim) with
    ⟨blk, htiling, horder, hmax, hallocated, haccesses⟩
  rw [hzero] at horder hallocated haccesses
  have hfree (p : Nat) (hp : p < numEntries) :
      (pmemSetup numEntries memory p).allocated = false := by
    rw [pmemSetup, hallocated, if_pos hp]
  refine ⟨blk, ⟨hsmall, htiling, horder, ?_, ?_⟩, hmax, hfree, haccesses⟩
  · intro p hp hallocated'
    rw [hfree p hp] at hallocated'
    cases hallocated'
  · intro p k hp hp' _ _
    exact absurd hp' (htiling.not_buddy_of_max hmax hp)

end LteModemKernel.Pmem
