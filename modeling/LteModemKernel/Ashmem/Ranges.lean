import LteModemKernel.Ashmem.Model

/-!
# The list of unpinned ranges

`ashmem_pin` and `ashmem_unpin` handle a list of ranges from the highest to the lowest.
Both leave such a list; its pages are those of the old list without, or with, the requested ones.
A range that pinning cuts keeps its mark, and a range that is merged from others is marked as
purged if one of them was.

Main results:

- Theorem `pinRanges_spec`: `ashmem_pin` removes the pages and tells whether one of them
  was purged.
- Theorem `unpinRanges_spec`: `ashmem_unpin` returns and adds the pages.
- Theorem `getPinStatus_iff`: `ashmem_get_pin_status` tells whether one of the pages is
  unpinned.
-/

namespace LteModemKernel.Ashmem

open List UInt32

/-! ## Pages of ranges -/

/-- The page lies in the range. -/
def Range.Has (range : Range) (page : Nat) : Prop :=
  range.pgstart.toNat ≤ page ∧ page ≤ range.pgend.toNat

open Range

/-- The page is one of those from `pgstart` to `pgend`. -/
def Within (pgstart pgend : UInt32) (page : Nat) : Prop :=
  pgstart.toNat ≤ page ∧ page ≤ pgend.toNat

/-- The page lies in one of the ranges. -/
def Unpinned (ranges : List Range) (page : Nat) : Prop :=
  ∃ range ∈ ranges, range.Has page

/-- The page lies in one of the ranges that are marked as purged. -/
def Purged (ranges : List Range) (page : Nat) : Prop :=
  ∃ range ∈ ranges, range.purged = true ∧ range.Has page

/-- The ranges are not empty, and each one lies below those before it. -/
structure Shape (ranges : List Range) : Prop where
  nonempty : ∀ range ∈ ranges, range.pgstart.toNat ≤ range.pgend.toNat
  decreasing : ranges.Pairwise fun a b => b.pgend.toNat < a.pgstart.toNat

variable {pgstart pgend x y : UInt32} {range range' : Range}
  {ranges ranges' before behind : List Range} {page : Nat} {mark : Bool}

theorem Shape.nil : Shape [] :=
  ⟨nofun, .nil⟩

theorem shape_append :
    Shape (before ++ behind) ↔ Shape before ∧ Shape behind ∧
      ∀ a ∈ before, ∀ b ∈ behind, b.pgend.toNat < a.pgstart.toNat := by
  constructor
  · rintro ⟨hne, hdec⟩
    rcases forall_mem_append.mp hne with ⟨hne, hne'⟩
    rcases pairwise_append.mp hdec with ⟨hbefore, hbehind, hacross⟩
    exact ⟨⟨hne, hbefore⟩, ⟨hne', hbehind⟩, hacross⟩
  · rintro ⟨hbefore, hbehind, hacross⟩
    exact ⟨forall_mem_append.mpr ⟨hbefore.nonempty, hbehind.nonempty⟩,
      pairwise_append.mpr ⟨hbefore.decreasing, hbehind.decreasing, hacross⟩⟩

theorem shape_singleton : Shape [range] ↔ range.pgstart.toNat ≤ range.pgend.toNat := by
  constructor
  · intro h
    exact h.nonempty range mem_cons_self
  · intro h
    exact ⟨forall_mem_singleton.mpr h, pairwise_singleton _ _⟩

theorem shape_cons :
    Shape (range :: ranges) ↔ range.pgstart.toNat ≤ range.pgend.toNat ∧ Shape ranges ∧
      ∀ b ∈ ranges, b.pgend.toNat < range.pgstart.toNat := by
  rw [← singleton_append, shape_append, shape_singleton]
  simp

/-- A range behind the first one below a page lies below it as well. -/
theorem Shape.below (h : Shape (range :: ranges)) (hlt : range.pgend < pgstart) :
    ∀ r ∈ range :: ranges, r.pgend.toNat < pgstart.toNat := by
  rcases shape_cons.mp h with ⟨hne, -, hbelow⟩
  have hlt' := lt_iff_toNat_lt.mp hlt
  refine forall_mem_cons.mpr ⟨hlt', fun r hr => ?_⟩
  have hr' := hbelow r hr
  omega

theorem Range.meets_iff (hne : range.pgstart.toNat ≤ range.pgend.toNat)
    (hle : pgstart.toNat ≤ pgend.toNat) :
    range.meets pgstart pgend = true ↔
      range.pgstart.toNat ≤ pgend.toNat ∧ pgstart.toNat ≤ range.pgend.toNat := by
  simp only [meets, holds, subsumed, Bool.or_eq_true, Bool.and_eq_true,
    decide_eq_true_eq, le_iff_toNat_le]
  omega

theorem Range.subsumed_iff :
    range.subsumed pgstart pgend = true ↔
      pgstart.toNat ≤ range.pgstart.toNat ∧ range.pgend.toNat ≤ pgend.toNat := by
  simp [subsumed, le_iff_toNat_le]

theorem Range.subsumes_iff :
    range.subsumes pgstart pgend = true ↔
      range.pgstart.toNat ≤ pgstart.toNat ∧ pgend.toNat ≤ range.pgend.toNat := by
  simp [subsumes, le_iff_toNat_le]

theorem unpinned_singleton : Unpinned [range] page ↔ range.Has page := by
  simp [Unpinned]

/-- The ranges with one of the pages, in terms of pages. -/
theorem any_meets_iff (q : Range → Bool) (h : Shape ranges) (hle : pgstart.toNat ≤ pgend.toNat) :
    (ranges.any fun r => q r && r.meets pgstart pgend) = true ↔
      ∃ page, Within pgstart pgend page ∧ ∃ r ∈ ranges, q r = true ∧ r.Has page := by
  simp only [any_eq_true, Bool.and_eq_true]
  constructor
  · rintro ⟨r, hr, hq, hmeets⟩
    have hne := h.nonempty r hr
    have hmeets' := (meets_iff hne hle).mp hmeets
    exact ⟨max r.pgstart.toNat pgstart.toNat, ⟨le_max_right _ _, max_le hmeets'.1 hle⟩, r, hr, hq,
      le_max_left _ _, max_le hne hmeets'.2⟩
  · rintro ⟨page, hin, r, hr, hq, hpage⟩
    refine ⟨r, hr, hq, (meets_iff (h.nonempty r hr) hle).mpr ?_⟩
    exact ⟨hpage.1.trans hin.2, hin.1.trans hpage.2⟩

theorem any_meets_below (q : Range → Bool) (h : Shape ranges) (hle : pgstart.toNat ≤ pgend.toNat)
    (hlow : ∀ r ∈ ranges, r.pgend.toNat < pgstart.toNat) :
    (ranges.any fun r => q r && r.meets pgstart pgend) = false := by
  rw [← Bool.not_eq_true, any_meets_iff q h hle]
  rintro ⟨page, hin, r, hr, -, hpage⟩
  exact absurd (hin.1.trans hpage.2) (Nat.not_le.mpr (hlow r hr))

/-! ## Pinning -/

/-- The page lies in one of the ranges with the mark. -/
def Covers (ranges : List Range) (mark : Bool) (page : Nat) : Prop :=
  ∃ range ∈ ranges, range.purged = mark ∧ range.Has page

theorem covers_append :
    Covers (before ++ behind) mark page ↔ Covers before mark page ∨ Covers behind mark page := by
  simp [Covers, or_and_right, exists_or]

/-- What pinning the pages does to the ranges: the others stay in ranges with their mark. -/
structure Pinned (pgstart pgend : UInt32) (ranges ranges' : List Range) : Prop where
  shape : Shape ranges'
  covers_iff : ∀ mark page,
    Covers ranges' mark page ↔ Covers ranges mark page ∧ ¬Within pgstart pgend page

/-- Ranges without one of the pages stay. -/
theorem Pinned.below (h : Shape ranges) (hlow : ∀ r ∈ ranges, r.pgend.toNat < pgstart.toNat) :
    Pinned pgstart pgend ranges ranges where
  shape := h
  covers_iff mark page := by
    rw [iff_self_and]
    rintro ⟨r, hr, -, hpage⟩ hin
    exact absurd (hin.1.trans hpage.2) (Nat.not_le.mpr (hlow r hr))

/-- The pieces of the first range in front of the rest. -/
theorem Pinned.cons (pieces : List Range) (h : Shape (range :: ranges)) (hpieces : Shape pieces)
    (hmarks : ∀ r ∈ pieces, r.purged = range.purged)
    (hpages : ∀ page, Unpinned pieces page ↔ range.Has page ∧ ¬Within pgstart pgend page)
    (hrest : Pinned pgstart pgend ranges ranges') :
    Pinned pgstart pgend (range :: ranges) (pieces ++ ranges') where
  shape := by
    refine shape_append.mpr ⟨hpieces, hrest.shape, fun a ha b hb => ?_⟩
    have hstart := ((hpages _).mp ⟨a, ha, le_rfl, hpieces.nonempty a ha⟩).1.1
    obtain ⟨⟨r, hr, -, -, hend⟩, -⟩ := (hrest.covers_iff b.purged b.pgend.toNat).mp
      ⟨b, hb, rfl, hrest.shape.nonempty b hb, le_rfl⟩
    have hbelow := (shape_cons.mp h).2.2 r hr
    omega
  covers_iff mark page := by
    have hfirst : Covers pieces mark page ↔
        (range.purged = mark ∧ range.Has page) ∧ ¬Within pgstart pgend page := by
      rw [and_assoc, ← hpages]
      constructor
      · rintro ⟨r, hr, hmark, hpage⟩
        exact ⟨(hmarks r hr).symm.trans hmark, r, hr, hpage⟩
      · rintro ⟨hmark, r, hr, hpage⟩
        exact ⟨r, hr, (hmarks r hr).trans hmark, hpage⟩
    rw [covers_append, hfirst, hrest.covers_iff, ← or_and_right]
    simp [Covers, exists_eq_or_imp]

theorem Pinned.unpinned_iff (h : Pinned pgstart pgend ranges ranges') :
    Unpinned ranges' page ↔ Unpinned ranges page ∧ ¬Within pgstart pgend page := by
  have hcovers (l : List Range) : Unpinned l page ↔ ∃ mark, Covers l mark page :=
    ⟨fun ⟨r, hr, hpage⟩ => ⟨r.purged, r, hr, rfl, hpage⟩,
      fun ⟨_, r, hr, _, hpage⟩ => ⟨r, hr, hpage⟩⟩
  simp [hcovers, h.covers_iff, exists_and_right]

theorem toNat_add_one (h : x.toNat < y.toNat) : (x + 1).toNat = x.toNat + 1 := by
  have hone : (1 : UInt32).toNat = 1 := rfl
  have hy := y.toNat_lt
  rw [UInt32.toNat_add, hone]
  omega

theorem toNat_sub_one (h : y.toNat < x.toNat) : (x - 1).toNat + 1 = x.toNat := by
  have hone : (1 : UInt32).toNat = 1 := rfl
  have hx := x.toNat_lt
  rw [UInt32.toNat_sub, hone]
  omega

theorem Lru.rangeAlloc_fst (lru : Lru) (asma : Nat) (purged : Bool) (pgstart pgend : UInt32) :
    (lru.rangeAlloc asma purged pgstart pgend).1 = ⟨lru.next, pgstart, pgend, purged⟩ := by
  unfold Lru.rangeAlloc
  split <;> rfl

/-- `ashmem_pin` removes the pages from the ranges, and tells whether one of them was in a
purged range. -/
theorem pinRanges_spec (asma : Nat) (lru : Lru) (h : Shape ranges)
    (hle : pgstart.toNat ≤ pgend.toNat) :
    Pinned pgstart pgend ranges (pinRanges true asma pgstart pgend ranges lru).1 ∧
      (pinRanges true asma pgstart pgend ranges lru).2.2 =
        ranges.any fun r => r.purged && r.meets pgstart pgend := by
  induction ranges generalizing lru with
  | nil => exact ⟨.below h nofun, rfl⟩
  | cons range next ih =>
    obtain ⟨hne, hnext, hbelow⟩ := shape_cons.mp h
    rw [pinRanges]
    by_cases hbefore : range.pgend < pgstart
    · -- the list goes down, so that the rest lies below the pages as well
      have hlow := h.below hbefore
      rw [if_pos hbefore]
      exact ⟨.below h hlow, (any_meets_below _ h hle hlow).symm⟩
    rw [if_neg hbefore, any_cons]
    rw [UInt32.not_lt, le_iff_toNat_le] at hbefore
    have hmeets := meets_iff hne hle
    by_cases hmeet : range.meets pgstart pgend = true
    · rw [if_pos hmeet, hmeet, Bool.and_true]
      rw [hmeets] at hmeet
      by_cases hsub : range.subsumed pgstart pgend = true
      · rw [if_pos hsub]
        rw [subsumed_iff] at hsub
        obtain ⟨hpinned, hret⟩ := ih (lru.rangeDel asma range) hnext
        refine ⟨.cons [] h .nil (by simp) (fun page => ?_) hpinned,
          congrArg (range.purged || ·) hret⟩
        simp only [Unpinned, not_mem_nil, false_and, exists_false, false_iff, Range.Has, Within]
        omega
      rw [if_neg hsub]
      rw [subsumed_iff] at hsub
      by_cases hstart : pgstart ≤ range.pgstart
      · rw [if_pos hstart]
        rw [le_iff_toNat_le] at hstart
        have hadd : (pgend + 1).toNat = pgend.toNat + 1 :=
          toNat_add_one (y := range.pgend) (by omega)
        obtain ⟨hpinned, hret⟩ :=
          ih (lru.rangeShrink range { range with pgstart := pgend + 1 }) hnext
        refine ⟨.cons [_] h (shape_singleton.mpr ?_) (by simp) (fun page => ?_)
          hpinned, congrArg (range.purged || ·) hret⟩
        · simp only [hadd]
          omega
        · simp only [unpinned_singleton, Range.Has, Within, hadd]
          omega
      rw [if_neg hstart]
      rw [UInt32.not_le, lt_iff_toNat_lt] at hstart
      have hsubone := toNat_sub_one hstart
      by_cases hend : range.pgend ≤ pgend
      · rw [if_pos hend]
        rw [le_iff_toNat_le] at hend
        obtain ⟨hpinned, hret⟩ :=
          ih (lru.rangeShrink range { range with pgend := pgstart - 1 }) hnext
        refine ⟨.cons [_] h (shape_singleton.mpr ?_) (by simp) (fun page => ?_)
          hpinned, congrArg (range.purged || ·) hret⟩
        · show range.pgstart.toNat ≤ (pgstart - 1).toNat
          omega
        · simp only [unpinned_singleton, Range.Has, Within]
          omega
      rw [if_neg hend]
      rw [UInt32.not_le, lt_iff_toNat_lt] at hend
      have hadd := toNat_add_one hend
      have hrest (r : Range) (hr : r ∈ next) : r.pgend.toNat < pgstart.toNat :=
        (hbelow r hr).trans hstart
      rw [any_meets_below _ hnext hle hrest, Bool.or_false]
      refine ⟨?_, rfl⟩
      simp only [Lru.rangeAlloc_fst]
      refine .cons [_, _] h (shape_cons.mpr ⟨?_, shape_singleton.mpr ?_, ?_⟩)
        (by simp) (fun page => ?_) (.below hnext hrest)
      · simp only [hadd]
        omega
      · show range.pgstart.toNat ≤ (pgstart - 1).toNat
        omega
      · simp only [mem_singleton, forall_eq, hadd]
        omega
      · simp only [Unpinned, mem_pair, exists_eq_or_imp, exists_eq_left, Range.Has, Within, hadd]
        omega
    · rw [if_neg hmeet, Bool.eq_false_iff.mpr hmeet, Bool.and_false, Bool.false_or]
      rw [hmeets] at hmeet
      obtain ⟨hpinned, hret⟩ := ih lru hnext
      refine ⟨.cons [_] h (shape_singleton.mpr hne) (by simp) (fun page => ?_)
        hpinned, hret⟩
      simp only [unpinned_singleton, Range.Has, Within]
      omega

/-- Without memory `ashmem_pin` removes also the pages behind in a range around the pages. -/
theorem pinRanges_mem (mem : Bool) (asma : Nat) (h : Shape ranges)
    (hle : pgstart.toNat ≤ pgend.toNat) :
    ∃ last, (last = pgend ∨ mem = false ∧
        ∃ r ∈ ranges, r.pgstart < pgstart ∧ pgend < r.pgend ∧ last = r.pgend) ∧
      ∀ lru, pinRanges mem asma pgstart pgend ranges lru =
        pinRanges true asma pgstart last ranges lru := by
  cases mem with
  | true => exact ⟨pgend, .inl rfl, fun _ => rfl⟩
  | false => ?_
  simp only [true_and]
  induction ranges with
  | nil => exact ⟨pgend, .inl rfl, fun _ => rfl⟩
  | cons range next ih =>
    rcases shape_cons.mp h with ⟨hne, hnext, hbelow⟩
    by_cases haround : range.pgstart < pgstart ∧ pgend < range.pgend
    · refine ⟨range.pgend, .inr ⟨range, mem_cons_self, haround.1, haround.2, rfl⟩, fun lru => ?_⟩
      rw [lt_iff_toNat_lt, lt_iff_toNat_lt] at haround
      have hend (lru : Lru) : pinRanges true asma pgstart range.pgend next lru =
          (next, lru, false) := by
        cases next with
        | nil => rfl
        | cons r _ => exact if_pos (lt_iff_toNat_lt.mpr ((hbelow r mem_cons_self).trans haround.1))
      have hmeets {last : UInt32} (hlast : pgstart.toNat ≤ last.toNat) :
          range.meets pgstart last = true := (meets_iff hne hlast).mpr (by omega)
      have hstart : ¬pgstart ≤ range.pgstart := by rw [le_iff_toNat_le]; omega
      rw [pinRanges, pinRanges]
      simp only [hmeets hle, hmeets (hle.trans haround.2.le), subsumed, decide_eq_false hstart]
      simp [hstart, hend, UInt32.not_le.mpr (lt_iff_toNat_lt.mpr haround.2)]
    rcases ih hnext with ⟨last, hlast, heq⟩
    refine ⟨last, hlast.imp_right fun ⟨r, hr, hmem⟩ => ⟨r, mem_cons_of_mem _ hr, hmem⟩,
      fun lru => ?_⟩
    rw [pinRanges, pinRanges]
    simp only [heq]
    rcases hlast with rfl | ⟨r, hr, hstart, hend, rfl⟩
    · split
      · rfl
      split
      · split
        · rfl
        split
        · rfl
        split
        · rfl
        · next hstart hend =>
          exact absurd ⟨UInt32.not_le.mp hstart, UInt32.not_le.mp hend⟩ haround
      · rfl
    · -- a range above that around the pages
      have habove := hbelow r hr
      have hmeets {last : UInt32} (hlast : pgend.toNat ≤ last.toNat)
          (hr : last.toNat ≤ r.pgend.toNat) :
          ¬range.meets pgstart last = true := by
        rw [meets_iff hne (hle.trans hlast)]
        omega
      rw [if_neg (hmeets le_rfl hend.le), if_neg (hmeets hend.le le_rfl)]

/-! ## Pin status -/

/-- `ashmem_get_pin_status` tells whether one of the pages is in a range. -/
theorem getPinStatus_iff (h : Shape ranges) (hle : pgstart.toNat ≤ pgend.toNat) :
    getPinStatus pgstart pgend ranges = true ↔
      ∃ page, Within pgstart pgend page ∧ Unpinned ranges page := by
  have hany : getPinStatus pgstart pgend ranges =
      ranges.any fun r => true && r.meets pgstart pgend := by
    induction ranges with
    | nil => rfl
    | cons range next ih =>
      rw [getPinStatus]
      split
      · next hbefore => rw [any_meets_below _ h hle (h.below hbefore)]
      · rw [any_cons, ih (shape_cons.mp h).2.1]
        cases range.meets pgstart pgend <;> rfl
  rw [hany, any_meets_iff _ h hle]
  simp [Unpinned]

/-! ## Unpinning -/

/-- What the walk of `ashmem_unpin` finds. -/
def WalkSpec (pgstart pgend : UInt32) (ranges : List Range) : Walk → Prop
  | .held => ∃ r ∈ ranges, r.pgstart.toNat ≤ pgstart.toNat ∧ pgend.toNat ≤ r.pgend.toNat
  | .overlap before range behind => ranges = before ++ range :: behind ∧
      range.pgstart.toNat ≤ pgend.toNat ∧ pgstart.toNat ≤ range.pgend.toNat
  | .place before behind => ranges = before ++ behind ∧
      (∀ r ∈ before, pgend.toNat < r.pgstart.toNat) ∧ ∀ r ∈ behind, r.pgend.toNat < pgstart.toNat

theorem walk_spec (h : Shape ranges) (hle : pgstart.toNat ≤ pgend.toNat) :
    WalkSpec pgstart pgend ranges (walk pgstart pgend ranges) := by
  induction ranges with
  | nil => exact ⟨rfl, nofun, nofun⟩
  | cons range next ih =>
    rcases shape_cons.mp h with ⟨hne, hnext, -⟩
    rw [walk]
    split
    · next hbefore => exact ⟨rfl, nofun, h.below hbefore⟩
    rename_i hbefore
    rw [UInt32.not_lt, UInt32.le_iff_toNat_le] at hbefore
    split
    · next hsub => exact ⟨range, mem_cons_self, subsumes_iff.mp hsub⟩
    split
    · next hmeets => exact ⟨rfl, (meets_iff hne hle).mp hmeets⟩
    · next hmeets =>
      rw [meets_iff hne hle] at hmeets
      have hspec := ih hnext
      generalize walk pgstart pgend next = w at hspec
      cases w with
      | held =>
        rcases hspec with ⟨r, hr, hheld⟩
        exact ⟨r, mem_cons_of_mem _ hr, hheld⟩
      | overlap before range' behind =>
        exact ⟨congrArg (cons range) hspec.1, hspec.2⟩
      | place before behind =>
        rcases hspec with ⟨heq, hhigh, hlow⟩
        exact ⟨congrArg (cons range) heq, forall_mem_cons.mpr ⟨by omega, hhigh⟩, hlow⟩

/-- What unpinning the pages does to the ranges: the pages are added, and purged pages stay in
purged ranges. -/
structure Unpins (pgstart pgend : UInt32) (mark : Bool) (ranges ranges' : List Range) : Prop where
  shape : Shape ranges'
  unpinned_iff : ∀ page, Unpinned ranges' page ↔ Unpinned ranges page ∨ Within pgstart pgend page
  purged : ∀ page,
    Purged ranges page ∨ (mark = true ∧ Within pgstart pgend page) → Purged ranges' page

theorem unpinned_append :
    Unpinned (before ++ behind) page ↔ Unpinned before page ∨ Unpinned behind page := by
  simp [Unpinned, or_and_right, exists_or]

theorem unpinned_cons :
    Unpinned (range :: ranges) page ↔ range.Has page ∨ Unpinned ranges page := by
  simp [Unpinned]

theorem purged_append : Purged (before ++ behind) page ↔ Purged before page ∨ Purged behind page :=
  covers_append

theorem purged_cons :
    Purged (range :: ranges) page ↔
      (range.purged = true ∧ range.Has page) ∨ Purged ranges page := by
  simp [Purged]

/-- The pages get a range of their own. -/
theorem Unpins.place {id : Nat} (h : Shape (before ++ behind)) (hle : pgstart.toNat ≤ pgend.toNat)
    (hhigh : ∀ r ∈ before, pgend.toNat < r.pgstart.toNat)
    (hlow : ∀ r ∈ behind, r.pgend.toNat < pgstart.toNat) :
    Unpins pgstart pgend mark (before ++ behind)
      (before ++ ⟨id, pgstart, pgend, mark⟩ :: behind) where
  shape := by
    rcases shape_append.mp h with ⟨hbefore, hbehind, hacross⟩
    refine shape_append.mpr ⟨hbefore, shape_cons.mpr ⟨hle, hbehind, hlow⟩, fun a ha => ?_⟩
    exact forall_mem_cons.mpr ⟨hhigh a ha, hacross a ha⟩
  unpinned_iff page := by
    rw [unpinned_append, unpinned_append, unpinned_cons, or_assoc]
    exact or_congr_right or_comm
  purged page := by
    rw [purged_append, purged_append, purged_cons, or_assoc]
    exact .imp_right or_comm.mp

/-- The pages are unpinned already. -/
theorem Unpins.held (h : Shape ranges)
    (hheld : ∃ r ∈ ranges, r.pgstart.toNat ≤ pgstart.toNat ∧ pgend.toNat ≤ r.pgend.toNat) :
    Unpins pgstart pgend false ranges ranges where
  shape := h
  unpinned_iff page := by
    rcases hheld with ⟨r, hr, hstart, hend⟩
    rw [iff_self_or]
    rintro ⟨hlo, hhi⟩
    exact ⟨r, hr, hstart.trans hlo, hhi.trans hend⟩
  purged page hpurged := hpurged.resolve_right fun hmark => Bool.false_ne_true hmark.1

theorem Unpins.merge {lo hi : UInt32}
    (hhull : ∀ page, Within lo hi page ↔ range.Has page ∨ Within pgstart pgend page)
    (h : Unpins lo hi (mark || range.purged) (before ++ behind) ranges') :
    Unpins pgstart pgend mark (before ++ range :: behind) ranges' where
  shape := h.shape
  unpinned_iff page := by
    rw [h.unpinned_iff, hhull, unpinned_append, unpinned_append, unpinned_cons]
    tauto
  purged page hpurged := by
    refine h.purged page ?_
    rw [purged_append, purged_cons] at hpurged
    rw [purged_append, hhull, Bool.or_eq_true]
    tauto

/-- A range does not share a page with the other ranges of the list. -/
theorem Shape.apart (h : Shape (before ++ range :: behind)) :
    range.pgstart.toNat ≤ range.pgend.toNat ∧ Shape (before ++ behind) ∧
      ∀ page, range.Has page → ¬Unpinned (before ++ behind) page := by
  rcases shape_append.mp h with ⟨hbefore, hcons, hacross⟩
  rcases shape_cons.mp hcons with ⟨hne, hbehind, hbelow⟩
  refine ⟨hne, shape_append.mpr ⟨hbefore, hbehind,
    fun a ha b hb => hacross a ha b (mem_cons_of_mem _ hb)⟩, ?_⟩
  rintro page hpage ⟨r, hr, hpage'⟩
  unfold Range.Has at hpage hpage'
  rcases mem_append.mp hr with hr | hr
  · have habove := hacross r hr range mem_cons_self
    omega
  · have hbelow' := hbelow r hr
    omega

/-- `ashmem_unpin` starts again at most once for each range; it adds the pages to the
ranges. -/
theorem unpinRanges_spec (mem : Bool) (asma : Nat) {fuel : Nat} (lru : Lru) (h : Shape ranges)
    (hle : pgstart.toNat ≤ pgend.toNat) (hfuel : ranges.length < fuel)
    (hgap : mark = true → ∃ page, Within pgstart pgend page ∧ ¬Unpinned ranges page) :
    ∃ ranges' lru' ret,
      unpinRanges mem asma fuel pgstart pgend mark ranges lru = some (ranges', lru', ret) ∧
        Shape ranges' ∧ (mem = true → ret = 0 ∧ Unpins pgstart pgend mark ranges ranges') := by
  induction fuel generalizing pgstart pgend mark ranges lru with
  | zero => omega
  | succ fuel ih =>
    rw [unpinRanges]
    have hspec := walk_spec h hle
    generalize walk pgstart pgend ranges = w at hspec
    cases w with
    | held =>
      -- a range that was merged before has a page that no other range has
      have hmark : mark = false := by
        rw [← Bool.not_eq_true]
        intro hmark
        rcases hgap hmark with ⟨page, hin, hout⟩
        rcases hspec with ⟨r, hr, hstart, hend⟩
        exact hout ⟨r, hr, hstart.trans hin.1, hin.2.trans hend⟩
      subst hmark
      exact ⟨ranges, lru, 0, rfl, h, fun _ => ⟨rfl, .held h hspec⟩⟩
    | overlap before range behind =>
      rcases hspec with ⟨rfl, hmeets⟩
      rcases h.apart with ⟨hne, hrest, hapart⟩
      have hlo := toNat_min range.pgstart pgstart
      have hhi := toNat_max range.pgend pgend
      have hhull (page : Nat) :
          Within (min range.pgstart pgstart) (max range.pgend pgend) page ↔
            range.Has page ∨ Within pgstart pgend page := by
        unfold Within Range.Has
        omega
      have hlength : (before ++ behind).length < fuel := by
        rw [length_append, length_cons] at hfuel
        rw [length_append]
        omega
      have hfirst : range.Has range.pgstart.toNat := ⟨le_rfl, hne⟩
      rcases ih (lru.rangeDel asma range) hrest (by omega) hlength
        (fun _ => ⟨_, (hhull _).mpr (.inl hfirst), hapart _ hfirst⟩) with
        ⟨ranges', lru', ret, heq, hshape, hunpins⟩
      exact ⟨ranges', lru', ret, heq, hshape, fun hmem => (hunpins hmem).imp_right (.merge hhull)⟩
    | place before behind =>
      rcases hspec with ⟨rfl, hhigh, hlow⟩
      cases mem with
      | false => exact ⟨_, _, _, rfl, h, nofun⟩
      | true =>
        have hplace : Unpins pgstart pgend mark _ (before ++ ⟨lru.next, _, _, _⟩ :: behind) :=
          .place h hle hhigh hlow
        rw [← Lru.rangeAlloc_fst] at hplace
        exact ⟨_, _, _, rfl, hplace.shape, fun _ => ⟨rfl, hplace⟩⟩

end LteModemKernel.Ashmem
