import LteModemKernel.Buddy.Model

/-!
# The page table behind the bit fields

The manager spreads what it knows of a page over six bit fields and a sector
mask.  The abstract view is one entry a page: its class, and a mask that fits the
class.  The entry carries that fit as a field, so that an entry with, say, a pool
page that has used sectors cannot be built.

Main results:

- Theorem `firstZeroBitIndexInU16_spec`: the search finds the lowest clear bit.
- Theorem `findPageInMmBfPages_spec`: the page search finds a member, and fails
  only on the empty field.
- Theorems `Represents.allocate8k`, `Represents.allocateSectors`,
  `Represents.free8k` and `Represents.freeSectors`: each routine changes
  one entry of the page table and carves or releases one block in it.
-/

namespace LteModemKernel.Buddy

open Lib Function Nat Bool

/-! ## Searching -/

/-- Halving a 16-bit word makes the tests of `first_one_bit_index_in_u16`. -/
theorem firstOneBitIndexInU16_eq_bisect (x : BitVec 16) (hx : x ≠ 0) :
    (firstOneBitIndexInU16 x).map Fin.val = some (bisect 4 0 x) := by
  rw [firstOneBitIndexInU16, if_neg hx]
  simp only [← apply_ite some, Option.map_some, apply_ite Fin.val]
  rfl

/-- A nonzero word has a lowest set bit, and the search returns it. -/
theorem firstOneBitIndexInU16_spec (x : BitVec 16) (hx : x ≠ 0) :
    ∃ i : Sector, firstOneBitIndexInU16 x = some i ∧ x.getLsbD i = true ∧
      ∀ j < (i : Nat), x.getLsbD j = false := by
  obtain ⟨i, hi, hval⟩ := Option.map_eq_some_iff.mp (firstOneBitIndexInU16_eq_bisect x hx)
  have hsome : ∃ k, 0 ≤ k ∧ k < 0 + 2 ^ 4 ∧ x.getLsbD k = true := by
    simpa using (eq_zero_iff_getLsbD x).not.mp hx
  obtain ⟨-, -, hbit, hmin⟩ := bisect_spec x 4 0 (by norm_num) hsome
  refine ⟨i, hi, by rw [hval]; exact hbit, ?_⟩
  intro j hj
  exact hmin j (zero_le _) (by omega)

theorem firstZeroBitIndexInU16_spec (x : BitVec 16) (hx : x ≠ 0xffff) :
    ∃ i : Sector, firstZeroBitIndexInU16 x = some i ∧ x.getLsbD i = false ∧
      ∀ j < (i : Nat), x.getLsbD j = true := by
  have hne : x ^^^ 0xffff ≠ 0 := by
    intro h
    exact hx (BitVec.xor_eq_zero_iff.mp h)
  have hbits (j) (hj : j < 16) : (x ^^^ 0xffff).getLsbD j = !x.getLsbD j := by
    have hall : (0xffff : BitVec 16) = .allOnes 16 := by decide
    rw [hall, BitVec.getLsbD_xor, BitVec.getLsbD_allOnes]
    simp [hj]
  obtain ⟨i, hi, hbit, hmin⟩ := firstOneBitIndexInU16_spec _ hne
  refine ⟨i, hi, by simpa only [hbits i i.isLt, not_eq_true'] using hbit, ?_⟩
  intro j hj
  simpa only [hbits j (by omega), not_eq_false'] using hmin j hj

/-- The page search returns a member of the field, and fails only if the field is
empty. -/
theorem findPageInMmBfPages_spec (tab : BitField 3 16) :
    (∃ page, findPageInMmBfPages tab = some page ∧ tab.test page = true) ∨
      (findPageInMmBfPages tab = none ∧ ∀ page, tab.test page = false) := by
  have htest (k : Fin 3) (i : Sector) (h : 16 * k.val + i.val < 3 * 16)
      (hbit : (tab k).getLsbD i = true) : tab.test ⟨16 * k + i, h⟩ = true := by
    rwa [tab.test_of_bit k i.isLt rfl]
  unfold findPageInMmBfPages
  split_ifs with h0 h1 h2
  · obtain ⟨i, hi, hbit, -⟩ := firstOneBitIndexInU16_spec _ h0
    exact .inl ⟨_, by simp [hi], htest 0 i (by simp; omega) hbit⟩
  · obtain ⟨i, hi, hbit, -⟩ := firstOneBitIndexInU16_spec _ h1
    exact .inl ⟨_, by simp [hi], htest 1 i (by simp; omega) hbit⟩
  · obtain ⟨i, hi, hbit, -⟩ := firstOneBitIndexInU16_spec _ h2
    exact .inl ⟨_, by simp [hi], htest 2 i (by simp; omega) hbit⟩
  · right
    refine ⟨rfl, ?_⟩
    intro page
    have hzero (k : Fin 3) : tab k = 0 := by
      fin_cases k
      · simpa using h0
      · simpa using h1
      · simpa using h2
    simp [BitField.test, hzero]

/-! ## Page table entries -/

/-- How many of a page's sectors are in use. -/
inductive Occupancy where
  | empty
  | part
  | full
  deriving DecidableEq

/-- The sector masks that fit an occupancy. -/
def Occupancy.Holds : Occupancy → BitVec 16 → Prop
  | .empty, mask => mask = 0
  | .part, mask => mask ≠ 0 ∧ mask ≠ 0xffff
  | .full, mask => mask = 0xffff

namespace PageClass

/-- The occupancy a page of the class has. -/
def occupancy : PageClass → Occupancy
  | pool => .empty
  | partial2k | partial512 => .part
  | full8k | full2k | full512 => .full

/-- The number of sectors of the blocks on a page of the class. -/
def unit : PageClass → Nat
  | pool | full8k => 16
  | partial2k | full2k => 4
  | partial512 | full512 => 1

theorem unit_pos (c : PageClass) : 0 < c.unit := by
  cases c <;> decide

theorem unit_dvd_sixteen (c : PageClass) : c.unit ∣ 16 := by
  cases c <;> decide

end PageClass

/-- The mask is a union of aligned groups of `n` sectors. -/
def Grouped (n : Nat) (mask : BitVec 16) : Prop :=
  ∀ j : Sector, mask.getLsbD j = mask.getLsbD (n * (j / n))

/-- A page's class together with a mask that fits it. -/
structure PageEntry where
  cls : PageClass
  mask : BitVec 16
  fits : cls.occupancy.Holds mask
  grouped : Grouped cls.unit mask

/-- The abstract state of the manager: one entry a page. -/
abbrev PageTable : Type := Page → PageEntry

/-- A used block starts at sector `j` of the page. -/
def PageEntry.Starts (e : PageEntry) (j : Sector) : Prop :=
  e.mask.getLsbD j = true ∧ e.cls.unit ∣ j

/-- Going from `e` to `e'` uses one more block, of `n` sectors from
`j` on. -/
structure Carve (e e' : PageEntry) (n : Nat) (j : Sector) : Prop where
  unit : e'.cls.unit = n
  fresh : ¬e.Starts j
  starts : ∀ i, e'.Starts i ↔ e.Starts i ∨ i = j
  keeps : ∀ i, e.Starts i → e.cls.unit = n

/-- Going from `e` to `e'` gives back the block that starts at `j`. -/
structure Release (e e' : PageEntry) (j : Sector) : Prop where
  starts : ∀ i, e'.Starts i ↔ e.Starts i ∧ i ≠ j
  keeps : ∀ i, e'.Starts i → e'.cls.unit = e.cls.unit
  used : ∀ i : Sector, e'.mask.getLsbD i =
    (e.mask.getLsbD i && !decide ((j : Nat) ≤ i ∧ (i : Nat) < j + e.cls.unit))

variable {n : Nat} {j : Sector} {mask : BitVec 16} {e e' : PageEntry}

/-- Two multiples of `n` less than `n` apart are equal. -/
theorem eq_of_dvd_of_lt {i j : Nat} (hi : n ∣ i) (hj : n ∣ j) (hij : i < j + n)
    (hji : j < i + n) : i = j := by
  have hle := eq_zero_of_dvd_of_lt (dvd_sub hi hj) (by omega)
  have hge := eq_zero_of_dvd_of_lt (dvd_sub hj hi) (by omega)
  omega

theorem Carve.of_mask (hunit : e'.cls.unit = n) (hj : n ∣ j) (hold : e.mask = 0 ∨ e.cls.unit = n)
    (hclear : e.mask.getLsbD j = false) (hmask : ∀ i : Sector, e'.mask.getLsbD i =
      (e.mask.getLsbD i || decide ((j : Nat) ≤ i ∧ (i : Nat) < j + n))) : Carve e e' n j := by
  have hn : 0 < n := hunit ▸ e'.cls.unit_pos
  have hkeeps (i) (hi : e.Starts i) : e.cls.unit = n := by
    rcases hold with hzero | hold
    · simp [PageEntry.Starts, hzero] at hi
    · exact hold
  have hfresh : ¬e.Starts j := by
    rintro ⟨hbit, -⟩
    rw [hclear] at hbit
    exact absurd hbit (by decide)
  refine ⟨hunit, hfresh, ?_, hkeeps⟩
  intro i
  constructor
  · rintro ⟨hbit, hdvd⟩
    rw [hmask, or_eq_true, decide_eq_true_eq] at hbit
    rw [hunit] at hdvd
    rcases hbit with hbit | ⟨hle, hlt⟩
    · left
      rcases hold with hzero | hold
      · simp [hzero] at hbit
      · exact ⟨hbit, by rwa [hold]⟩
    · exact .inr (Fin.ext (eq_of_dvd_of_lt hdvd hj hlt (by omega)))
  · rintro (hi | rfl)
    · refine ⟨by rw [hmask, hi.1, Bool.true_or], ?_⟩
      rw [hunit, ← hkeeps i hi]
      exact hi.2
    · refine ⟨?_, by rwa [hunit]⟩
      rw [hmask, or_eq_true, decide_eq_true_eq]
      right
      omega

theorem Release.of_mask (hj : e.cls.unit ∣ j) (hnew : e'.mask = 0 ∨ e'.cls.unit = e.cls.unit)
    (hmask : ∀ i : Sector, e'.mask.getLsbD i =
      (e.mask.getLsbD i && !decide ((j : Nat) ≤ i ∧ (i : Nat) < j + e.cls.unit))) :
    Release e e' j := by
  have hn := e.cls.unit_pos
  have hkeeps (i) (hi : e'.Starts i) : e'.cls.unit = e.cls.unit := by
    rcases hnew with hzero | hnew
    · simp [PageEntry.Starts, hzero] at hi
    · exact hnew
  refine ⟨?_, hkeeps, hmask⟩
  intro i
  constructor
  · intro hi
    have hbit := hi.1
    rw [hmask, and_eq_true] at hbit
    refine ⟨⟨hbit.1, ?_⟩, ?_⟩
    · rw [← hkeeps i hi]
      exact hi.2
    · rintro rfl
      have hout := hbit.2
      simp only [not_eq_true', decide_eq_false_iff_not] at hout
      omega
  · rintro ⟨hi, hne⟩
    have hbit : e'.mask.getLsbD i = true := by
      rw [hmask, hi.1, Bool.true_and, Bool.not_eq_true', decide_eq_false_iff_not]
      rintro ⟨hle, hlt⟩
      exact hne (Fin.ext (eq_of_dvd_of_lt hi.2 hj hlt (by omega)))
    rcases hnew with hzero | hnew
    · simp [hzero] at hbit
    · exact ⟨hbit, by rw [hnew]; exact hi.2⟩

/-! ## Groups of sectors -/

theorem getLsbD_full : ∀ i : Sector, (0xffff : BitVec 16).getLsbD i = true := by
  decide

theorem Grouped.zero (n : Nat) : Grouped n 0 := by
  intro j
  simp

theorem Grouped.full : Grouped n 0xffff := by
  intro j
  have hle : n * (j / n) ≤ (j : Nat) := mul_div_le _ _
  rw [getLsbD_full j]
  exact (getLsbD_full ⟨n * (j / n), lt_of_le_of_lt hle j.isLt⟩).symm

/-- The start of a sector's group is in an aligned run exactly when the sector is. -/
theorem group_run_iff (hn : 0 < n) {i j : Nat} (hj : n ∣ j) :
    (j ≤ n * (i / n) ∧ n * (i / n) < j + n) ↔ (j ≤ i ∧ i < j + n) := by
  have hle : n * (i / n) ≤ i := mul_div_le _ _
  have hlt : i < n * (i / n) + n := lt_mul_div_succ i hn
  -- either way the group of the sector is the run
  have hrun := eq_of_dvd_of_lt (dvd_mul_right n (i / n)) hj
  omega

theorem Grouped.of_run (hn : 0 < n) {mask' : BitVec 16} {j : Nat} (hj : n ∣ j)
    (hmask : Grouped n mask) (f : Bool → Bool → Bool) (hrun : ∀ i < 16, mask'.getLsbD i =
      f (mask.getLsbD i) (decide (j ≤ i ∧ i < j + n))) : Grouped n mask' := by
  intro i
  have hle : n * (i / n) ≤ (i : Nat) := mul_div_le _ _
  rw [hrun i i.isLt, hrun _ (lt_of_le_of_lt hle i.isLt), hmask i]
  simp [group_run_iff hn hj]

theorem Grouped.dvd_of_lowest_clear (hmask : Grouped n mask) (hclear : mask.getLsbD j = false)
    (hlow : ∀ i < (j : Nat), mask.getLsbD i = true) : n ∣ j := by
  have hle : n * (j / n) ≤ (j : Nat) := mul_div_le _ _
  rcases lt_or_eq_of_le hle with hlt | heq
  · have hset := hlow _ hlt
    rw [← hmask j, hclear] at hset
    exact absurd hset (by decide)
  · exact ⟨j / n, heq.symm⟩

/-! ## The bit fields represent a page table -/

/-- The bit fields and masks of `s` store the page table `t`. -/
structure Represents (s : Mm) (t : PageTable) : Prop where
  pages : ∀ c p, (s.pages c).test p = decide ((t p).cls = c)
  sectors : ∀ p, s.sectorsUsed p = (t p).mask

@[simp]
theorem movePage_sectorsUsed (s : Mm) (src dst : PageClass) (p : Page) :
    (s.movePage src dst p).sectorsUsed = s.sectorsUsed :=
  rfl

@[simp]
theorem setSectors_pages (s : Mm) (p : Page) (mask : BitVec 16) :
    (s.setSectors p mask).pages = s.pages :=
  rfl

@[simp]
theorem setSectors_sectorsUsed (s : Mm) (p : Page) (mask : BitVec 16) :
    (s.setSectors p mask).sectorsUsed = update s.sectorsUsed p mask :=
  rfl

/-- Moving a page between two bit fields, bit by bit. -/
theorem movePage_test (s : Mm) {src dst : PageClass} (hne : src ≠ dst) (p q : Page)
    (c : PageClass) :
    ((s.movePage src dst p).pages c).test q =
      if q = p then (decide (c = dst) || (decide (c ≠ src) && (s.pages c).test q))
      else (s.pages c).test q := by
  simp only [Mm.movePage, update_apply]
  split_ifs <;> simp_all [BitField.test_insert, BitField.test_remove]

namespace Represents

variable {s : Mm} {t : PageTable}

theorem sectors_update (h : Represents s t) (p : Page) (e : PageEntry) (q : Page) :
    update s.sectorsUsed p e.mask q = (update t p e q).mask := by
  by_cases hq : q = p
  · subst hq
    simp
  · simp [update_of_ne hq, h.sectors]

/-- Moving a page to another class and giving it a fitting mask rewrites its entry. -/
theorem move (h : Represents s t) (p : Page) (e : PageEntry) (hne : (t p).cls ≠ e.cls) :
    Represents ((s.movePage (t p).cls e.cls p).setSectors p e.mask)
      (update t p e) := by
  refine ⟨?_, h.sectors_update p e⟩
  intro c q
  rw [setSectors_pages, movePage_test s hne]
  by_cases hq : q = p
  · subst hq
    rw [update_self, h.pages]
    by_cases h1 : c = e.cls
    · simp [h1]
    · by_cases h2 : c = (t q).cls <;> simp [h1, h2, eq_comm]
  · rw [update_of_ne hq, if_neg hq, h.pages]

theorem remask (h : Represents s t) (p : Page) (e : PageEntry) (hcls : (t p).cls = e.cls) :
    Represents (s.setSectors p e.mask) (update t p e) := by
  refine ⟨?_, h.sectors_update p e⟩
  intro c q
  rw [setSectors_pages, h.pages]
  by_cases hq : q = p
  · rw [hq, update_self, hcls]
  · rw [update_of_ne hq]

theorem withStat (h : Represents s t) (stat : MmStat) : Represents { s with stat := stat } t :=
  ⟨h.pages, h.sectors⟩

/-! ## The routines on the page table -/

/-- A pool page and a fresh entry for it: the bit field search succeeds only on
pool pages. -/
theorem find_cls (h : Represents s t) (c : PageClass) :
    (∃ p, findPageInMmBfPages (s.pages c) = some p ∧ (t p).cls = c) ∨
      (findPageInMmBfPages (s.pages c) = none ∧ ∀ p, (t p).cls ≠ c) := by
  simpa only [h.pages, decide_eq_true_eq, decide_eq_false_iff_not] using
    findPageInMmBfPages_spec (s.pages c)

theorem mask_of_pool (he : e.cls = .pool) : e.mask = 0 := by
  have hfits := e.fits
  rwa [he] at hfits

/-- `allocate_8k` takes a pool page whole, or fails for lack of one. -/
theorem allocate8k (h : Represents s t) :
    (Buddy.allocate8k s = (s, none) ∧ ∀ p, (t p).cls ≠ .pool) ∨
      ∃ s' p e, Buddy.allocate8k s = (s', some (sectorAdr p 0)) ∧
        Represents s' (update t p e) ∧ Carve (t p) e 16 0 ∧ (t p).cls = .pool := by
  rcases h.find_cls .pool with ⟨p, hfind, hcls⟩ | ⟨hfind, hall⟩
  · right
    let e : PageEntry := ⟨.full8k, 0xffff, rfl, .full⟩
    have hmove := h.move p e (by rw [hcls]; decide)
    rw [hcls] at hmove
    refine ⟨_, p, e, ?_, hmove, ?_, hcls⟩
    · simp only [Buddy.allocate8k, hfind, sectorAdr]
      simp [e]
    · have hzero := mask_of_pool hcls
      apply Carve.of_mask rfl (by simp) (Or.inl hzero) (by rw [hzero]; rfl)
      intro i
      rw [hzero, getLsbD_full]
      simp [e, PageClass.unit]
  · left
    refine ⟨?_, hall⟩
    simp [Buddy.allocate8k, hfind]

end Represents

/-- What `allocate_2k` and `allocate_512` rely on: the two bit fields are
those of blocks of `n` sectors, and `unit` is the mask of the first one. -/
structure SectorClass (part full : PageClass) (unit : BitVec 16) (n : Nat) : Prop where
  part_unit : part.unit = n
  full_unit : full.unit = n
  part_occ : part.occupancy = .part
  full_occ : full.occupancy = .full
  bits : ∀ j, unit.getLsbD j = decide (j < n)
  dvd : n ∣ 16
  lt : n < 16

theorem sectorClass_2k : SectorClass .partial2k .full2k 0x000f 4 :=
  ⟨rfl, rfl, rfl, rfl, getLsbD_ones (w := 16) (k := 4) (by decide), by decide, by decide⟩

theorem sectorClass_512 : SectorClass .partial512 .full512 1 1 :=
  ⟨rfl, rfl, rfl, rfl, getLsbD_ones (w := 16) (k := 1) (by decide), by decide, by decide⟩

namespace SectorClass

variable {part full : PageClass} {unit : BitVec 16}

section

variable (hc : SectorClass part full unit n)
include hc

theorem pos : 0 < n :=
  hc.part_unit ▸ part.unit_pos

theorem part_ne_full : part ≠ full := by
  rintro rfl
  cases hc.part_occ.symm.trans hc.full_occ

theorem part_ne_pool : part ≠ .pool := by
  rintro rfl
  cases hc.part_occ

theorem or_bits (mask : BitVec 16) (j i : Nat) (hi : i < 16) : (mask ||| unit <<< j).getLsbD i =
      (mask.getLsbD i || decide (j ≤ i ∧ i < j + n)) :=
  getLsbD_setRun mask unit n j i hc.bits hi

theorem and_bits (mask : BitVec 16) (j i : Nat) (hi : i < 16) :
    (mask &&& (0xffff ^^^ unit <<< j)).getLsbD i =
      (mask.getLsbD i && !decide (j ≤ i ∧ i < j + n)) :=
  getLsbD_clearRun mask unit n j i hc.bits hi

/-- The first block of a fresh page leaves the page partly used. -/
theorem unit_part : unit ≠ 0 ∧ unit ≠ 0xffff := by
  constructor
  · intro h
    have hbit := hc.bits 0
    rw [h] at hbit
    simp [hc.pos] at hbit
  · intro h
    have hbit := hc.bits 15
    rw [h] at hbit
    have hlt := hc.lt
    simp at hbit
    omega

end

/-- The entry of a page with its first block taken. -/
def firstEntry (hc : SectorClass part full unit n) : PageEntry where
  cls := part
  mask := unit
  fits := by
    rw [hc.part_occ]
    exact hc.unit_part
  grouped := by
    rw [hc.part_unit]
    refine Grouped.of_run hc.pos (dvd_zero n) (Grouped.zero n) (fun _ b => b) ?_
    intro i _
    rw [hc.bits]
    simp

section

variable (hc : SectorClass part full unit n)
include hc

theorem grouped_or (hmask : Grouped n mask) {j : Nat} (hj : n ∣ j) :
    Grouped n (mask ||| unit <<< j) :=
  .of_run hc.pos hj hmask (fun a b => a || b) (hc.or_bits mask j)

theorem grouped_and (hmask : Grouped n mask) {j : Nat} (hj : n ∣ j) :
    Grouped n (mask &&& (0xffff ^^^ unit <<< j)) :=
  .of_run hc.pos hj hmask (fun a b => a && !b) (hc.and_bits mask j)

/-- Marking a block leaves its first sector used. -/
theorem or_ne_zero (mask : BitVec 16) (j : Sector) : mask ||| unit <<< (j : Nat) ≠ 0 := by
  intro h
  have hbit := hc.or_bits mask j j j.isLt
  simp [h, hc.pos] at hbit

/-- Clearing a block leaves its first sector unused. -/
theorem and_ne_full (mask : BitVec 16) (j : Sector) :
    mask &&& (0xffff ^^^ unit <<< (j : Nat)) ≠ 0xffff := by
  intro h
  have hbit := hc.and_bits mask j j j.isLt
  rw [h, getLsbD_full] at hbit
  simp [hc.pos] at hbit

/-- A full page keeps other blocks when one is cleared. -/
theorem and_ne_zero_of_full (j : Sector) :
    (0xffff : BitVec 16) &&& (0xffff ^^^ unit <<< (j : Nat)) ≠ 0 := by
  intro h
  have hlt := hc.lt
  -- a run shorter than the page misses its first or its last sector
  obtain ⟨i, hi⟩ : ∃ i : Sector, ¬((j : Nat) ≤ i ∧ (i : Nat) < j + n) := by
    by_cases hj : (j : Nat) = 0
    · exact ⟨15, by simp; omega⟩
    · exact ⟨0, by simp; omega⟩
  have hbit := hc.and_bits 0xffff j i i.isLt
  rw [h, getLsbD_full, decide_eq_false hi] at hbit
  simp at hbit

end

end SectorClass

theorem setSectors_movePage (s : Mm) (src dst : PageClass) (p : Page) (mask : BitVec 16) :
    (s.setSectors p mask).movePage src dst p = (s.movePage src dst p).setSectors p mask :=
  rfl

namespace Represents

variable {s : Mm} {t : PageTable} {part full : PageClass} {unit : BitVec 16} {p : Page}

private theorem carve_first (hc : SectorClass part full unit n) (hcls : (t p).cls = .pool) :
    Carve (t p) hc.firstEntry n 0 := by
  have hzero := mask_of_pool hcls
  apply Carve.of_mask hc.part_unit (dvd_zero n) (Or.inl hzero) (by rw [hzero]; rfl)
  intro i
  have hget : (0 : BitVec 16).getLsbD i = false := by simp
  rw [hzero, hget, Bool.false_or, SectorClass.firstEntry, hc.bits]
  simp

/-- `allocate_2k` and `allocate_512` carve one block out of a partial or a
pool page, or fail for lack of both.  The internal panic is not taken. -/
theorem allocateSectors (h : Represents s t) (hc : SectorClass part full unit n)
    (noSector : String) :
    (Buddy.allocateSectors part full unit noSector s = .ok (s, none) ∧
        (∀ p, (t p).cls ≠ part) ∧ ∀ p, (t p).cls ≠ .pool) ∨
      ∃ s' p j e, Buddy.allocateSectors part full unit noSector s =
          .ok (s', some (sectorAdr p j)) ∧
        Represents s' (update t p e) ∧ Carve (t p) e n j ∧
        ((t p).cls = part ∨ (t p).cls = .pool) := by
  rcases h.find_cls part with ⟨p, hfind, hcls⟩ | ⟨hfind, hall⟩
  · right
    have hfits := (t p).fits
    have hgroup := (t p).grouped
    rw [hcls, hc.part_occ] at hfits
    rw [hcls, hc.part_unit] at hgroup
    obtain ⟨j, hzero, hclear, hlow⟩ := firstZeroBitIndexInU16_spec _ hfits.2
    have hj : n ∣ j := hgroup.dvd_of_lowest_clear hclear hlow
    have hbits := hc.or_bits (t p).mask j
    have hgroup' := hc.grouped_or hgroup hj
    -- the page stays partial, or becomes full
    by_cases hfull : (t p).mask ||| unit <<< (j : Nat) = 0xffff
    · let e : PageEntry := ⟨full, (t p).mask ||| unit <<< (j : Nat),
        by rw [hc.full_occ]; exact hfull, by rw [hc.full_unit]; exact hgroup'⟩
      have hmove := h.move p e (by rw [hcls]; exact hc.part_ne_full)
      rw [hcls] at hmove
      refine ⟨_, p, j, e, ?_, hmove, ?_, .inl hcls⟩
      · simp [Buddy.allocateSectors, hfind, h.sectors, hzero, setSectors_sectorsUsed, hfull,
          setSectors_movePage, e]
      · exact .of_mask hc.full_unit hj (.inr (by rw [hcls, hc.part_unit])) hclear
          fun i => hbits i i.isLt
    · let e : PageEntry := ⟨part, (t p).mask ||| unit <<< (j : Nat),
        by rw [hc.part_occ]; exact ⟨hc.or_ne_zero _ _, hfull⟩,
        by rw [hc.part_unit]; exact hgroup'⟩
      refine ⟨_, p, j, e, ?_, h.remask p e hcls, ?_, .inl hcls⟩
      · simp only [Buddy.allocateSectors, hfind, h.sectors, hzero, setSectors_sectorsUsed,
          update_self, hfull, if_false, e]
      · exact .of_mask hc.part_unit hj (.inr (by rw [hcls, hc.part_unit])) hclear
          fun i => hbits i i.isLt
  · rcases h.find_cls .pool with ⟨p, hpool, hcls⟩ | ⟨hpool, hnone⟩
    · right
      have hmove := h.move p hc.firstEntry (by rw [hcls]; exact hc.part_ne_pool.symm)
      rw [hcls] at hmove
      refine ⟨_, p, 0, hc.firstEntry, ?_, hmove, carve_first hc hcls, .inr hcls⟩
      simp [Buddy.allocateSectors, hfind, hpool, SectorClass.firstEntry]
    · left
      refine ⟨?_, hall, hnone⟩
      simp [Buddy.allocateSectors, hfind, hpool]

/-- `free_8k` gives the whole page back to the pool. -/
theorem free8k (h : Represents s t) (hcls : (t p).cls = .full8k) :
    ∃ e, Represents (Buddy.free8k p s) (update t p e) ∧ Release (t p) e 0 := by
  let e : PageEntry := ⟨.pool, 0, rfl, .zero _⟩
  have hmove := h.move p e (by rw [hcls]; decide)
  rw [hcls] at hmove
  refine ⟨e, hmove, .of_mask (dvd_zero _) (.inl rfl) ?_⟩
  intro i
  simp [e, hcls, PageClass.unit]

/-- `free_2k` and `free_512` give one block of their page back, and the
page to the pool with its last block. -/
theorem freeSectors (h : Represents s t) (hc : SectorClass part full unit n)
    (hcls : (t p).cls = part ∨ (t p).cls = full) (hj : n ∣ j) :
    ∃ e, Represents (Buddy.freeSectors part full unit p j s) (update t p e) ∧
      Release (t p) e j := by
  have hunit : (t p).cls.unit = n := by
    rcases hcls with hcls | hcls
    · rw [hcls, hc.part_unit]
    · rw [hcls, hc.full_unit]
  have hgroup := (t p).grouped
  have hfits := (t p).fits
  rw [hunit] at hgroup
  have hgroup' := hc.grouped_and hgroup hj
  have hbits (i : Sector) : ((t p).mask &&& (0xffff ^^^ unit <<< (j : Nat))).getLsbD i =
      ((t p).mask.getLsbD i && !decide ((j : Nat) ≤ i ∧ (i : Nat) < j + (t p).cls.unit)) := by
    rw [hunit]
    exact hc.and_bits _ j i i.isLt
  have hj' : (t p).cls.unit ∣ j := by rwa [hunit]
  rcases hcls with hcls | hcls
  · -- a partial page: it stays partial, or its last block goes
    rw [hcls, hc.part_occ] at hfits
    by_cases hzero : (t p).mask &&& (0xffff ^^^ unit <<< (j : Nat)) = 0
    · let e : PageEntry := ⟨.pool, (t p).mask &&& (0xffff ^^^ unit <<< (j : Nat)), hzero,
        by rw [hzero]; exact .zero _⟩
      have hmove := h.move p e (by rw [hcls]; exact hc.part_ne_pool)
      rw [hcls] at hmove
      refine ⟨e, ?_, .of_mask hj' (.inl hzero) hbits⟩
      simpa only [Buddy.freeSectors, h.sectors, hfits.2, if_false, setSectors_sectorsUsed,
        update_self, hzero, if_true, setSectors_movePage, e] using hmove
    · let e : PageEntry := ⟨part, (t p).mask &&& (0xffff ^^^ unit <<< (j : Nat)),
        by rw [hc.part_occ]; exact ⟨hzero, hc.and_ne_full _ _⟩,
        by rw [hc.part_unit]; exact hgroup'⟩
      refine ⟨e, ?_, .of_mask hj' (.inr (hc.part_unit.trans hunit.symm)) hbits⟩
      simpa only [Buddy.freeSectors, h.sectors, hfits.2, if_false, setSectors_sectorsUsed,
        update_self, hzero, e] using h.remask p e hcls
  · -- a full page becomes partial
    rw [hcls, hc.full_occ] at hfits
    have hzero : (t p).mask &&& (0xffff ^^^ unit <<< (j : Nat)) ≠ 0 := by
      rw [show (t p).mask = 0xffff from hfits]
      exact hc.and_ne_zero_of_full j
    let e : PageEntry := ⟨part, (t p).mask &&& (0xffff ^^^ unit <<< (j : Nat)),
      by rw [hc.part_occ]; exact ⟨hzero, hc.and_ne_full _ _⟩,
      by rw [hc.part_unit]; exact hgroup'⟩
    have hmove := h.move p e (by rw [hcls]; exact hc.part_ne_full.symm)
    rw [hcls] at hmove
    refine ⟨e, ?_, .of_mask hj' (.inr (hc.part_unit.trans hunit.symm)) hbits⟩
    have hmask : s.sectorsUsed p = 0xffff := (h.sectors p).trans hfits
    have hzero' : s.sectorsUsed p &&& (0xffff ^^^ unit <<< (j : Nat)) ≠ 0 := by
      rwa [h.sectors]
    simp only [Buddy.freeSectors, if_pos hmask, movePage_sectorsUsed, setSectors_sectorsUsed,
      update_self, if_neg hzero']
    rw [h.sectors]
    exact hmove

end Represents

end LteModemKernel.Buddy
