import LteModemKernel.Lib.Runs
import LteModemKernel.Buddy.Pages

/-!
# Live blocks of the buddy manager

A run of the manager is a sequence of requests: `alloc` of at most 8 KB, and
`free` of the address of a block that is still live.  The list of live blocks
is kept beside the manager's state.  The manager itself never sees it, and finds
the class of a freed block again from its bit fields.

The invariant ties three things together: the bit fields represent a page table,
each live block starts at a used block of that table, and each used block of the
table is live.

Main results:

- Theorem `liveBlocks_disjoint`: live blocks are disjoint, well placed and long
  enough, and `free` releases exactly the sectors of its block.
- Theorem `pageFields_partition`: every page is in exactly one bit field, with a
  mask that fits, so that the internal panics are unreachable.
-/

namespace LteModemKernel.Buddy

open Lib Function List TransitionSystem Nat

variable {j i : Sector} {s : Mm} {t : PageTable} {live : List Block} {w : World} {e : PageEntry}
  {b : Block} {size : BitVec 16} {p q : Page}

/-! ## Blocks and runs -/

/-- The length of the blocks that `alloc` chooses for a requested size. -/
def blockLen (size : BitVec 16) : Nat :=
  if size.toNat > 2048 then 8192 else if size.toNat > 512 then 2048 else 512

/-- A block handed out: its address and the size that was asked for. -/
structure Block where
  adr : Nat
  size : BitVec 16
  deriving DecidableEq

namespace Block

def len (b : Block) : Nat := blockLen b.size

/-- The two blocks have no byte in common. -/
def Disjoint (b b' : Block) : Prop :=
  b.adr + b.len ≤ b'.adr ∨ b'.adr + b'.len ≤ b.adr

/-- The block lies in the managed memory, is aligned on its length and long enough. -/
structure WellPlaced (b : Block) : Prop where
  lower : mmMemBaseAdr ≤ b.adr
  upper : b.adr + b.len ≤ mmMemBaseAdr + mmMemSize
  aligned : b.len ∣ b.adr
  enough : b.size.toNat ≤ b.len

/-- The sector `j` of page `p` belongs to the block. -/
def Covers (b : Block) (p : Page) (j : Sector) : Prop :=
  b.adr ≤ sectorAdr p j ∧ sectorAdr p j < b.adr + b.len

end Block

/-- The manager together with the blocks its callers still hold. -/
structure World where
  mm : Mm
  live : List Block

/-- A request to the manager. -/
inductive Op where
  | alloc (size : BitVec 16)
  | free (adr : Nat)

/-- What callers may ask for: at most 8 KB, and the address of a live block. -/
def Op.Legal (w : World) : Op → Prop
  | alloc size => size.toNat ≤ mmPageSize
  | free adr => ∃ b ∈ w.live, b.adr = adr

instance (w : World) (a : Op) : Decidable (a.Legal w) := by
  cases a <;> unfold Op.Legal <;> infer_instance

/-- Serve one request and update the list of live blocks. -/
def World.exec (w : World) : Op → Except String World
  | .alloc size =>
    match dataUlMmBuddyAlloc w.mm size with
    | .error text => .error text
    | .ok (mm, none) => .ok ⟨mm, w.live⟩
    | .ok (mm, some adr) => .ok ⟨mm, ⟨adr, size⟩ :: w.live⟩
  | .free adr =>
    match dataUlMmBuddyFree w.mm adr with
    | .error text => .error text
    | .ok mm => .ok ⟨mm, w.live.filter fun b => b.adr ≠ adr⟩

/-- The manager under legal requests, from its initial state on. -/
def system : TransitionSystem World Op where
  init w := w = ⟨dataUlMmBuddyInit, []⟩
  step w a w' := a.Legal w ∧ w.exec a = .ok w'

/-- The sector is marked as used. -/
def Used (s : Mm) (p : Page) (j : Sector) : Prop :=
  (s.sectorsUsed p).getLsbD j = true

/-! ## Sector addresses -/

theorem sectorAdr_bounds (p : Page) (j : Sector) :
    mmMemBaseAdr ≤ sectorAdr p j ∧ sectorAdr p j + mmSectorSize ≤ mmMemBaseAdr + mmMemSize := by
  unfold sectorAdr mmMemBaseAdr mmMemSize mmPageSize mmSectorSize
  omega

theorem pageOf_sectorAdr (p : Page) (j : Sector)
    (h : sectorAdr p j < mmMemBaseAdr + mmMemSize) : pageOf (sectorAdr p j) h = p := by
  apply Fin.ext
  simp only [pageOf, sectorAdr, mmMemBaseAdr, mmPageSize, mmSectorSize]
  omega

theorem sectorOf_sectorAdr (p : Page) (j : Sector) : sectorOf (sectorAdr p j) = j := by
  apply Fin.ext
  simp only [sectorOf, sectorAdr, mmMemBaseAdr, mmPageSize, mmSectorSize]
  omega

theorem sectorAdr_injective (h : sectorAdr p i = sectorAdr q j) : p = q ∧ i = j := by
  simp only [sectorAdr, mmMemBaseAdr, mmPageSize, mmSectorSize] at h
  constructor
  · apply Fin.ext
    omega
  · apply Fin.ext
    omega

/-! ## The entry points on the page table -/

/-- The bit field of the partly used pages that `alloc` searches first for a size
of at most 2 KB. -/
def partialOf (size : BitVec 16) : PageClass :=
  if size.toNat > 512 then .partial2k else .partial512

/-- What `alloc` of `size` bytes returns: no block for lack of a page, or a block carved out
of one. -/
def Allocated (t : PageTable) (size : BitVec 16) (r : Except String (Mm × Option Nat)) : Prop :=
  (∃ s', r = .ok (s', none) ∧ Represents s' t ∧
      (∀ p, (t p).cls ≠ .pool) ∧ (size.toNat ≤ 2048 → ∀ p, (t p).cls ≠ partialOf size)) ∨
    ∃ s' p j e n, r = .ok (s', some (sectorAdr p j)) ∧
      Represents s' (update t p e) ∧ Carve (t p) e n j ∧
      n * mmSectorSize = blockLen size ∧
      ((t p).cls = .pool ∨ size.toNat ≤ 2048 ∧ (t p).cls = partialOf size)

/-- The sector allocation together with the statistics that `alloc` keeps of it. -/
theorem Represents.allocateRecorded (h : Represents s t) {full : PageClass} {unit : BitVec 16}
    {n : Nat} (hc : SectorClass (partialOf size) full unit n) (hsmall : size.toNat ≤ 2048)
    (hlen : n * mmSectorSize = blockLen size) {noSector : String}
    (record : MmStat → Option Nat → MmStat) {r : Except String (Mm × Option Nat)} (hdef : r = do
      let (s, adr) ← Buddy.allocateSectors (partialOf size) full unit noSector s
      .ok ({ s with stat := record s.stat adr }, adr)) : Allocated t size r := by
  rcases h.allocateSectors hc noSector with
    ⟨hres, hnone, hpool⟩ | ⟨s', p, j, e, hres, hrep, hcarve, hfrom⟩
  · rw [hres] at hdef
    exact .inl ⟨_, hdef, h.withStat _, hpool, fun _ => hnone⟩
  · rw [hres] at hdef
    exact .inr ⟨_, p, j, e, n, hdef, hrep.withStat _, hcarve, hlen,
      hfrom.symm.imp_right fun hcls => ⟨hsmall, hcls⟩⟩

theorem Represents.buddyAlloc (h : Represents s t) (size : BitVec 16)
    (hsize : size.toNat ≤ mmPageSize) : Allocated t size (dataUlMmBuddyAlloc s size) := by
  have hle : ¬size.toNat > mmPageSize := not_lt.mpr hsize
  have hreq := h.withStat (s.stat.request size)
  by_cases h8 : size.toNat > 2048
  · rcases hreq.allocate8k with ⟨hres, hpool⟩ | ⟨s', p, e, hres, hrep, hcarve, hfrom⟩
    · left
      refine ⟨_, ?_, hreq.withStat ((s.stat.request size).record8k size none), hpool, ?_⟩
      · simp [dataUlMmBuddyAlloc, hle, h8, hres]
      · intro hsmall
        omega
    · right
      refine ⟨_, p, 0, e, 16, ?_,
        hrep.withStat (s'.stat.record8k size (some (sectorAdr p 0))), hcarve, ?_, .inl hfrom⟩
      · simp [dataUlMmBuddyAlloc, hle, h8, hres]
      · simp [blockLen, h8, mmSectorSize]
  · have hsmall : size.toNat ≤ 2048 := Nat.le_of_not_lt h8
    by_cases h2 : size.toNat > 512
    · have hpart : partialOf size = .partial2k := by rw [partialOf, if_pos h2]
      have hdef := dataUlMmBuddyAlloc.eq_1 s size
      simp only [hle, if_false, h8, h2, if_true, allocate2k, ← hpart] at hdef
      exact hreq.allocateRecorded (by rw [hpart]; exact sectorClass_2k) hsmall
        (by simp [blockLen, h8, h2, mmSectorSize]) (fun t => t.record2k size) hdef
    · have hpart : partialOf size = .partial512 := by rw [partialOf, if_neg h2]
      have hdef := dataUlMmBuddyAlloc.eq_1 s size
      simp only [hle, if_false, h8, h2, allocate512, ← hpart] at hdef
      exact hreq.allocateRecorded (by rw [hpart]; exact sectorClass_512) hsmall
        (by simp [blockLen, h8, h2, mmSectorSize]) (fun t => t.record512 size) hdef

/-- A page with a used sector that serves neither 8 KB nor 2 KB serves 512 bytes. -/
theorem PageEntry.cls_512 (e : PageEntry) (hbit : e.mask.getLsbD j = true) (h8 : e.cls ≠ .full8k)
    (h2 : ¬(e.cls = .partial2k ∨ e.cls = .full2k)) : e.cls = .partial512 ∨ e.cls = .full512 := by
  cases hcls : e.cls with
  | pool =>
    rw [Represents.mask_of_pool hcls] at hbit
    simp at hbit
  | full8k => exact absurd hcls h8
  | partial2k => exact absurd (.inl hcls) h2
  | full2k => exact absurd (.inr hcls) h2
  | partial512 => exact .inl rfl
  | full512 => exact .inr rfl

/-- `free` of a sector address: the address checks pass, and the three tests find
the class of the page. -/
theorem Represents.buddyFree_eq (h : Represents s t) (p : Page)
    (j : Sector) : dataUlMmBuddyFree s (sectorAdr p j) =
      if (t p).mask.getLsbD j = false then .error "4GHIF ERROR: MM: FREE SECTOR NOT USED"
      else if (t p).cls = .full8k then .ok (Buddy.free8k p s)
      else if (t p).cls = .partial2k ∨ (t p).cls = .full2k then free2k p j s
      else .ok (free512 p j s) := by
  have hbounds := sectorAdr_bounds p j
  have hin : ¬(sectorAdr p j < mmMemBaseAdr ∨ sectorAdr p j ≥ mmMemBaseAdr + mmMemSize) := by
    unfold mmSectorSize at hbounds
    omega
  have halign : ¬(sectorAdr p j - mmMemBaseAdr) % mmSectorSize ≠ 0 := by
    simp only [sectorAdr, mmMemBaseAdr, mmPageSize, mmSectorSize]
    omega
  have hused : (t p).mask &&& 1 <<< (j : Nat) = 0 ↔ (t p).mask.getLsbD j = false := by
    rw [← Bool.not_eq_true, ← and_bit_ne_zero_iff _ j.isLt, not_not]
    rfl
  simp only [dataUlMmBuddyFree, hin, dif_neg, not_false_eq_true, halign, if_false,
    pageOf_sectorAdr p j (by omega), sectorOf_sectorAdr p j, h.sectors, hused, h.pages,
    Bool.or_eq_true, decide_eq_true_eq]

theorem Represents.buddyFree (h : Represents s t) (hstart : (t p).Starts j) :
    ∃ s' e, dataUlMmBuddyFree s (sectorAdr p j) = .ok s' ∧
      Represents s' (update t p e) ∧ Release (t p) e j := by
  rw [h.buddyFree_eq, if_neg (by simp [hstart.1])]
  split_ifs with h8 h2
  · obtain ⟨e, hrep, hrel⟩ := h.free8k h8
    have hj : j = 0 := by
      have hdvd := hstart.2
      rw [h8] at hdvd
      exact Fin.ext (eq_zero_of_dvd_of_lt hdvd j.isLt)
    subst hj
    exact ⟨_, e, rfl, hrep, hrel⟩
  · have hdvd : 4 ∣ (j : Nat) := by
      have hdvd := hstart.2
      rcases h2 with h2 | h2 <;> rwa [h2] at hdvd
    obtain ⟨e, hrep, hrel⟩ := h.freeSectors sectorClass_2k h2 hdvd
    refine ⟨_, e, ?_, hrep, hrel⟩
    simp [free2k, mod_eq_zero_of_dvd hdvd]
  · have h5 := (t p).cls_512 hstart.1 h8 h2
    obtain ⟨e, hrep, hrel⟩ := h.freeSectors sectorClass_512 h5 (one_dvd (j : Nat))
    exact ⟨_, e, rfl, hrep, hrel⟩

/-! ## Ownership -/

/-- The live blocks are exactly the used blocks of the page table, each once. -/
structure Owns (t : PageTable) (live : List Block) : Prop where
  distinct : live.Pairwise fun b b' => b.adr ≠ b'.adr
  placed : ∀ b ∈ live, ∃ p j, (t p).Starts j ∧ b.adr = sectorAdr p j ∧
    b.len = (t p).cls.unit * mmSectorSize ∧ b.size.toNat ≤ b.len
  owned : ∀ p j, (t p).Starts j → ∃ b ∈ live, b.adr = sectorAdr p j

theorem size_le_blockLen (h : size.toNat ≤ mmPageSize) : size.toNat ≤ blockLen size := by
  unfold mmPageSize at h
  unfold blockLen
  split_ifs <;> omega

/-- A carved block joins the live blocks. -/
theorem Owns.carve (h : Owns t live) {n : Nat} (hcarve : Carve (t p) e n j)
    (hlen : n * mmSectorSize = blockLen size) (hsize : size.toNat ≤ mmPageSize) :
    Owns (update t p e) (⟨sectorAdr p j, size⟩ :: live) := by
  refine ⟨pairwise_cons.mpr ⟨?_, h.distinct⟩, ?_, ?_⟩
  · intro b hb heq
    obtain ⟨q, i, hstart, hadr, -, -⟩ := h.placed b hb
    have hsame : sectorAdr p j = sectorAdr q i := heq.trans hadr
    obtain ⟨rfl, rfl⟩ := sectorAdr_injective hsame
    exact hcarve.fresh hstart
  · intro b hb
    rcases mem_cons.mp hb with rfl | hb
    · refine ⟨p, j, ?_, rfl, ?_, size_le_blockLen hsize⟩
      · rw [update_self]
        exact (hcarve.starts j).mpr (.inr rfl)
      · rw [update_self, hcarve.unit, hlen]
        rfl
    · obtain ⟨q, i, hstart, hadr, hblen, hbsize⟩ := h.placed b hb
      refine ⟨q, i, ?_⟩
      by_cases hq : q = p
      · subst hq
        rw [update_self, hcarve.unit, ← hcarve.keeps i hstart]
        exact ⟨(hcarve.starts i).mpr (.inl hstart), hadr, hblen, hbsize⟩
      · rw [update_of_ne hq]
        exact ⟨hstart, hadr, hblen, hbsize⟩
  · intro q i hstart
    by_cases hq : q = p
    · subst hq
      rw [update_self] at hstart
      rcases (hcarve.starts i).mp hstart with hold | rfl
      · obtain ⟨b, hb, hadr⟩ := h.owned q i hold
        exact ⟨b, mem_cons_of_mem _ hb, hadr⟩
      · exact ⟨_, mem_cons_self, rfl⟩
    · rw [update_of_ne hq] at hstart
      obtain ⟨b, hb, hadr⟩ := h.owned q i hstart
      exact ⟨b, mem_cons_of_mem _ hb, hadr⟩

/-- A released block leaves the live blocks. -/
theorem Owns.release (h : Owns t live) (hrel : Release (t p) e j) :
    Owns (update t p e) (live.filter fun b => b.adr ≠ sectorAdr p j) := by
  refine ⟨h.distinct.filter _, ?_, ?_⟩
  · intro b hb
    rw [mem_filter, decide_eq_true_eq] at hb
    obtain ⟨q, i, hstart, hadr, hblen, hbsize⟩ := h.placed b hb.1
    refine ⟨q, i, ?_⟩
    by_cases hq : q = p
    · subst hq
      have hne : i ≠ j := fun hij => hb.2 (by rw [hadr, hij])
      have hstart' : e.Starts i := (hrel.starts i).mpr ⟨hstart, hne⟩
      rw [update_self, hrel.keeps i hstart']
      exact ⟨hstart', hadr, hblen, hbsize⟩
    · rw [update_of_ne hq]
      exact ⟨hstart, hadr, hblen, hbsize⟩
  · intro q i hstart
    have hold : (t q).Starts i ∧ sectorAdr q i ≠ sectorAdr p j := by
      by_cases hq : q = p
      · subst hq
        rw [update_self] at hstart
        obtain ⟨hold, hne⟩ := (hrel.starts i).mp hstart
        exact ⟨hold, fun heq => hne (sectorAdr_injective heq).2⟩
      · rw [update_of_ne hq] at hstart
        exact ⟨hstart, fun heq => hq (sectorAdr_injective heq).1⟩
    obtain ⟨b, hb, hadr⟩ := h.owned q i hold.1
    refine ⟨b, mem_filter.mpr ⟨hb, ?_⟩, hadr⟩
    rw [decide_eq_true_eq, hadr]
    exact hold.2

/-- A block does not run past the end of its page. -/
theorem PageEntry.Starts.add_unit_le (h : e.Starts j) : (j : Nat) + e.cls.unit ≤ 16 := by
  have hle := le_of_dvd (by omega) (dvd_sub e.cls.unit_dvd_sixteen h.2)
  omega

/-- Used blocks with different start addresses are disjoint. -/
theorem Owns.disjoint (h : Owns t live) {b' : Block} (hb : b ∈ live) (hb' : b' ∈ live)
    (hne : b.adr ≠ b'.adr) : b.Disjoint b' := by
  obtain ⟨p, i, hi, hadr, hlen, -⟩ := h.placed b hb
  obtain ⟨q, j, hj, hadr', hlen', -⟩ := h.placed b' hb'
  have hie := hi.add_unit_le
  have hje := hj.add_unit_le
  unfold Block.Disjoint
  rw [hadr, hadr'] at hne ⊢
  rw [hlen, hlen']
  by_cases hpq : p = q
  · subst hpq
    have hij : i ≠ j := fun hij => hne (by rw [hij])
    have hsep : (i : Nat) + (t p).cls.unit ≤ j ∨ (j : Nat) + (t p).cls.unit ≤ i := by
      by_contra hnot
      exact hij (Fin.ext (eq_of_dvd_of_lt hi.2 hj.2 (by omega) (by omega)))
    simp only [sectorAdr, mmSectorSize]
    omega
  · have hpq' : (p : Nat) ≠ q := fun heq => hpq (Fin.ext heq)
    simp only [sectorAdr, mmSectorSize, mmPageSize]
    omega

theorem Owns.wellPlaced (h : Owns t live) (hb : b ∈ live) : b.WellPlaced := by
  obtain ⟨p, j, hstart, hadr, hlen, hsize⟩ := h.placed b hb
  have hend := hstart.add_unit_le
  have hp : (p : Nat) < 48 := p.isLt
  refine ⟨?_, ?_, ?_, hsize⟩
  · rw [hadr]
    exact (sectorAdr_bounds p j).1
  · rw [hadr, hlen]
    simp only [sectorAdr, mmMemBaseAdr, mmMemSize, mmPageSize, mmSectorSize]
    omega
  · -- base address and page size are multiples of every block length
    rw [hadr, hlen, sectorAdr]
    have hunit : (t p).cls.unit * mmSectorSize ∣ mmPageSize :=
      mul_dvd_mul_right (t p).cls.unit_dvd_sixteen mmSectorSize
    have hbase : mmPageSize ∣ mmMemBaseAdr := by decide
    exact dvd_add (dvd_add (hunit.trans hbase) (hunit.mul_left _))
      (mul_dvd_mul_right hstart.2 mmSectorSize)

theorem covers_iff (hstart : (t p).Starts j) (hadr : b.adr = sectorAdr p j)
    (hlen : b.len = (t p).cls.unit * mmSectorSize) :
    b.Covers q i ↔ q = p ∧ (j : Nat) ≤ i ∧ (i : Nat) < j + (t p).cls.unit := by
  have hend := hstart.add_unit_le
  have hi := i.isLt
  unfold Block.Covers
  rw [hadr, hlen]
  simp only [sectorAdr, mmPageSize, mmSectorSize]
  constructor
  · intro h
    have hqp : (q : Nat) = p := by omega
    exact ⟨Fin.ext hqp, by omega, by omega⟩
  · rintro ⟨rfl, h1, h2⟩
    omega

theorem used_of_covers (hrep : Represents s t) (hown : Owns t live) (hb : b ∈ live)
    (hcov : b.Covers q i) : Used s q i := by
  obtain ⟨p, j, hstart, hadr, hlen, -⟩ := hown.placed b hb
  obtain ⟨rfl, h1, h2⟩ := (covers_iff hstart hadr hlen).mp hcov
  have hdvd := hstart.2
  have hgroup : (t q).cls.unit * (i / (t q).cls.unit) = (j : Nat) := by
    have hpos := (t q).cls.unit_pos
    have hrun := (group_run_iff hpos hdvd).mpr ⟨h1, h2⟩
    exact eq_of_dvd_of_lt (.intro _ rfl) hdvd hrun.2 (by omega)
  unfold Used
  rw [hrep.sectors, (t q).grouped i, hgroup]
  exact hstart.1

/-! ## The invariant of a run -/

/-- The bit fields represent a page table whose used blocks are the live ones. -/
def World.Inv (w : World) : Prop :=
  ∃ t, Represents w.mm t ∧ Owns t w.live

/-- The page table of the initial state: all pages in the pool. -/
def poolTable : PageTable := fun _ => ⟨.pool, 0, rfl, Grouped.zero _⟩

theorem init_represents : Represents dataUlMmBuddyInit poolTable := by
  constructor
  · intro c p
    have hbit : p % 16 < 16 := mod_lt _ (by decide)
    cases c with
    | pool => exact getLsbD_full ⟨p % 16, hbit⟩
    | full8k | partial2k | full2k | partial512 | full512 =>
      simp [dataUlMmBuddyInit, BitField.test, poolTable]
  · intro p
    rfl

theorem init_inv : World.Inv ⟨dataUlMmBuddyInit, []⟩ := by
  refine ⟨poolTable, init_represents, .nil, by simp, ?_⟩
  rintro p j ⟨hbit, -⟩
  simp [poolTable] at hbit

/-- A used page holds the start of a block. -/
theorem PageEntry.exists_starts (he : e.cls ≠ .pool) : ∃ j, e.Starts j := by
  have hne : e.mask ≠ 0 := by
    have hfits := e.fits
    cases hcls : e.cls with
    | pool => exact absurd hcls he
    | full8k | full2k | full512 =>
      rw [hcls] at hfits
      exact fun hzero => absurd (hzero.symm.trans hfits) (by decide)
    | partial2k | partial512 =>
      rw [hcls] at hfits
      exact hfits.1
  obtain ⟨i, -, hi, -⟩ := firstOneBitIndexInU16_spec _ hne
  have hle : e.cls.unit * (i / e.cls.unit) ≤ (i : Nat) := mul_div_le _ _
  refine ⟨⟨e.cls.unit * (i / e.cls.unit), lt_of_le_of_lt hle i.isLt⟩, ?_, dvd_mul_right _ _⟩
  rw [← e.grouped i]
  exact hi

/-- `alloc` hands out a new block, or fails while some block is still held. -/
theorem World.Inv.alloc (hw : w.Inv) (hsize : size.toNat ≤ mmPageSize) :
    (∃ mm, dataUlMmBuddyAlloc w.mm size = .ok (mm, none) ∧ World.Inv ⟨mm, w.live⟩ ∧
        w.live ≠ []) ∨
      ∃ mm adr, dataUlMmBuddyAlloc w.mm size = .ok (mm, some adr) ∧
        World.Inv ⟨mm, ⟨adr, size⟩ :: w.live⟩ := by
  obtain ⟨t, hrep, hown⟩ := hw
  rcases hrep.buddyAlloc size hsize with
    ⟨mm, hres, hrep', hpool, -⟩ | ⟨mm, p, j, e, n, hres, hrep', hc, hn, -⟩
  · left
    refine ⟨mm, hres, ⟨t, hrep', hown⟩, ?_⟩
    obtain ⟨j, hstart⟩ := PageEntry.exists_starts (hpool 0)
    obtain ⟨b, hb, -⟩ := hown.owned 0 j hstart
    exact ne_nil_of_mem hb
  · right
    exact ⟨mm, sectorAdr p j, hres, _, hrep', hown.carve hc hn hsize⟩

theorem World.Inv.nodup (hw : w.Inv) : (w.live.map Block.adr).Nodup := by
  obtain ⟨t, -, hown⟩ := hw
  exact pairwise_map.mpr hown.distinct

theorem World.Inv.adr_lt (hw : w.Inv) (hb : b ∈ w.live) : b.adr < 2 ^ 32 := by
  obtain ⟨t, -, hown⟩ := hw
  have hupper := (hown.wellPlaced hb).upper
  unfold mmMemBaseAdr mmMemSize at hupper
  omega

/-- Every legal request is served without a panic, and keeps the invariant. -/
theorem World.Inv.exec (hw : w.Inv) {a : Op} (ha : a.Legal w) :
    ∃ w', w.exec a = .ok w' ∧ w'.Inv := by
  cases a with
  | alloc size =>
    rcases hw.alloc ha with ⟨mm, hres, hinv, -⟩ | ⟨mm, adr, hres, hinv⟩ <;>
      exact ⟨_, by simp [World.exec, hres], hinv⟩
  | free adr =>
    obtain ⟨t, hrep, hown⟩ := hw
    obtain ⟨b, hb, rfl⟩ := ha
    obtain ⟨p, j, hstart, hadr, -⟩ := hown.placed b hb
    obtain ⟨s', e, hres, hrep', hrel⟩ := hrep.buddyFree hstart
    rw [hadr]
    exact ⟨⟨s', _⟩, by simp [World.exec, hres], _, hrep', hown.release hrel⟩

/-- A live block is freed, and the others stay. -/
theorem World.Inv.free (hw : w.Inv) {adr : Nat} {rest : List Nat}
    (hperm : (w.live.map Block.adr).Perm (adr :: rest)) :
    ∃ w', w.exec (.free adr) = .ok w' ∧ w'.Inv ∧ (w'.live.map Block.adr).Perm rest := by
  have hmem : ∃ b ∈ w.live, b.adr = adr := mem_map.mp (hperm.symm.subset mem_cons_self)
  obtain ⟨w', hexec, hinv⟩ := hw.exec (a := .free adr) hmem
  refine ⟨w', hexec, hinv, ?_⟩
  have hlive : w'.live = w.live.filter fun b => b.adr ≠ adr := by
    simp only [World.exec] at hexec
    split at hexec
    · cases hexec
    · cases hexec
      rfl
  have hnotMem : adr ∉ rest := (nodup_cons.mp (hperm.nodup_iff.mp hw.nodup)).1
  have hrest : (rest.filter fun a => a ≠ adr) = rest := by
    apply filter_eq_self.mpr
    intro a ha
    exact decide_eq_true (ne_of_mem_of_not_mem ha hnotMem)
  have hfilter := hperm.filter fun a => a ≠ adr
  rw [filter_cons_of_neg (by simp), hrest, filter_map] at hfilter
  rw [hlive]
  exact hfilter

theorem reachable_inv (hw : system.Reachable w) : w.Inv := by
  refine Reachable.invariant ?_ ?_ hw
  · rintro _ rfl
    exact init_inv
  · rintro w a w' hinv ⟨hlegal, hexec⟩
    obtain ⟨w'', hexec', hinv'⟩ := hinv.exec hlegal
    cases hexec.symm.trans hexec'
    exact hinv'

/-! ## Main results -/

theorem World.Inv.free_sectors (hw : w.Inv) (hb : b ∈ w.live) :
    ∃ mm', dataUlMmBuddyFree w.mm b.adr = .ok mm' ∧
      ∀ p j, Used mm' p j ↔ Used w.mm p j ∧ ¬b.Covers p j := by
  obtain ⟨t, hrep, hown⟩ := hw
  obtain ⟨p, j, hstart, hadr, hlen, -⟩ := hown.placed b hb
  obtain ⟨mm', e, hres, hrep', hrel⟩ := hrep.buddyFree hstart
  refine ⟨mm', by rw [hadr]; exact hres, ?_⟩
  intro q i
  rw [covers_iff hstart hadr hlen]
  unfold Used
  rw [hrep'.sectors, hrep.sectors]
  by_cases hq : q = p
  · subst hq
    rw [update_self, hrel.used, Bool.and_eq_true, Bool.not_eq_true',
      decide_eq_false_iff_not]
    simp
  · rw [update_of_ne hq]
    simp [hq]

/-- In every reachable state the live blocks are pairwise disjoint, lie in the managed
memory, are aligned on their length and long enough.  Legal requests are served, and
`free` releases the sectors of its own block and of no other live block. -/
theorem liveBlocks_disjoint {w : World} (hw : system.Reachable w) :
    w.live.Pairwise Block.Disjoint ∧
      (∀ b ∈ w.live, b.WellPlaced) ∧
      (∀ a : Op, a.Legal w → ∃ w', w.exec a = .ok w') ∧
      ∀ b ∈ w.live, ∃ mm', dataUlMmBuddyFree w.mm b.adr = .ok mm' ∧
        (∀ p j, b.Covers p j → Used w.mm p j) ∧
        (∀ p j, Used mm' p j ↔ Used w.mm p j ∧ ¬b.Covers p j) ∧
        ∀ b' ∈ w.live, b' ≠ b → ∀ p j, b'.Covers p j → Used mm' p j := by
  have hinv := reachable_inv hw
  obtain ⟨t, hrep, hown⟩ := id hinv
  have hpair : w.live.Pairwise Block.Disjoint :=
    hown.distinct.imp_of_mem fun hb hb' hne => hown.disjoint hb hb' hne
  refine ⟨hpair, fun b hb => hown.wellPlaced hb, ?_, ?_⟩
  · intro a ha
    obtain ⟨w', hexec, -⟩ := hinv.exec ha
    exact ⟨w', hexec⟩
  · intro b hb
    obtain ⟨mm', hres, hsectors⟩ := hinv.free_sectors hb
    refine ⟨mm', hres, fun p j => used_of_covers hrep hown hb, hsectors, ?_⟩
    intro b' hb' hne p j hcov
    refine (hsectors p j).mpr ⟨used_of_covers hrep hown hb' hcov, ?_⟩
    intro hcov'
    have hsymm : Std.Symm fun b b' : Block => b.adr ≠ b'.adr := ⟨fun _ _ h => h.symm⟩
    have hadr : b'.adr ≠ b.adr := hown.distinct.forall hb' hb hne
    have hdis := hown.disjoint hb' hb hadr
    unfold Block.Disjoint at hdis
    unfold Block.Covers at hcov hcov'
    omega

theorem liveBlocks_disjoint_two_blocks :
    ∃ w, system.Reachable w ∧
      w.live = [⟨0x81082000, 1000⟩, ⟨0x81080000, 100⟩] ∧ w.live.Pairwise Block.Disjoint := by
  have h0 : system.Reachable ⟨dataUlMmBuddyInit, []⟩ := .start rfl
  have h1 := h0.next (a := .alloc 100) ⟨by decide, rfl⟩
  have h2 := h1.next (a := .alloc 1000) ⟨by decide, rfl⟩
  exact ⟨_, h2, rfl, (liveBlocks_disjoint h2).1⟩

/-- In every reachable state each page is in exactly one bit field, and its sector mask
fits that bit field.  The internal panics of the 2K and 512 allocation are not reached. -/
theorem pageFields_partition {w : World} (hw : system.Reachable w) :
    (∀ p, ∃! c, (w.mm.pages c).test p = true) ∧
      (∀ p, (w.mm.pages .pool).test p = true → w.mm.sectorsUsed p = 0) ∧
      (∀ p c, c = .full8k ∨ c = .full2k ∨ c = .full512 → (w.mm.pages c).test p = true →
        w.mm.sectorsUsed p = 0xffff) ∧
      (∀ p c, c = .partial2k ∨ c = .partial512 → (w.mm.pages c).test p = true →
        w.mm.sectorsUsed p ≠ 0 ∧ w.mm.sectorsUsed p ≠ 0xffff) ∧
      (∀ p c, c = .partial2k ∨ c = .full2k → (w.mm.pages c).test p = true →
        ∀ j : Sector, (w.mm.sectorsUsed p).getLsbD j =
          (w.mm.sectorsUsed p).getLsbD (4 * (j / 4))) ∧
      (∀ text, allocate2k w.mm ≠ .error text) ∧
      (∀ text, allocate512 w.mm ≠ .error text) ∧
      ∀ size text, size.toNat ≤ mmPageSize → dataUlMmBuddyAlloc w.mm size ≠ .error text := by
  obtain ⟨t, hrep, hown⟩ := reachable_inv hw
  have hcls (p c) : (w.mm.pages c).test p = true ↔ (t p).cls = c := by
    rw [hrep.pages, decide_eq_true_eq]
  have hfits (p c) (hp : (w.mm.pages c).test p = true) :
      c.occupancy.Holds (w.mm.sectorsUsed p) := by
    rw [hrep.sectors, ← (hcls p c).mp hp]
    exact (t p).fits
  refine ⟨?_, fun p => hfits p .pool, ?_, ?_, ?_, ?_, ?_, ?_⟩
  · intro p
    refine ⟨(t p).cls, (hcls p _).mpr rfl, ?_⟩
    intro c hc
    exact ((hcls p c).mp hc).symm
  · rintro p c (rfl | rfl | rfl) <;> exact hfits p _
  · rintro p c (rfl | rfl) <;> exact hfits p _
  · rintro p c hc hp j
    have hunit : (t p).cls.unit = 4 := by
      rw [(hcls p c).mp hp]
      rcases hc with rfl | rfl <;> rfl
    have hgroup := (t p).grouped j
    rwa [hunit, ← hrep.sectors] at hgroup
  · intro text herr
    rcases hrep.allocateSectors sectorClass_2k
      "4GHIF ERROR: MM: No sector available in allocate 2K" with
      ⟨hres, -⟩ | ⟨_, _, _, _, hres, -⟩ <;> cases hres.symm.trans herr
  · intro text herr
    rcases hrep.allocateSectors sectorClass_512
      "4GHIF ERROR: MM: No sector available in allocate 512" with
      ⟨hres, -⟩ | ⟨_, _, _, _, hres, -⟩ <;> cases hres.symm.trans herr
  · intro size text hsize herr
    rcases hrep.buddyAlloc size hsize with ⟨_, hres, -⟩ | ⟨_, _, _, _, _, hres, -⟩ <;>
      cases hres.symm.trans herr

theorem pageFields_partition_after_alloc :
    ∃ w, system.Reachable w ∧ w.mm.sectorsUsed 0 = 0x000f ∧
      ∀ p, ∃! c, (w.mm.pages c).test p = true := by
  have h0 : system.Reachable ⟨dataUlMmBuddyInit, []⟩ := .start rfl
  have h1 := h0.next (a := .alloc 1000) ⟨by decide, rfl⟩
  exact ⟨_, h1, rfl, (pageFields_partition h1).1⟩

end LteModemKernel.Buddy
