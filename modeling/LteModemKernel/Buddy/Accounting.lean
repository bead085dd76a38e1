import LteModemKernel.Buddy.Ownership

/-!
# Completeness, bad frees and statistics of the buddy manager

The page table behind the bit fields answers three more questions about a run.  When
can `alloc` fail, and what is left when every block has been given back?  Which
addresses does `free` refuse?  Do the numbers of the debug statistics agree with
the live blocks?

The BP sends the addresses to free, so `requests` lets a run ask for any address.
`free_8k` does not look at the sector: a sector address inside of a live block of
8 KB is accepted and gives the whole block back.  The block counts of the statistics
shift a 16-bit word by `i & 0x1f`, and miss the partly used pages 16 to 31.

Main results:

- Theorem `alloc_fails_iff_and_no_leak`: `alloc` fails only for lack of a
  page, and all frees together lead back to the initial bit fields.
- Theorem `bad_free_panics`: addresses that start no live block are refused, but for
  the sectors inside of a block of 8 KB.
- Theorem `buddy_stat_exact`: page counts are exact, block counts are exact
  exactly when no page from 16 to 31 is partly used.
-/

namespace LteModemKernel.Buddy

open Lib Nat TransitionSystem Finset

variable {w : World} {t : PageTable} {part full : PageClass} {unit : BitVec 16}

/-! ## Giving every block back -/

/-- `free` for each of the addresses. -/
def World.freeAll (w : World) (adrs : List Nat) : Except String World :=
  adrs.foldlM (fun w adr => w.exec (.free adr)) w

/-- Frees of all live blocks, in any order, succeed and leave none. -/
theorem World.Inv.freeAll (hw : w.Inv) {adrs : List Nat}
    (hperm : (w.live.map Block.adr).Perm adrs) :
    ∃ w', w.freeAll adrs = .ok w' ∧ w'.Inv ∧ w'.live = [] := by
  induction adrs generalizing w with
  | nil =>
    have hnil : w.live = [] := by simpa using hperm.eq_nil
    exact ⟨w, rfl, hw, hnil⟩
  | cons adr rest ih =>
    obtain ⟨w₁, hexec, hinv, hrest⟩ := hw.free hperm
    obtain ⟨w', hall, hw'⟩ := ih hinv hrest
    refine ⟨w', ?_, hw'⟩
    rw [World.freeAll, List.foldlM_cons, hexec]
    exact hall

theorem bitField_ext {f g : BitField 3 16} (h : ∀ p : Page, f.test p = g.test p) : f = g := by
  funext k
  apply BitVec.eq_of_getLsbD_eq
  intro i hi
  rw [← f.test_of_bit k hi (i := ⟨16 * k + i, by omega⟩) rfl, h, g.test_of_bit k hi rfl]

/-- Without a live block every page is back in the pool. -/
theorem World.Inv.init_of_empty (hw : w.Inv) (hlive : w.live = []) :
    w.mm.pages = dataUlMmBuddyInit.pages ∧ w.mm.sectorsUsed = dataUlMmBuddyInit.sectorsUsed := by
  obtain ⟨t, hrep, hown⟩ := hw
  have hpool (p) : (t p).cls = .pool := by
    by_contra hcls
    obtain ⟨j, hstart⟩ := PageEntry.exists_starts hcls
    obtain ⟨b, hb, -⟩ := hown.owned p j hstart
    simp [hlive] at hb
  constructor
  · funext c
    apply bitField_ext
    intro p
    rw [hrep.pages, init_represents.pages, hpool]
    rfl
  · funext p
    rw [hrep.sectors, init_represents.sectors, Represents.mask_of_pool (hpool p)]
    rfl

/-- In every reachable state `alloc` of at most 8 KB fails exactly when there is
no pool page and, up to 2 KB, no partly used page of the size class.  Freeing all live
blocks in any order leads back to the bit fields and masks of the initial state. -/
theorem alloc_fails_iff_and_no_leak {w : World} (hw : system.Reachable w) :
    (∀ size : BitVec 16, size.toNat ≤ mmPageSize →
      ((∃ mm, dataUlMmBuddyAlloc w.mm size = .ok (mm, none)) ↔
        (∀ p, (w.mm.pages .pool).test p = false) ∧
          (size.toNat ≤ 2048 → ∀ p, (w.mm.pages (partialOf size)).test p = false))) ∧
      ∀ adrs : List Nat, (w.live.map Block.adr).Perm adrs →
        ∃ w', w.freeAll adrs = .ok w' ∧ w'.live = [] ∧
          w'.mm.pages = dataUlMmBuddyInit.pages ∧
          w'.mm.sectorsUsed = dataUlMmBuddyInit.sectorsUsed := by
  have hinv := reachable_inv hw
  constructor
  · intro size hsize
    obtain ⟨t, hrep, -⟩ := hinv
    simp only [hrep.pages, decide_eq_false_iff_not]
    rcases hrep.buddyAlloc size hsize with
      ⟨mm, hres, -, hnone⟩ | ⟨mm, p, j, e, n, hres, -, -, -, hfrom⟩
    · exact iff_of_true ⟨mm, hres⟩ hnone
    · apply iff_of_false
      · rintro ⟨mm', hres'⟩
        simp [hres] at hres'
      · rintro ⟨hpool, hpart⟩
        rcases hfrom with hcls | ⟨hsmall, hcls⟩
        · exact hpool p hcls
        · exact hpart hsmall p hcls
  · intro adrs hperm
    obtain ⟨w', hall, hinv', hlive⟩ := hinv.freeAll hperm
    exact ⟨w', hall, hlive, hinv'.init_of_empty hlive⟩

theorem alloc_fails_iff_and_no_leak_two_blocks :
    ∃ w w', system.Reachable w ∧ w.freeAll [0x81080000, 0x81082000] = .ok w' ∧
      w'.mm.pages = dataUlMmBuddyInit.pages := by
  have h0 : system.Reachable ⟨dataUlMmBuddyInit, []⟩ := .start rfl
  have h1 := h0.next (a := .alloc 100) ⟨by decide, rfl⟩
  have h2 := h1.next (a := .alloc 1000) ⟨by decide, rfl⟩
  obtain ⟨w', hall, -, hpages, -⟩ :=
    (alloc_fails_iff_and_no_leak h2).2 [0x81080000, 0x81082000] (.swap _ _ _)
  exact ⟨_, w', h2, hall, hpages⟩

/-! ## Bad frees -/

theorem lt_of_inside {adr : Nat} (h : ¬(adr < mmMemBaseAdr ∨ adr ≥ mmMemBaseAdr + mmMemSize)) :
    adr < mmMemBaseAdr + mmMemSize :=
  not_le.mp (not_or.mp h).2

/-- `IPC_4GHIF_data_ul_mm_free`, as a program on the state: a panic keeps the state
it found. -/
def dataUlMmFree (adr : Nat) : EStateM String Mm Unit := do
  if h : adr < mmMemBaseAdr ∨ adr ≥ mmMemBaseAdr + mmMemSize then
    throw "4GHIF ERROR: MM: FREE ADR OUTSIDE MEMORY RANGE"
  else
    if (adr - mmMemBaseAdr) % mmSectorSize ≠ 0 then
      throw "\n4GHIF ERROR: MM: FREE ADR NOT ALIGNED ON A SECTOR"
    let page := pageOf adr (lt_of_inside h)
    let sector := sectorOf adr
    let s ← get
    if s.sectorsUsed page &&& 1 <<< (sector : Nat) = 0 then
      throw "4GHIF ERROR: MM: FREE SECTOR NOT USED"
    if (s.pages .full8k).test page then
      modify (free8k page)
    else if (s.pages .partial2k).test page || (s.pages .full2k).test page then
      if (sector : Nat) % 4 ≠ 0 then
        throw "Bad sector alignment"
      modify (freeSectors .partial2k .full2k 0xf page sector)
    else
      modify (free512 page sector)

theorem dataUlMmFree_eq (s : Mm) (adr : Nat) :
    dataUlMmFree adr s =
      match dataUlMmBuddyFree s adr with
      | .error text => .error text s
      | .ok s' => .ok () s' := by
  unfold dataUlMmFree dataUlMmBuddyFree free2k
  by_cases h : adr < mmMemBaseAdr ∨ adr ≥ mmMemBaseAdr + mmMemSize
  · simp only [h, dif_pos]
    rfl
  · simp only [h, dif_neg, not_false_eq_true]
    split_ifs <;> simp_all [bind, EStateM.bind, get, getThe, modify, modifyGet, throw,
      MonadStateOf.get, MonadStateOf.modifyGet, EStateM.get, EStateM.modifyGet,
      throwThe, MonadExceptOf.throw, EStateM.throw]

/-- Requests as they come: `free` of any address. -/
def requests : TransitionSystem World Op where
  init w := w = ⟨dataUlMmBuddyInit, []⟩
  step w a w' := w.exec a = .ok w'

/-- A freed address is none of the sectors behind the start of a live block of 8 KB. -/
def Op.SparesPages (w : World) : Op → Prop
  | alloc _ => True
  | free adr => ∀ b ∈ w.live, b.len = mmPageSize → ∀ j : Sector, (j : Nat) ≠ 0 →
      adr ≠ b.adr + j * mmSectorSize

theorem PageEntry.getLsbD_of_full8k {e : PageEntry} (h : e.cls = .full8k) (j : Sector) :
    e.mask.getLsbD j = true := by
  have hfits := e.fits
  rw [h] at hfits
  rw [show e.mask = 0xffff from hfits]
  exact getLsbD_full j

/-- A live block of 8 KB is a whole page. -/
theorem Owns.page_of_len {live : List Block} (hown : Owns t live) {b : Block} (hb : b ∈ live)
    (hlen : b.len = mmPageSize) : ∃ p, (t p).cls = .full8k ∧ b.adr = sectorAdr p 0 := by
  obtain ⟨p, j, hstart, hadr, hunit, -⟩ := hown.placed b hb
  rw [hlen] at hunit
  have hcls : (t p).cls = .full8k := by
    cases hcls : (t p).cls with
    | full8k => rfl
    | pool =>
      rw [PageEntry.Starts, Represents.mask_of_pool hcls] at hstart
      simp at hstart
    | partial2k | full2k | partial512 | full512 =>
      rw [hcls] at hunit
      exact absurd hunit (by decide)
  have hzero := hstart.add_unit_le
  rw [hcls] at hzero
  refine ⟨p, hcls, ?_⟩
  rw [hadr, show j = 0 from Fin.ext (Nat.le_zero.mp (Nat.add_le_add_iff_right.mp hzero))]

/-- `free` of an address that starts no block panics unless it is a sector inside of a block of
8 KB. -/
theorem World.Inv.free_refused (hw : w.Inv) {adr : Nat} (hbad : ∀ b ∈ w.live, b.adr ≠ adr) :
    (∃ text, dataUlMmBuddyFree w.mm adr = .error text) ↔ (Op.free adr).SparesPages w := by
  obtain ⟨t, hrep, hown⟩ := hw
  constructor
  · rintro ⟨text, herr⟩ b hb hlen j hj rfl
    obtain ⟨p, hcls, hadr⟩ := hown.page_of_len hb hlen
    have hsector : b.adr + j * mmSectorSize = sectorAdr p j := by
      rw [hadr, sectorAdr, sectorAdr, Fin.val_zero, zero_mul, add_zero]
    rw [hsector, hrep.buddyFree_eq, if_neg (by simp [PageEntry.getLsbD_of_full8k hcls]),
      if_pos hcls] at herr
    cases herr
  intro hspare
  by_cases hin : adr < mmMemBaseAdr ∨ adr ≥ mmMemBaseAdr + mmMemSize
  · exact ⟨_, by rw [dataUlMmBuddyFree, dif_pos hin]⟩
  by_cases halign : (adr - mmMemBaseAdr) % mmSectorSize ≠ 0
  · exact ⟨_, by rw [dataUlMmBuddyFree, dif_neg hin, if_pos halign]⟩
  have hadr : adr = sectorAdr (pageOf adr (by omega)) (sectorOf adr) := by
    simp only [sectorAdr, pageOf, sectorOf]
    unfold mmMemBaseAdr mmMemSize mmPageSize mmSectorSize at *
    omega
  generalize pageOf adr (by omega) = p at hadr
  generalize sectorOf adr = j at hadr
  subst hadr
  have hnot : ¬(t p).Starts j := by
    intro hstart
    obtain ⟨b, hb, hb'⟩ := hown.owned p j hstart
    exact hbad b hb hb'
  rw [hrep.buddyFree_eq]
  split_ifs with hbit h8 h2
  · exact ⟨_, rfl⟩
  · -- the block of 8 KB starts at sector 0 of the page, and covers the address
    exfalso
    have hzero : (t p).Starts 0 := ⟨PageEntry.getLsbD_of_full8k h8 0, by simp⟩
    have hj : (j : Nat) ≠ 0 := fun hj => hnot (by rwa [show j = 0 from Fin.ext hj])
    obtain ⟨b, hb, hb'⟩ := hown.owned p 0 hzero
    obtain ⟨q, i, -, hadr, hlen, -⟩ := hown.placed b hb
    obtain ⟨rfl, -⟩ := sectorAdr_injective (hb'.symm.trans hadr)
    have hpage : b.len = mmPageSize := by
      rw [hlen, h8]
      rfl
    apply hspare b hb hpage j hj
    rw [hb', sectorAdr, sectorAdr, Fin.val_zero, zero_mul, add_zero]
  · have hj : (j : Nat) % 4 ≠ 0 := by
      intro hj
      apply hnot
      refine ⟨by simpa using hbit, ?_⟩
      rcases h2 with h2 | h2 <;> rw [h2] <;> exact dvd_of_mod_eq_zero hj
    exact ⟨_, by rw [free2k, if_pos hj]⟩
  · exfalso
    apply hnot
    have hbit' : (t p).mask.getLsbD j = true := by simpa using hbit
    refine ⟨hbit', ?_⟩
    rcases (t p).cls_512 hbit' h8 h2 with h5 | h5 <;> rw [h5] <;> exact one_dvd _

/-- As long as no request has freed a sector inside of a live block of 8 KB, the
manager is in a state of legal requests. -/
theorem inv_of_requests (hw : requests.ReachableUnder (fun w a => a.SparesPages w) w) : w.Inv := by
  refine ReachableUnder.invariant (P := World.Inv) ?_ ?_ hw
  · rintro _ rfl
    exact init_inv
  · rintro w a w' hinv hspare hexec
    have hlegal : a.Legal w := by
      cases a with
      | alloc size =>
        by_contra hlarge
        have hgt : size.toNat > mmPageSize := Nat.lt_of_not_le hlarge
        simp only [requests, World.exec, dataUlMmBuddyAlloc, if_pos hgt] at hexec
        cases hexec
      | free adr =>
        by_contra hnone
        obtain ⟨text, herr⟩ := (hinv.free_refused
          fun b hb (hadr : b.adr = adr) => hnone ⟨b, hb, hadr⟩).mpr hspare
        simp only [requests, World.exec, herr] at hexec
        cases hexec
    obtain ⟨w'', hexec', hinv'⟩ := hinv.exec hlegal
    cases hexec.symm.trans hexec'
    exact hinv'

/-- A sector address inside of a live block of 8 KB is accepted: the page goes back to
the pool while the block is still held. -/
theorem interior_free_accepted :
    ∃ w : World, requests.Reachable w ∧ w.live = [⟨0x81080000, 8192⟩] ∧
      (∀ b ∈ w.live, b.adr ≠ 0x81080200) ∧
      ∃ mm', dataUlMmFree 0x81080200 w.mm = .ok () mm' ∧ mm'.sectorsUsed 0 = 0 ∧
        (mm'.pages .pool).test 0 = true := by
  have h0 : requests.Reachable ⟨dataUlMmBuddyInit, []⟩ := Reachable.start rfl
  have h1 := h0.next (a := Op.alloc 8192) (Eq.refl (Except.ok _))
  exact ⟨_, h1, rfl, by decide, _, rfl, rfl, rfl⟩

/-- In every run in which no freed address is a sector inside of a live block of 8 KB: an
address that is not the start of a live block ends in a panic, with all bit fields and masks as
they were, if and only if it is no such sector. -/
theorem bad_free_panics {w : World}
    (hw : requests.ReachableUnder (fun w a => a.SparesPages w) w) {adr : Nat}
    (hbad : ∀ b ∈ w.live, b.adr ≠ adr) :
    (∃ text, dataUlMmFree adr w.mm = .error text w.mm) ↔ (Op.free adr).SparesPages w := by
  rw [← (inv_of_requests hw).free_refused hbad, dataUlMmFree_eq]
  cases dataUlMmBuddyFree w.mm adr <;> simp

theorem bad_free_panics_2k :
    ∃ w : World, requests.ReachableUnder (fun w a => a.SparesPages w) w ∧
      w.live = [⟨0x81080000, 1000⟩] ∧
      ∃ text, dataUlMmFree 0x81080200 w.mm = .error text w.mm := by
  have h0 : requests.ReachableUnder (fun w a => a.SparesPages w) ⟨dataUlMmBuddyInit, []⟩ :=
    .init rfl
  have h1 := h0.step (a := Op.alloc 1000) trivial (Eq.refl (Except.ok _))
  refine ⟨_, h1, rfl, (bad_free_panics h1 (by decide)).mpr ?_⟩
  intro b hb hlen
  rw [List.mem_singleton.mp hb] at hlen
  exact absurd hlen (by decide)

/-! ## Statistics -/

/-- `get_1_nb_bit_in_u16`. -/
def get1NbBitInU16 (word : BitVec 16) : Nat :=
  (List.finRange 16).foldl (fun nb (i : Sector) =>
    if word &&& 1#16 <<< (i : Nat) ≠ 0 then nb + 1 else nb) 0

/-- The number of pages in a bit field. -/
def nbPage (tab : BitField 3 16) : Nat :=
  (List.finRange 3).foldl (fun nb i => nb + get1NbBitInU16 (tab i)) 0

/-- The loop that counts the blocks of partly used pages, from the blocks of the full
pages on.  The word is promoted to 32 bits and tested at bit `i & 0x1f`. -/
def nbBlockUsed (s : Mm) (part : PageClass) (n : Nat) (fullBlocks : Nat) : Nat :=
  (List.finRange (3 * 16)).foldl (fun nb (i : Page) =>
    if (s.pages part (BitField.wordOf i)).setWidth 32 &&& 1#32 <<< ((i : Nat) &&& 0x1f) ≠ 0 then
      nb + get1NbBitInU16 (s.sectorsUsed i) / n
    else nb) fullBlocks

/-- The numbers of the statistics string. -/
structure BuddyStat where
  nbPage : PageClass → Nat
  nb2kBlockUsed : Nat
  nb512BlockUsed : Nat

/-- `IPC_4GHIF_data_ul_mm_buddy_get_stat`, without the formatting of the string. -/
def dataUlMmBuddyGetStat (s : Mm) : BuddyStat where
  nbPage c := nbPage (s.pages c)
  nb2kBlockUsed := nbBlockUsed s .partial2k 4 (4 * nbPage (s.pages .full2k))
  nb512BlockUsed := nbBlockUsed s .partial512 1 (16 * nbPage (s.pages .full512))

/-- The number of live blocks of a length on a page. -/
def World.blocksOn (w : World) (p : Page) (len : Nat) : Nat :=
  w.live.countP fun b => b.len = len ∧ (b.adr - mmMemBaseAdr) / mmPageSize = p

/-- What a page is used for, told by the live blocks on it. -/
def World.Serves (w : World) (p : Page) : PageClass → Prop
  | .pool => w.blocksOn p 8192 = 0 ∧ w.blocksOn p 2048 = 0 ∧ w.blocksOn p 512 = 0
  | .full8k => w.blocksOn p 8192 = 1
  | .partial2k => 0 < w.blocksOn p 2048 ∧ w.blocksOn p 2048 < 4
  | .full2k => w.blocksOn p 2048 = 4
  | .partial512 => 0 < w.blocksOn p 512 ∧ w.blocksOn p 512 < 16
  | .full512 => w.blocksOn p 512 = 16

instance (w : World) (p : Page) (c : PageClass) : Decidable (w.Serves p c) := by
  cases c <;> unfold World.Serves <;> infer_instance

/-- A counting loop is a sum. -/
theorem foldl_count {α : Type*} (p : α → Prop) [DecidablePred p] (f : α → Nat) (l : List α)
    (nb : Nat) : l.foldl (fun nb i => if p i then nb + f i else nb) nb =
      nb + (l.map fun i => if p i then f i else 0).sum := by
  induction l generalizing nb with
  | nil => rfl
  | cons i l ih =>
    rw [List.foldl_cons, ih, List.map_cons, List.sum_cons]
    split_ifs <;> omega

theorem get1NbBitInU16_eq (word : BitVec 16) :
    get1NbBitInU16 word = ∑ j : Sector, (word.getLsbD j).toNat := by
  rw [get1NbBitInU16, foldl_count, zero_add, Fin.sum_univ_def]
  congr 1
  apply List.map_congr_left
  intro j _
  simp only [and_bit_ne_zero_iff word j.isLt]
  cases word.getLsbD j <;> rfl

theorem nbPage_eq (tab : BitField 3 16) : nbPage tab = ∑ p : Page, (tab.test p).toNat := by
  have hword : nbPage tab = ∑ k : Fin 3, ∑ j : Fin 16, ((tab k).getLsbD j).toNat := by
    have hloop := foldl_count (fun _ => True) (fun i => get1NbBitInU16 (tab i)) (.finRange 3) 0
    simp only [if_true, zero_add] at hloop
    rw [nbPage, hloop, ← Fin.sum_univ_def]
    exact sum_congr rfl fun k _ => get1NbBitInU16_eq (tab k)
  rw [hword, ← Fintype.sum_prod_type', ← finProdFinEquiv.sum_comp]
  apply sum_congr rfl
  rintro ⟨k, j⟩ -
  rw [tab.test_of_bit k j.isLt (add_comm (j : Nat) (16 * k))]

/-- The pages 16 to 31, whose bits `1 << (i & 0x1f)` leaves the 16-bit word. -/
def Middle (p : Page) : Prop := 16 ≤ (p : Nat) ∧ (p : Nat) < 32

instance (p : Page) : Decidable (Middle p) := inferInstanceAs (Decidable (_ ∧ _))

/-- The test of the block loops is the membership test but for the middle word. -/
theorem shifted_test_iff (tab : BitField 3 16) (p : Page) :
    (tab (BitField.wordOf p)).setWidth 32 &&& 1#32 <<< ((p : Nat) &&& 0x1f) ≠ 0 ↔
      tab.test p = true ∧ ¬Middle p := by
  have hand : (p : Nat) &&& 0x1f = p % 32 := and_two_pow_sub_one_eq_mod p 5
  rw [hand, and_bit_ne_zero_iff _ (mod_lt _ (by decide)), BitVec.getLsbD_setWidth,
    decide_eq_true (mod_lt _ (by decide)), Bool.true_and, BitField.test]
  by_cases hmid : Middle p
  · have hge : 16 ≤ (p : Nat) % 32 := by
      unfold Middle at hmid
      omega
    simp [BitVec.getLsbD_of_ge _ _ hge, hmid]
  · have hmod : (p : Nat) % 32 = p % 16 := by
      unfold Middle at hmid
      omega
    simp [hmod, hmid]

/-- The number of used blocks of a page. -/
def PageEntry.blocks (e : PageEntry) : Nat :=
  (univ.filter fun j : Sector => e.mask.getLsbD j = true ∧ e.cls.unit ∣ j).card

theorem PageClass.card_group (c : PageClass) :
    ∀ i : Sector, (univ.filter fun j : Sector => c.unit * (j / c.unit) = (i : Nat)).card =
      if c.unit ∣ i then c.unit else 0 := by
  cases c <;> decide

/-- A grouped mask has `unit` sectors for each block. -/
theorem PageEntry.nbBit_eq (e : PageEntry) : get1NbBitInU16 e.mask = e.cls.unit * e.blocks := by
  have hgroup (j : Sector) : (e.mask.getLsbD j).toNat = ∑ i : Sector, if e.cls.unit *
      (j / e.cls.unit) = (i : Nat) then (e.mask.getLsbD i).toNat else 0 := by
    have hlt : e.cls.unit * (j / e.cls.unit) < 16 := lt_of_le_of_lt (mul_div_le _ _) j.isLt
    rw [sum_eq_single ⟨_, hlt⟩]
    · rw [if_pos rfl, e.grouped j]
    · intro i _ hi
      exact if_neg fun heq => hi (Fin.ext heq.symm)
    · simp
  rw [get1NbBitInU16_eq, sum_congr rfl fun j _ => hgroup j, sum_comm]
  rw [PageEntry.blocks, card_filter, mul_sum]
  apply sum_congr rfl
  intro i _
  rw [← sum_filter, sum_const, e.cls.card_group i, smul_eq_mul]
  by_cases hdvd : e.cls.unit ∣ i
  · cases hbit : e.mask.getLsbD i <;> simp [hdvd]
  · simp [hdvd]

theorem PageEntry.blocks_pos {e : PageEntry} (he : e.cls ≠ .pool) : 0 < e.blocks := by
  obtain ⟨j, hj⟩ := PageEntry.exists_starts he
  exact card_pos.mpr ⟨j, mem_filter.mpr ⟨mem_univ _, hj⟩⟩

theorem PageEntry.unit_mul_blocks (e : PageEntry) :
    match e.cls.occupancy with
    | .empty => e.cls.unit * e.blocks = 0
    | .part => 0 < e.blocks ∧ e.cls.unit * e.blocks < 16
    | .full => e.cls.unit * e.blocks = 16 := by
  have hfits := e.fits
  generalize hocc : e.cls.occupancy = occ at hfits
  cases occ with
  | empty =>
    rw [← e.nbBit_eq, show e.mask = 0 from hfits]
    rfl
  | part =>
    refine ⟨e.blocks_pos fun hpool => by simp [hpool, PageClass.occupancy] at hocc, ?_⟩
    obtain ⟨j, -, hclear, -⟩ := firstZeroBitIndexInU16_spec _ hfits.2
    rw [← e.nbBit_eq, get1NbBitInU16_eq]
    calc
      ∑ i : Sector, (e.mask.getLsbD i).toNat < ∑ _i : Sector, 1 := by
        refine sum_lt_sum (fun i _ => Bool.toNat_le _) ⟨j, mem_univ _, ?_⟩
        rw [hclear]
        decide
      _ = 16 := by simp
  | full =>
    rw [← e.nbBit_eq, show e.mask = 0xffff from hfits]
    rfl

theorem Owns.countP_page {live : List Block} (h : Owns t live) (p : Page) (n : Nat) :
    (live.countP fun b => b.len = n * mmSectorSize ∧ (b.adr - mmMemBaseAdr) / mmPageSize = p) =
      if (t p).cls.unit = n then (t p).blocks else 0 := by
  have hpage (q : Page) (j : Sector) : (sectorAdr q j - mmMemBaseAdr) / mmPageSize = q := by
    have hj := j.isLt
    simp only [sectorAdr, mmMemBaseAdr, mmPageSize, mmSectorSize]
    omega
  set on : Block → Bool := fun b =>
    b.len = n * mmSectorSize ∧ (b.adr - mmMemBaseAdr) / mmPageSize = p
  set starts := univ.filter fun j : Sector =>
    (t p).mask.getLsbD j = true ∧ (t p).cls.unit ∣ j
  have hnodup : ((live.filter on).map Block.adr).Nodup :=
    List.pairwise_map.mpr (h.distinct.filter on)
  have hadrs : ((live.filter on).map Block.adr).toFinset =
      if (t p).cls.unit = n then starts.image (sectorAdr p) else ∅ := by
    ext adr
    simp only [List.mem_toFinset, List.mem_map, List.mem_filter]
    constructor
    · rintro ⟨b, ⟨hb, hon⟩, rfl⟩
      obtain ⟨q, j, hstart, hadr, hlen, -⟩ := h.placed b hb
      obtain ⟨hlen', hq⟩ := of_decide_eq_true hon
      rw [hadr, hpage] at hq
      obtain rfl : q = p := Fin.ext hq
      have hn : (t q).cls.unit = n := eq_of_mul_eq_mul_right (by decide) (hlen.symm.trans hlen')
      rw [if_pos hn, hadr]
      exact mem_image_of_mem _ (mem_filter.mpr ⟨mem_univ _, hstart⟩)
    · intro hadr
      split_ifs at hadr with hn
      · obtain ⟨j, hj, rfl⟩ := mem_image.mp hadr
        obtain ⟨b, hb, hb'⟩ := h.owned p j (mem_filter.mp hj).2
        obtain ⟨q, i, -, hq, hlen, -⟩ := h.placed b hb
        obtain ⟨rfl, -⟩ := sectorAdr_injective (hb'.symm.trans hq)
        refine ⟨b, ⟨hb, decide_eq_true ⟨?_, ?_⟩⟩, hb'⟩
        · rw [hlen, hn]
        · rw [hb', hpage]
      · simp at hadr
  have hcard := List.toFinset_card_of_nodup hnodup
  rw [hadrs, List.length_map, ← List.countP_eq_length_filter] at hcard
  rw [← hcard]
  split_ifs
  · rw [card_image_of_injective _ fun i j hij => (sectorAdr_injective hij).2]
    rfl
  · rfl

theorem Owns.serves_iff (h : Owns t w.live) (p : Page)
    (c : PageClass) : w.Serves p c ↔ (t p).cls = c := by
  have h8 : w.blocksOn p 8192 = if (t p).cls.unit = 16 then (t p).blocks else 0 :=
    h.countP_page p 16
  have h2 : w.blocksOn p 2048 = if (t p).cls.unit = 4 then (t p).blocks else 0 := h.countP_page p 4
  have h5 : w.blocksOn p 512 = if (t p).cls.unit = 1 then (t p).blocks else 0 := h.countP_page p 1
  have hblocks := (t p).unit_mul_blocks
  cases hcls : (t p).cls <;> rw [hcls] at h8 h2 h5 hblocks <;>
    simp only [PageClass.unit, PageClass.occupancy] at h8 h2 h5 hblocks <;>
    cases c <;> simp [World.Serves, h8, h2, h5] <;> omega

theorem Owns.countP_eq_sum (h : Owns t w.live) (len : Nat) :
    (w.live.countP fun b => b.len = len) = ∑ p : Page, w.blocksOn p len := by
  have hplaced (b) (hb : b ∈ w.live) : (b.adr - mmMemBaseAdr) / mmPageSize < 3 * 16 := by
    have hwell := h.wellPlaced hb
    have hlower := hwell.lower
    have hupper := hwell.upper
    have hlen : 0 < b.len := by
      unfold Block.len blockLen
      split_ifs <;> decide
    unfold mmMemBaseAdr mmMemSize mmPageSize at *
    omega
  unfold World.blocksOn
  generalize w.live = live at hplaced
  induction live with
  | nil => simp
  | cons b live ih =>
    obtain ⟨hb, hrest⟩ := List.forall_mem_cons.mp hplaced
    simp only [List.countP_cons, ih hrest, sum_add_distrib, add_left_cancel_iff]
    rw [sum_eq_single ⟨_, hb⟩]
    · simp
    · intro q _ hq
      have hne : (b.adr - mmMemBaseAdr) / mmPageSize ≠ q := fun heq => hq (Fin.ext heq.symm)
      simp [hne]
    · simp

theorem Represents.nbBlockUsed_add (hrep : Represents w.mm t) (hown : Owns t w.live) {n : Nat}
    (hc : SectorClass part full unit n) (hcls : ∀ c : PageClass, c.unit = n ↔ c = part ∨ c = full) :
    nbBlockUsed w.mm part n (16 / n * nbPage (w.mm.pages full)) +
        ∑ p : Page, (if (t p).cls = part ∧ Middle p then (t p).blocks else 0) =
      w.live.countP fun b => b.len = n * mmSectorSize := by
  have hn := hc.pos
  have hne := hc.part_ne_full
  rw [hown.countP_eq_sum, nbBlockUsed, foldl_count, ← Fin.sum_univ_def, nbPage_eq,
    mul_sum, ← sum_add_distrib, ← sum_add_distrib]
  apply sum_congr rfl
  intro p _
  have hblocks := (t p).unit_mul_blocks
  have hbit := (t p).nbBit_eq
  simp only [World.blocksOn, hown.countP_page, shifted_test_iff, hrep.pages, hrep.sectors,
    decide_eq_true_eq, hcls, hbit]
  by_cases hfull : (t p).cls = full
  · rw [hfull, hc.full_occ, hc.full_unit] at hblocks
    have hdiv : 16 / n = (t p).blocks := by
      rw [← hblocks, Nat.mul_div_cancel_left _ hn]
    simp [hfull, hne.symm, hdiv]
  · by_cases hpart : (t p).cls = part
    · have hdiv : part.unit * (t p).blocks / n = (t p).blocks := by
        rw [hc.part_unit, Nat.mul_div_cancel_left _ hn]
      by_cases hmid : Middle p <;> simp [hpart, hne, hmid, hdiv]
    · simp [hfull, hpart]

theorem Represents.nbBlockUsed_eq_iff (hrep : Represents w.mm t) (hown : Owns t w.live) {n : Nat}
    (hc : SectorClass part full unit n) (hcls : ∀ c : PageClass, c.unit = n ↔ c = part ∨ c = full) :
    (nbBlockUsed w.mm part n (16 / n * nbPage (w.mm.pages full)) =
        w.live.countP fun b => b.len = n * mmSectorSize) ↔
      ∀ p, Middle p → ¬w.Serves p part := by
  rw [← hrep.nbBlockUsed_add hown hc hcls, left_eq_add, sum_eq_zero_iff]
  simp only [hown.serves_iff]
  constructor
  · intro hzero p hmid hpart
    have hblocks := (t p).unit_mul_blocks
    rw [hpart, hc.part_occ] at hblocks
    have hp := hzero p (mem_univ _)
    rw [if_pos ⟨hpart, hmid⟩] at hp
    omega
  · intro hnone p _
    exact if_neg fun h => hnone p h.2 h.1

/-- A legal request as a function, for fixed runs. -/
def World.next (w : World) (a : Op) : Option World :=
  if a.Legal w then (w.exec a).toOption else none

theorem World.next_step (w : World) (a : Op) (w' : World) (h : w.next a = some w') :
    system.step w a w' := by
  unfold World.next at h
  split_ifs at h with hlegal
  cases hexec : w.exec a <;> rw [hexec] at h <;> cases h
  exact ⟨hlegal, hexec⟩

/-- A live 2 KB block on page 16 is not counted. -/
theorem block_on_page_16_not_counted :
    ∃ w : World, system.Reachable w ∧ w.Serves 16 .partial2k ∧
      (dataUlMmBuddyGetStat w.mm).nb2kBlockUsed = 0 ∧
      (w.live.countP fun b => b.len = 2048) = 1 := by
  have h0 : system.Reachable ⟨dataUlMmBuddyInit, []⟩ := .start rfl
  exact ReachableUnder.exists_observed_of World.next_step
    (List.replicate 16 (.alloc 8192) ++ [.alloc 1000])
    h0 ⟨.trivial _ _, by decide +kernel⟩

/-- In every reachable state the statistics count the pages of each class exactly.  The
numbers of 2 KB and of 512 B blocks are exact exactly when no page from 16 to 31 is partly
used by such blocks. -/
theorem buddy_stat_exact {w : World} (hw : system.Reachable w) :
    (∀ c, (dataUlMmBuddyGetStat w.mm).nbPage c =
        (univ.filter fun p : Page => w.Serves p c).card) ∧
      (((dataUlMmBuddyGetStat w.mm).nb2kBlockUsed = w.live.countP fun b => b.len = 2048) ↔
        ∀ p, Middle p → ¬w.Serves p .partial2k) ∧
      (((dataUlMmBuddyGetStat w.mm).nb512BlockUsed = w.live.countP fun b => b.len = 512) ↔
        ∀ p, Middle p → ¬w.Serves p .partial512) := by
  obtain ⟨t, hrep, hown⟩ := reachable_inv hw
  refine ⟨?_, ?_, ?_⟩
  · intro c
    simp only [dataUlMmBuddyGetStat, nbPage_eq, card_filter, hown.serves_iff, hrep.pages]
    apply sum_congr rfl
    intro p _
    by_cases hcls : (t p).cls = c <;> simp [hcls]
  · have h2 := hrep.nbBlockUsed_eq_iff hown sectorClass_2k (by intro c; cases c <;> decide)
    rwa [show 16 / 4 = 4 from rfl, show 4 * mmSectorSize = 2048 from rfl] at h2
  · have h5 := hrep.nbBlockUsed_eq_iff hown sectorClass_512 (by intro c; cases c <;> decide)
    rwa [show 16 / 1 = 16 from rfl, show 1 * mmSectorSize = 512 from rfl] at h5

theorem buddy_stat_exact_two_blocks :
    ∃ w : World, system.Reachable w ∧ (dataUlMmBuddyGetStat w.mm).nb2kBlockUsed = 2 ∧
      (w.live.countP fun b => b.len = 2048) = 2 := by
  have h0 : system.Reachable ⟨dataUlMmBuddyInit, []⟩ := .start rfl
  obtain ⟨w, hw, hlive, hmid⟩ := ReachableUnder.exists_observed_of World.next_step
    (P := fun w : World => (w.live.countP fun b => b.len = 2048) = 2 ∧
      ∀ p, Middle p → ¬w.Serves p .partial2k)
    [.alloc 1000, .alloc 2048] h0 ⟨.trivial _ _, by decide +kernel⟩
  exact ⟨w, hw, ((buddy_stat_exact hw).2.1.mpr hmid).trans hlive, hlive⟩

end LteModemKernel.Buddy
