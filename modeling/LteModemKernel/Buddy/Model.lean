import LteModemKernel.Lib.BitField

/-!
# The uplink buddy memory manager

The AP side of the 4G host interface copies uplink frames into 384 KB of shared
memory.  The buddy manager of `ipc_4ghif_mm.c` cuts that memory into 48 pages
of 8 KB.  A page serves one block of 8 KB, blocks of 2 KB or blocks of 512 bytes.
Six bit fields say what each page is used for, and one 16-bit mask a page says
which of its 512-byte sectors are used.

Main definitions:

- `Mm`: the bit fields, the sector masks and the statistics.
- `dataUlMmBuddyInit`, `dataUlMmBuddyAlloc`, `dataUlMmBuddyFree`:
  the three entry points.  A kernel panic is an `Except.error` with its text,
  the address `NULL` is `none`.

The spin lock around each routine is not modelled: the routines run one after
another.
-/

namespace LteModemKernel.Buddy

open Lib

/-! ## Constants and data -/

def mmMemBaseAdr : Nat := 0x81080000
def mmMemSize : Nat := 384 * 1024
def mmPageSize : Nat := 8192
def mmSectorSize : Nat := 512

/-- One of the `MM_NB_PAGE = 48` pages; its bit is in word `page / 16`. -/
abbrev Page : Type := Fin (3 * 16)

/-- One of the `MM_NB_SECTOR_BY_PAGE = 16` sectors of a page. -/
abbrev Sector : Type := Fin 16

/-- The six page bit fields of the manager, named after the arrays
`mm_bf_pool_pages`, `mm_bf_8k_pages_full`, and so on. -/
inductive PageClass where
  | pool
  | full8k
  | partial2k
  | full2k
  | partial512
  | full512
  deriving DecidableEq, Repr

/-- The statistics that `MM_STAT_ON` compiles in. -/
structure MmStat where
  allocInd : Fin 1024
  allocSize : Fin 1024 → BitVec 16
  minSizeAllocated : BitVec 16
  maxSizeAllocated : BitVec 16
  blocks8kAllocatedFromStart : BitVec 32
  blocks2kAllocatedFromStart : BitVec 32
  blocks512AllocatedFromStart : BitVec 32
  allocFailure8k : BitVec 16
  allocFailure2k : BitVec 16
  allocFailure512 : BitVec 16
  blocks8kBytesFromStart : BitVec 32
  blocks2kBytesFromStart : BitVec 32
  blocks512BytesFromStart : BitVec 32
  blocks8kBelow4k : BitVec 32
  blocks2kBelow1k : BitVec 32
  blocks512Below256 : BitVec 32

/-- The state of the manager. -/
structure Mm where
  pages : PageClass → BitField 3 16
  sectorsUsed : Page → BitVec 16
  stat : MmStat

/-! ## Searching bit fields -/

/-- `first_one_bit_index_in_u16`, with `none` for -1. -/
def firstOneBitIndexInU16 (bitField : BitVec 16) : Option Sector :=
  if bitField = 0 then none
  else if bitField &&& 0xff ≠ 0 then
    if bitField &&& 0xf ≠ 0 then
      if bitField &&& 0x3 ≠ 0 then
        if bitField &&& 0x1 ≠ 0 then some 0 else some 1
      else
        if bitField &&& 0x4 ≠ 0 then some 2 else some 3
    else
      if bitField &&& 0x30 ≠ 0 then
        if bitField &&& 0x10 ≠ 0 then some 4 else some 5
      else
        if bitField &&& 0x40 ≠ 0 then some 6 else some 7
  else
    if bitField &&& 0xf00 ≠ 0 then
      if bitField &&& 0x300 ≠ 0 then
        if bitField &&& 0x100 ≠ 0 then some 8 else some 9
      else
        if bitField &&& 0x400 ≠ 0 then some 10 else some 11
    else
      if bitField &&& 0x3000 ≠ 0 then
        if bitField &&& 0x1000 ≠ 0 then some 12 else some 13
      else
        if bitField &&& 0x4000 ≠ 0 then some 14 else some 15

/-- `first_zero_bit_index_in_u16`. -/
def firstZeroBitIndexInU16 (bitField : BitVec 16) : Option Sector :=
  firstOneBitIndexInU16 (bitField ^^^ 0xffff)

/-- `find_page_in_mm_bf_pages`, with `none` for -1. -/
def findPageInMmBfPages (tab : BitField 3 16) : Option Page :=
  if tab 0 ≠ 0 then
    (firstOneBitIndexInU16 (tab 0)).map fun (i : Sector) => ⟨i, by omega⟩
  else if tab 1 ≠ 0 then
    (firstOneBitIndexInU16 (tab 1)).map fun (i : Sector) => ⟨16 + i, by omega⟩
  else if tab 2 ≠ 0 then
    (firstOneBitIndexInU16 (tab 2)).map fun (i : Sector) => ⟨32 + i, by omega⟩
  else none

/-! ## Allocating and freeing blocks -/

/-- Remove `page` from the bit field `src` and put it into `dst`. -/
def Mm.movePage (s : Mm) (src dst : PageClass) (page : Page) : Mm :=
  let removed := Function.update s.pages src ((s.pages src).remove page)
  { s with pages := Function.update removed dst ((removed dst).insert page) }

/-- Overwrite the sector mask of `page`. -/
def Mm.setSectors (s : Mm) (page : Page) (mask : BitVec 16) : Mm :=
  { s with sectorsUsed := Function.update s.sectorsUsed page mask }

/-- The physical address of a sector. -/
def sectorAdr (page : Page) (sector : Sector) : Nat :=
  mmMemBaseAdr + page * mmPageSize + sector * mmSectorSize

/-- `allocate_8k`: a whole page from the pool. -/
def allocate8k (s : Mm) : Mm × Option Nat :=
  match findPageInMmBfPages (s.pages .pool) with
  | none => (s, none)
  | some page =>
    ((s.movePage .pool .full8k page).setSectors page 0xffff,
      some (mmMemBaseAdr + page * mmPageSize))

/-- The common body of `allocate_2k` and `allocate_512`.  The parameters
are the two bit fields of the block size, the mask `unit` of the sectors of
the first block of a page, and the text of the internal panic. -/
def allocateSectors (part full : PageClass) (unit : BitVec 16) (noSector : String)
    (s : Mm) : Except String (Mm × Option Nat) :=
  match findPageInMmBfPages (s.pages part) with
  | none =>
    match findPageInMmBfPages (s.pages .pool) with
    | none => .ok (s, none)
    | some page =>
      .ok ((s.movePage .pool part page).setSectors page unit, some (sectorAdr page 0))
  | some page =>
    match firstZeroBitIndexInU16 (s.sectorsUsed page) with
    | none => .error noSector
    | some sector =>
      let marked := s.setSectors page (s.sectorsUsed page ||| unit <<< (sector : Nat))
      let s' :=
        if marked.sectorsUsed page = 0xffff then marked.movePage part full page
        else marked
      .ok (s', some (sectorAdr page sector))

/-- `allocate_2k`. -/
def allocate2k : Mm → Except String (Mm × Option Nat) :=
  allocateSectors .partial2k .full2k 0x000f
    "4GHIF ERROR: MM: No sector available in allocate 2K"

/-- `allocate_512`. -/
def allocate512 : Mm → Except String (Mm × Option Nat) :=
  allocateSectors .partial512 .full512 1
    "4GHIF ERROR: MM: No sector available in allocate 512"

/-- `free_8k`. -/
def free8k (page : Page) (s : Mm) : Mm :=
  (s.setSectors page 0).movePage .full8k .pool page

/-- The common body of `free_2k` and `free_512` after the alignment test
of the former. -/
def freeSectors (part full : PageClass) (unit : BitVec 16) (page : Page) (sector : Sector)
    (s : Mm) : Mm :=
  let opened := if s.sectorsUsed page = 0xffff then s.movePage full part page else s
  let cleared := opened.setSectors page
    (opened.sectorsUsed page &&& (0xffff ^^^ unit <<< (sector : Nat)))
  if cleared.sectorsUsed page = 0 then cleared.movePage part .pool page else cleared

/-- `free_2k`. -/
def free2k (page : Page) (sector : Sector) (s : Mm) : Except String Mm :=
  if (sector : Nat) % 4 ≠ 0 then .error "Bad sector alignment"
  else .ok (freeSectors .partial2k .full2k 0xf page sector s)

/-- `free_512`. -/
def free512 (page : Page) (sector : Sector) (s : Mm) : Mm :=
  freeSectors .partial512 .full512 1 page sector s

/-! ## The entry points -/

/-- `IPC_4GHIF_data_ul_mm_buddy_init`. -/
def dataUlMmBuddyInit : Mm where
  pages
    | .pool => fun _ => 0xffff
    | _ => fun _ => 0
  sectorsUsed := fun _ => 0
  stat :=
    { allocInd := 0
      allocSize := fun _ => 0xffff
      minSizeAllocated := 0xffff
      maxSizeAllocated := 0
      blocks8kAllocatedFromStart := 0
      blocks2kAllocatedFromStart := 0
      blocks512AllocatedFromStart := 0
      allocFailure8k := 0
      allocFailure2k := 0
      allocFailure512 := 0
      blocks8kBytesFromStart := 0
      blocks2kBytesFromStart := 0
      blocks512BytesFromStart := 0
      blocks8kBelow4k := 0
      blocks2kBelow1k := 0
      blocks512Below256 := 0 }

/-- Extremes and history of the requested sizes, updated on every request.  The
index is post-incremented and reset when it reaches `MM_STAT_ALLOC_NB`, which
is the addition of `Fin 1024`. -/
def MmStat.request (t : MmStat) (size : BitVec 16) : MmStat :=
  { t with
    minSizeAllocated := if size < t.minSizeAllocated then size else t.minSizeAllocated
    maxSizeAllocated := if t.maxSizeAllocated < size then size else t.maxSizeAllocated
    allocSize := Function.update t.allocSize t.allocInd size
    allocInd := t.allocInd + 1 }

def MmStat.record8k (t : MmStat) (size : BitVec 16) (adr : Option Nat) : MmStat :=
  if adr.isSome then
    { t with
      blocks8kAllocatedFromStart := t.blocks8kAllocatedFromStart + 1
      blocks8kBytesFromStart := t.blocks8kBytesFromStart + size.setWidth 32
      blocks8kBelow4k := if size ≤ 4096 then t.blocks8kBelow4k + 1 else t.blocks8kBelow4k }
  else { t with allocFailure8k := t.allocFailure8k + 1 }

def MmStat.record2k (t : MmStat) (size : BitVec 16) (adr : Option Nat) : MmStat :=
  if adr.isSome then
    { t with
      blocks2kAllocatedFromStart := t.blocks2kAllocatedFromStart + 1
      blocks2kBytesFromStart := t.blocks2kBytesFromStart + size.setWidth 32
      blocks2kBelow1k := if size ≤ 1024 then t.blocks2kBelow1k + 1 else t.blocks2kBelow1k }
  else { t with allocFailure2k := t.allocFailure2k + 1 }

def MmStat.record512 (t : MmStat) (size : BitVec 16) (adr : Option Nat) : MmStat :=
  if adr.isSome then
    { t with
      blocks512AllocatedFromStart := t.blocks512AllocatedFromStart + 1
      blocks512BytesFromStart := t.blocks512BytesFromStart + size.setWidth 32
      blocks512Below256 :=
        if size ≤ 256 then t.blocks512Below256 + 1 else t.blocks512Below256 }
  else { t with allocFailure512 := t.allocFailure512 + 1 }

/-- `IPC_4GHIF_data_ul_mm_buddy_alloc`. -/
def dataUlMmBuddyAlloc (s : Mm) (size : BitVec 16) : Except String (Mm × Option Nat) :=
  if size.toNat > mmPageSize then .error "4GHIF ERROR: MM: Cannot allocate more than 8KB"
  else
    let s := { s with stat := s.stat.request size }
    if size.toNat > 2048 then
      let (s, adr) := allocate8k s
      .ok ({ s with stat := s.stat.record8k size adr }, adr)
    else if size.toNat > 512 then do
      let (s, adr) ← allocate2k s
      .ok ({ s with stat := s.stat.record2k size adr }, adr)
    else do
      let (s, adr) ← allocate512 s
      .ok ({ s with stat := s.stat.record512 size adr }, adr)

/-- The page that holds an address of the managed memory. -/
def pageOf (adr : Nat) (h : adr < mmMemBaseAdr + mmMemSize) : Page :=
  ⟨(adr - mmMemBaseAdr) / mmPageSize, by
    unfold mmMemBaseAdr mmMemSize mmPageSize at *
    omega⟩

/-- The sector, within its page, that holds an address of the managed memory. -/
def sectorOf (adr : Nat) : Sector :=
  ⟨(adr - mmMemBaseAdr) % mmPageSize / mmSectorSize, by
    unfold mmMemBaseAdr mmPageSize mmSectorSize
    omega⟩

/-- `IPC_4GHIF_data_ul_mm_buddy_free`.  The class of the block is found again
from the bit fields. -/
def dataUlMmBuddyFree (s : Mm) (adr : Nat) : Except String Mm :=
  if h : adr < mmMemBaseAdr ∨ adr ≥ mmMemBaseAdr + mmMemSize then
    .error "4GHIF ERROR: MM: FREE ADR OUTSIDE MEMORY RANGE"
  else if (adr - mmMemBaseAdr) % mmSectorSize ≠ 0 then
    .error "\n4GHIF ERROR: MM: FREE ADR NOT ALIGNED ON A SECTOR"
  else
    let page := pageOf adr (by omega)
    let sector := sectorOf adr
    if s.sectorsUsed page &&& 1 <<< (sector : Nat) = 0 then
      .error "4GHIF ERROR: MM: FREE SECTOR NOT USED"
    else if (s.pages .full8k).test page then .ok (free8k page s)
    else if (s.pages .partial2k).test page || (s.pages .full2k).test page then
      free2k page sector s
    else .ok (free512 page sector s)

end LteModemKernel.Buddy
