import LteModemKernel.Lib.Runs

/-!
# Anonymous shared memory

An ashmem area has a list of the ranges of its pages that are unpinned, from the highest to
the lowest.  The ranges whose pages are still there are also on a list of all areas, in the
order in which they were unpinned; the shrinker truncates the pages of the ranges on it and
marks them as purged.

Ranges are named by the order of their allocation, so that the list of all areas can refer
to them.  Pages and sizes are `size_t` of 32 bits, with pages of 4096 bytes.

Main definitions:

- `pinRanges`, `unpinRanges`, `getPinStatus`: `ashmem_pin`,
  `ashmem_unpin` and `ashmem_get_pin_status` on the list of an area.
- `State.pinUnpin`: the checks of `ashmem_pin_unpin`.
- `State.shrink`: `ashmem_shrink`.
- `State.exec`, `State.execMem`: the steps, with memory for new ranges or without.
-/

namespace LteModemKernel.Ashmem

open Lib

/-- `struct ashmem_range`; both ends belong to it. -/
structure Range where
  id : Nat
  pgstart : UInt32
  pgend : UInt32
  purged : Bool
  deriving DecidableEq, Repr

namespace Range

/-- `range_size` -/
def size (range : Range) : UInt32 :=
  range.pgend - range.pgstart + 1

/-- `page_range_subsumes_range`: the pages hold the whole range. -/
def subsumed (range : Range) (pgstart pgend : UInt32) : Bool :=
  pgstart ≤ range.pgstart && range.pgend ≤ pgend

/-- `page_range_subsumed_by_range`: the range holds all the pages. -/
def subsumes (range : Range) (pgstart pgend : UInt32) : Bool :=
  range.pgstart ≤ pgstart && pgend ≤ range.pgend

/-- `page_in_range` -/
def holds (range : Range) (page : UInt32) : Bool :=
  range.pgstart ≤ page && page ≤ range.pgend

/-- `page_range_in_range` -/
def meets (range : Range) (pgstart pgend : UInt32) : Bool :=
  range.holds pgstart || range.holds pgend || range.subsumed pgstart pgend

/-- The range `id` gets `ASHMEM_WAS_PURGED`. -/
def mark (id : Nat) (range : Range) : Range :=
  if range.id = id then { range with purged := true } else range

end Range

/-- The list of the ranges that the shrinker may purge, each with its area, the number of pages
on it, and the name of the next range. -/
structure Lru where
  list : List (Nat × Nat)
  count : UInt32
  next : Nat
  deriving DecidableEq, Repr

namespace Lru

/-- `lru_del` -/
def del (lru : Lru) (asma : Nat) (range : Range) : Lru :=
  { lru with list := lru.list.erase (asma, range.id), count := lru.count - range.size }

/-- `range_alloc` without the list of the area. -/
def rangeAlloc (lru : Lru) (asma : Nat) (purged : Bool) (pgstart pgend : UInt32) : Range × Lru :=
  let range : Range := ⟨lru.next, pgstart, pgend, purged⟩
  if purged then
    (range, { lru with next := lru.next + 1 })
  else
    (range, { lru with
      list := lru.list ++ [(asma, range.id)]
      count := lru.count + range.size
      next := lru.next + 1 })

/-- `range_del` without the list of the area. -/
def rangeDel (lru : Lru) (asma : Nat) (range : Range) : Lru :=
  if range.purged then lru else lru.del asma range

/-- `range_shrink`: the number of pages on the list. -/
def rangeShrink (lru : Lru) (range range' : Range) : Lru :=
  if range.purged then lru else { lru with count := lru.count - (range.size - range'.size) }

end Lru

/-- `ashmem_pin` from a place of the list on: the list, the list of all areas, and whether
one of the ranges was purged.  Without `mem`, `range_alloc` fails; its result is not looked at. -/
def pinRanges (mem : Bool) (asma : Nat) (pgstart pgend : UInt32) :
    List Range → Lru → List Range × Lru × Bool
  | [], lru => ([], lru, false)
  | range :: next, lru =>
    if range.pgend < pgstart then
      (range :: next, lru, false)
    else if range.meets pgstart pgend then
      if range.subsumed pgstart pgend then
        let (next', lru', ret) := pinRanges mem asma pgstart pgend next (lru.rangeDel asma range)
        (next', lru', range.purged || ret)
      else if pgstart ≤ range.pgstart then
        let range' := { range with pgstart := pgend + 1 }
        let lru := lru.rangeShrink range range'
        let (next', lru', ret) := pinRanges mem asma pgstart pgend next lru
        (range' :: next', lru', range.purged || ret)
      else if range.pgend ≤ pgend then
        let range' := { range with pgend := pgstart - 1 }
        let lru := lru.rangeShrink range range'
        let (next', lru', ret) := pinRanges mem asma pgstart pgend next lru
        (range' :: next', lru', range.purged || ret)
      else
        let range' := { range with pgend := pgstart - 1 }
        if mem then
          let (new, lru') := lru.rangeAlloc asma range.purged (pgend + 1) range.pgend
          (new :: range' :: next, lru'.rangeShrink range range', range.purged)
        else (range' :: next, lru.rangeShrink range range', range.purged)
    else
      let (next', lru', ret) := pinRanges mem asma pgstart pgend next lru
      (range :: next', lru', ret)

/-- How a walk of `ashmem_unpin` through the list ends: a range holds all the pages, a range
overlaps them, or the place for them is found. -/
inductive Walk where
  | held
  | overlap (before : List Range) (range : Range) (behind : List Range)
  | place (before behind : List Range)

/-- One more range in front. -/
def Walk.cons (range : Range) : Walk → Walk
  | held => held
  | overlap before range' behind => overlap (range :: before) range' behind
  | place before behind => place (range :: before) behind

/-- The walk of `ashmem_unpin`. -/
def walk (pgstart pgend : UInt32) : List Range → Walk
  | [] => .place [] []
  | range :: next =>
    if range.pgend < pgstart then .place [] (range :: next)
    else if range.subsumes pgstart pgend then .held
    else if range.meets pgstart pgend then .overlap [] range next
    else (walk pgstart pgend next).cons range

/-- `EINVAL` -/
def einval : Int := 22

/-- `ENOMEM` -/
def enomem : Int := 12

/-- `ashmem_unpin`; `none` if it starts again more often than `fuel`. -/
def unpinRanges (mem : Bool) (asma : Nat) : Nat → UInt32 → UInt32 → Bool → List Range → Lru →
    Option (List Range × Lru × Int)
  | 0, _, _, _, _, _ => none
  | fuel + 1, pgstart, pgend, purged, ranges, lru =>
    match walk pgstart pgend ranges with
    | .held => some (ranges, lru, 0)
    | .overlap before range behind =>
      unpinRanges mem asma fuel (min range.pgstart pgstart) (max range.pgend pgend)
        (purged || range.purged) (before ++ behind) (lru.rangeDel asma range)
    | .place before behind =>
      if mem then
        let (new, lru') := lru.rangeAlloc asma purged pgstart pgend
        some (before ++ new :: behind, lru', 0)
      else some (before ++ behind, lru, -enomem)

/-- `ashmem_get_pin_status`: a range with one of the pages is found. -/
def getPinStatus (pgstart pgend : UInt32) : List Range → Bool
  | [] => false
  | range :: next =>
    if range.pgend < pgstart then false
    else if range.meets pgstart pgend then true
    else getPinStatus pgstart pgend next

/-- `struct ashmem_area`: the size, whether there is a backing file, and the unpinned ranges.
As history, the pages that the shrinker has truncated since they were unpinned. -/
structure Area where
  size : UInt32
  file : Bool
  unpinned : List Range
  truncated : Nat → Bool

/-- A new area. -/
def Area.opened : Area :=
  ⟨0, false, [], fun _ => false⟩

/-- All areas and the list of the shrinker. -/
structure State where
  area : Nat → Area
  lru : Lru

/-- `PAGE_ALIGN` -/
def pageAlign (size : UInt32) : UInt32 :=
  (size + 4095) &&& 0xFFFFF000

/-- The commands of `ashmem_pin_unpin`. -/
inductive Cmd where
  | pin
  | unpin
  | getPinStatus
  deriving DecidableEq, Repr

namespace State

/-- Replace one area. -/
def setArea (s : State) (asma : Nat) (area : Area) (lru : Lru) : State :=
  ⟨Function.update s.area asma area, lru⟩

/-- The command on pages `pgstart` to `pgend`. -/
def onPages (s : State) (mem : Bool) (asma : Nat) (cmd : Cmd) (pgstart pgend : UInt32) :
    Option (State × Int) :=
  let area := s.area asma
  match cmd with
  | .pin =>
    let (unpinned, lru, ret) := pinRanges mem asma pgstart pgend area.unpinned s.lru
    let truncated page := area.truncated page && !(pgstart.toNat ≤ page && page ≤ pgend.toNat)
    some (s.setArea asma { area with unpinned, truncated } lru, if ret then 1 else 0)
  | .unpin =>
    (unpinRanges mem asma (area.unpinned.length + 1) pgstart pgend false area.unpinned s.lru).map
      fun (unpinned, lru, ret) => (s.setArea asma { area with unpinned } lru, ret)
  | .getPinStatus =>
    some (s, if getPinStatus pgstart pgend area.unpinned then 0 else 1)

/-- `ashmem_pin_unpin` with the request copied from the user. -/
def pinUnpin (s : State) (mem : Bool) (asma : Nat) (cmd : Cmd) (offset len : UInt32) :
    Option (State × Int) :=
  let area := s.area asma
  if !area.file then
    some (s, -einval)
  else
    let len := if len = 0 then pageAlign area.size - offset else len
    if (offset ||| len) &&& 0xFFF ≠ 0 then
      some (s, -einval)
    else if 0xFFFFFFFF - offset < len then
      some (s, -einval)
    else if pageAlign area.size < offset + len then
      some (s, -einval)
    else
      let pgstart := offset / 4096
      s.onPages mem asma cmd pgstart (pgstart + len / 4096 - 1)

/-- A round of the loop of `ashmem_shrink`; `none` if the range or the backing file is
not there. -/
def purge (s : State) (asma id : Nat) : Option (State × Range) :=
  let area := s.area asma
  match area.unpinned.find? fun range => range.id == id with
  | none => none
  | some range =>
    if area.file then
      let unpinned := area.unpinned.map (Range.mark id)
      let truncated page :=
        area.truncated page || (range.pgstart.toNat ≤ page && page ≤ range.pgend.toNat)
      some (s.setArea asma { area with unpinned, truncated } (s.lru.del asma range), range)
    else none

/-- The loop of `ashmem_shrink`. -/
def shrinkLoop : List (Nat × Nat) → Int32 → State → Option State
  | [], _, s => some s
  | (asma, id) :: next, nrToScan, s =>
    match s.purge asma id with
    | none => none
    | some (s', range) =>
      let nrToScan := nrToScan - range.size.toInt32
      if nrToScan ≤ 0 then some s' else shrinkLoop next nrToScan s'

/-- `ashmem_shrink`; `fs` is the bit `__GFP_FS` of the mask. -/
def shrink (s : State) (nrToScan : Int32) (fs : Bool) : Option (State × Int) :=
  if nrToScan ≠ 0 && !fs then some (s, -1)
  else if nrToScan = 0 then some (s, s.lru.count.toInt32.toInt)
  else (shrinkLoop s.lru.list nrToScan s).map fun s' => (s', s'.lru.count.toInt32.toInt)

/-- `ASHMEM_SET_SIZE` -/
def setSize (s : State) (asma : Nat) (size : UInt32) : State × Int :=
  if (s.area asma).file then (s, -einval)
  else (s.setArea asma { s.area asma with size } s.lru, 0)

/-- `ashmem_mmap` of an area with the wanted protection, whose backing file can be set up. -/
def mmap (s : State) (asma : Nat) : State × Int :=
  if (s.area asma).size = 0 then (s, -einval)
  else (s.setArea asma { s.area asma with file := true } s.lru, 0)

/-- `ashmem_release`, and the area is opened again. -/
def release (s : State) (asma : Nat) : State × Int :=
  let lru := (s.area asma).unpinned.foldl (fun lru range => lru.rangeDel asma range) s.lru
  (s.setArea asma .opened lru, 0)

end State

/-- The calls. -/
inductive Label where
  | pinUnpin (asma : Nat) (cmd : Cmd) (offset len : UInt32)
  | shrink (nrToScan : Int32) (fs : Bool)
  | purgeAllCaches
  | setSize (asma : Nat) (size : UInt32)
  | mmap (asma : Nat)
  | release (asma : Nat)
  deriving DecidableEq, Repr

/-- The state and the return value after a call. -/
def State.exec (s : State) : Label → Option (State × Int)
  | .pinUnpin asma cmd offset len => s.pinUnpin true asma cmd offset len
  | .shrink nrToScan fs => s.shrink nrToScan fs
  | .purgeAllCaches =>
    -- `ashmem_shrink(0, GFP_KERNEL)` asks for the number of pages
    (s.shrink s.lru.count.toInt32 true).map fun r => (r.1, s.lru.count.toInt32.toInt)
  | .setSize asma size => some (s.setSize asma size)
  | .mmap asma => some (s.mmap asma)
  | .release asma => some (s.release asma)

/-- A call during which there is memory for new ranges, or none. -/
def State.execMem (s : State) (mem : Bool) : Label → Option (State × Int)
  | .pinUnpin asma cmd offset len => s.pinUnpin mem asma cmd offset len
  | label => s.exec label

/-- No area has a backing file or an unpinned range. -/
def State.init : State :=
  ⟨fun _ => .opened, ⟨[], 0, 0⟩⟩

/-- Any calls on any areas, with memory. -/
def system : TransitionSystem State Label where
  init s := s = State.init
  step s label s' := ∃ ret, s.exec label = some (s', ret)

/-- Any calls on any areas, each with memory or without. -/
def memSystem : TransitionSystem State (Bool × Label) where
  init s := s = State.init
  step s label s' := ∃ ret, s.execMem label.1 label.2 = some (s', ret)

end LteModemKernel.Ashmem
