import LteModemKernel.Lib.Runs

/-!
# The PMEM region allocator

A region of physical memory is handed out in blocks of `2 ^ k` pages.  The bitmap has one entry
a page with a bit for allocated blocks and the order of the block; only the entries at the start of
a block mean something.  `pmem_allocate` walks from block to block for the best fit and cuts
it in halves; `pmem_free` merges a block with its buddy as long as that is free and of the same
order.

The bitmap is an array of `num_entries` words with eight bits in use.  The memory behind it is part
of the model: `pmem_free` looks at the entry of the buddy before it knows that the buddy is in the
region.

Main definitions:

- `pmemSetup`, `pmemAllocate`, `pmemFree`: the functions of
  `drivers/misc/pmem.c`.
- `State.heads`: the indices that `PMEM_NEXT_INDEX` visits from 0 on.
- `State.exec`: the steps, with the live allocations as history.
- `State.accesses`: the entries that a call reads or writes.
-/

namespace LteModemKernel.Pmem

open Lib

/-- `struct pmem_bits`; `order` has seven bits. -/
structure Bits where
  allocated : Bool
  order : Nat
  deriving DecidableEq, Repr

/-- The entries of the bitmap and the memory behind it. -/
abbrev Bitmap := Nat → Bits

namespace Bitmap

/-- Write an order. -/
def setOrder (bitmap : Bitmap) (index order : Nat) : Bitmap :=
  Function.update bitmap index { bitmap index with order := order % 128 }

/-- Write the bit for an allocated block. -/
def setAllocated (bitmap : Bitmap) (index : Nat) (allocated : Bool) : Bitmap :=
  Function.update bitmap index { bitmap index with allocated := allocated }

/-- `PMEM_IS_FREE` -/
def isFree (bitmap : Bitmap) (index : Nat) : Bool :=
  !(bitmap index).allocated

/-- `PMEM_ORDER` -/
def order (bitmap : Bitmap) (index : Nat) : Nat :=
  (bitmap index).order

/-- `PMEM_BUDDY_INDEX` -/
def buddyIndex (bitmap : Bitmap) (index : Nat) : Nat :=
  index ^^^ 1 <<< bitmap.order index

/-- `PMEM_NEXT_INDEX` -/
def nextIndex (bitmap : Bitmap) (index : Nat) : Nat :=
  index + 1 <<< bitmap.order index

/-- The indices below `numEntries` that `PMEM_NEXT_INDEX` visits from `curr` on; each
step goes up, so that `numEntries` steps are enough. -/
def walk (bitmap : Bitmap) (numEntries : Nat) : Nat → Nat → List Nat
  | 0, _ => []
  | fuel + 1, curr =>
    if curr < numEntries then curr :: walk bitmap numEntries fuel (bitmap.nextIndex curr)
    else []

end Bitmap

/-! ## Setting up -/

/-- The loop of `pmem_setup` over the bits below `i`, from the highest one on. -/
def setupLoop (numEntries : Nat) : Nat → Nat → Bitmap → Bitmap
  | 0, _, bitmap => bitmap
  | i + 1, index, bitmap =>
    if numEntries.testBit i then
      let bitmap := bitmap.setOrder index i
      setupLoop numEntries i (bitmap.nextIndex index) bitmap
    else
      setupLoop numEntries i index bitmap

/-- The bitmap of `pmem_setup`; `memory` is what lies behind it. -/
def pmemSetup (numEntries : Nat) (memory : Bitmap) : Bitmap :=
  setupLoop numEntries 32 0 fun index => if index < numEntries then ⟨false, 0⟩ else memory index

/-! ## Allocating -/

/-- The loop of `pmem_order` from `i` on, for the given number of rounds. -/
def orderLoop (len : Nat) : Nat → Nat → Nat
  | 0, i => i
  | rounds + 1, i => if len >>> i = 0 then i else orderLoop len rounds (i + 1)

/-- `pmem_order` -/
def pmemOrder (len : UInt32) : Nat :=
  let len := (len + 4096 - 1) / 4096
  let len := len - 1
  orderLoop len.toNat 32 0

/-- There is no best fit yet, or one of a larger order. -/
def Bitmap.better (bitmap : Bitmap) (curr : Nat) : Option Nat → Bool
  | none => true
  | some b => bitmap.order curr < bitmap.order b

/-- The search of `pmem_allocate`: a free block of the order, or else a smallest one of a larger
order. -/
def bestFit (bitmap : Bitmap) (numEntries order : Nat) : Nat → Nat → Option Nat → Option Nat
  | 0, _, best => best
  | fuel + 1, curr, best =>
    if curr < numEntries then
      if bitmap.isFree curr && bitmap.order curr == order then
        some curr
      else
        let best :=
          if bitmap.isFree curr && order < bitmap.order curr && bitmap.better curr best then
            some curr
          else best
        bestFit bitmap numEntries order fuel (bitmap.nextIndex curr) best
    else best

/-- The loop of `pmem_allocate` that cuts the block in halves; its order goes down with every
round. -/
def partition (order best : Nat) : Nat → Bitmap → Bitmap
  | 0, bitmap => bitmap
  | fuel + 1, bitmap =>
    if order < bitmap.order best then
      let bitmap := bitmap.setOrder best (bitmap.order best - 1)
      partition order best fuel
        (bitmap.setOrder (bitmap.buddyIndex best) (bitmap.order best))
    else bitmap

/-- `PMEM_MAX_ORDER` -/
def pmemMaxOrder : Nat := 128

/-- `pmem_allocate` without the branch for regions that are not managed by an allocator; the
index, or `none` for -1. -/
def pmemAllocate (numEntries : Nat) (bitmap : Bitmap) (len : UInt32) : Option (Nat × Bitmap) :=
  let order := pmemOrder len
  if pmemMaxOrder < order then none
  else
    match bestFit bitmap numEntries order numEntries 0 none with
    | none => none
    | some best =>
      some (best, (partition order best (bitmap.order best) bitmap).setAllocated best true)

/-! ## Freeing -/

/-- The loop of `pmem_free`; `none` if it takes more rounds than `fuel`. -/
def freeLoop (numEntries : Nat) : Nat → Nat → Bitmap → Option Bitmap
  | 0, _, _ => none
  | fuel + 1, curr, bitmap =>
    let buddy := bitmap.buddyIndex curr
    if bitmap.isFree buddy && bitmap.order buddy == bitmap.order curr then
      let bitmap := bitmap.setOrder buddy (bitmap.order buddy + 1)
      let bitmap := bitmap.setOrder curr (bitmap.order curr + 1)
      let curr := min buddy curr
      if curr < numEntries then freeLoop numEntries fuel curr bitmap else some bitmap
    else some bitmap

/-- `pmem_free`; an order has seven bits, so that 128 rounds stand for any number. -/
def pmemFree (numEntries : Nat) (bitmap : Bitmap) (index : Nat) : Option Bitmap :=
  freeLoop numEntries 128 index (bitmap.setAllocated index false)

/-! ## The entries that are read or written -/

/-- The entries of the loop of `pmem_setup`. -/
def setupAccesses (numEntries : Nat) : Nat → Nat → Bitmap → List Nat
  | 0, _, _ => []
  | i + 1, index, bitmap =>
    if numEntries.testBit i then
      let bitmap := bitmap.setOrder index i
      index :: setupAccesses numEntries i (bitmap.nextIndex index) bitmap
    else
      setupAccesses numEntries i index bitmap

/-- The entries of `pmem_setup` behind the call of `memset`. -/
def pmemSetupAccesses (numEntries : Nat) (memory : Bitmap) : List Nat :=
  setupAccesses numEntries 32 0 fun index =>
    if index < numEntries then ⟨false, 0⟩ else memory index

/-- The entries of the search of `pmem_allocate`; the best fit is one that was visited before. -/
def bestFitAccesses (bitmap : Bitmap) (numEntries order : Nat) : Nat → Nat → List Nat
  | 0, _ => []
  | fuel + 1, curr =>
    if curr < numEntries then
      curr ::
        if bitmap.isFree curr && bitmap.order curr == order then []
        else bestFitAccesses bitmap numEntries order fuel (bitmap.nextIndex curr)
    else []

/-- The entries of the loop that cuts a block, and of the mark behind it. -/
def partitionAccesses (order best : Nat) : Nat → Bitmap → List Nat
  | 0, _ => [best]
  | fuel + 1, bitmap =>
    best ::
      if order < bitmap.order best then
        let bitmap := bitmap.setOrder best (bitmap.order best - 1)
        bitmap.buddyIndex best :: partitionAccesses order best fuel
          (bitmap.setOrder (bitmap.buddyIndex best) (bitmap.order best))
      else []

/-- The entries of the loop of `pmem_free`. -/
def freeAccesses (numEntries : Nat) : Nat → Nat → Bitmap → List Nat
  | 0, _, _ => []
  | fuel + 1, curr, bitmap =>
    let buddy := bitmap.buddyIndex curr
    curr :: buddy ::
      if bitmap.isFree buddy && bitmap.order buddy == bitmap.order curr then
        let bitmap := bitmap.setOrder buddy (bitmap.order buddy + 1)
        let bitmap := bitmap.setOrder curr (bitmap.order curr + 1)
        let curr := min buddy curr
        if curr < numEntries then freeAccesses numEntries fuel curr bitmap else []
      else []

/-! ## A region and its users -/

/-- A region with its bitmap.  As history, the allocations that are live: the index and the length
that was asked for. -/
structure State where
  numEntries : Nat
  bitmap : Bitmap
  live : List (Nat × UInt32)

/-- The steps; `other` is a write of some other code behind the bitmap. -/
inductive Label where
  | allocate (len : UInt32)
  | free (index : Nat)
  | other (index : Nat) (bits : Bits)
  deriving DecidableEq, Repr

namespace State

/-- The region after `pmem_setup`. -/
def setup (size : UInt32) (memory : Bitmap) : State :=
  ⟨(size / 4096).toNat, pmemSetup (size / 4096).toNat memory, []⟩

/-- The indices that `PMEM_NEXT_INDEX` visits from 0 on. -/
def heads (s : State) : List Nat :=
  s.bitmap.walk s.numEntries s.numEntries 0

/-- The blocks at these indices with their orders. -/
def blocks (s : State) : List (Nat × Nat) :=
  s.heads.map fun p => (p, s.bitmap.order p)

/-- The region and the return value after a call; `none` for a call that is not made. -/
def exec (s : State) : Label → Option (State × Int)
  | .allocate len =>
    if len = 0 then none
    else
      match pmemAllocate s.numEntries s.bitmap len with
      | none => some (s, -1)
      | some (index, bitmap) =>
        some ({ s with bitmap, live := s.live ++ [(index, len)] }, (index : Int))
  | .free index =>
    if (s.live.map Prod.fst).contains index then
      (pmemFree s.numEntries s.bitmap index).map fun bitmap =>
        ({ s with bitmap, live := s.live.filter fun a => a.1 ≠ index }, 0)
    else none
  | .other index bits =>
    if s.numEntries ≤ index then
      some ({ s with bitmap := Function.update s.bitmap index bits }, 0)
    else none

/-- The entries that a call reads or writes. -/
def accesses (s : State) : Label → List Nat
  | .allocate len =>
    let order := pmemOrder len
    if pmemMaxOrder < order then []
    else
      bestFitAccesses s.bitmap s.numEntries order s.numEntries 0 ++
        match bestFit s.bitmap s.numEntries order s.numEntries 0 none with
        | none => []
        | some best => partitionAccesses order best (s.bitmap.order best) s.bitmap
  | .free index =>
    index :: freeAccesses s.numEntries 128 index (s.bitmap.setAllocated index false)
  | .other _ _ => []

end State

/-- Regions of at least one page, with any memory behind the bitmap. -/
def system : TransitionSystem State Label where
  init s := ∃ size memory, 1 ≤ (size / 4096 : UInt32).toNat ∧ s = State.setup size memory
  step s label s' := ∃ ret, s.exec label = some (s', ret)

end LteModemKernel.Pmem
