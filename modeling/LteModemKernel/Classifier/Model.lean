import LteModemKernel.Lib.DoublyLinked
import LteModemKernel.Lib.Runs

/-!
# The packet classifier of the LTE QoS agent

The model of `lte_qos_agent.c`.  Every PDN has a default bearer and up to sixteen
dedicated bearers; a bearer keeps its packet filters in sixteen slots, and all
filters of a PDN are linked, in the order of their precedence, into the classifier
table that `gsQa_lte[ct].tClassifierTable` points to.

A function that reads or writes through a null pointer or a freed one, or that
indexes behind an array, has no result (`none`); the return code of the source is
part of the result otherwise.
-/

namespace LteModemKernel.Classifier

/-! ## Data -/

/-- The address of a classifier table entry; the null pointer is `none`. -/
abbrev Ptr := Nat

/-- An address and its mask, byte by byte: `u8Entry1` and `u8Entry2`. -/
structure AddrMask (n : Nat) where
  entry1 : Vector UInt8 n
  entry2 : Vector UInt8 n
  deriving DecidableEq

/-- The first `sEntry` of `AMP_WIMAX_DOUBLE_TWO_BYTE_ARRAY_S`. -/
structure PortEntry where
  entry1 : UInt16
  entry2 : UInt16
  deriving DecidableEq

/-- `AMP_WIMAX_TWO_ONE_BYTE_ARRAY_S`: a value and its mask. -/
structure DscpEntry where
  entry1 : UInt8
  entry2 : UInt8
  deriving DecidableEq

/-- `tPACKET_FILTER`.  Of the members `u32NumOfEntry` those of `sIpDestPort` and `sSpi` stand where
`sEntry[1]` of the member before them would, and are read there. -/
structure PacketFilter where
  epsId : UInt8
  direction : UInt8
  packetFilterIdentifier : UInt8
  packetFilterPrecedence : UInt8
  claMask : UInt64
  ipProt : UInt8
  ipv4DestAddrMask : AddrMask 4
  ipv6DestAddrMask : AddrMask 16
  ipSrcPort : PortEntry
  destPortNum : UInt32
  ipDestPort : PortEntry
  spiNum : UInt32
  spi : UInt32
  dscp : DscpEntry
  ipv6FlowLabel : Vector UInt8 3
  deriving DecidableEq

/-- The packet filter of `memset` to zero. -/
def PacketFilter.zero : PacketFilter where
  epsId := 0
  direction := 0
  packetFilterIdentifier := 0
  packetFilterPrecedence := 0
  claMask := 0
  ipProt := 0
  ipv4DestAddrMask := ⟨.replicate 4 0, .replicate 4 0⟩
  ipv6DestAddrMask := ⟨.replicate 16 0, .replicate 16 0⟩
  ipSrcPort := ⟨0, 0⟩
  destPortNum := 0
  ipDestPort := ⟨0, 0⟩
  spiNum := 0
  spi := 0
  dscp := ⟨0, 0⟩
  ipv6FlowLabel := .replicate 3 0

/-- The fields that the source sets in a match-all filter.  The identifier is not
among them, so it keeps, like the contents, whatever the memory holds. -/
def PacketFilter.matchAll (garbage : PacketFilter) (bearerId : UInt8) : PacketFilter :=
  { garbage with
    epsId := bearerId
    direction := 3
    packetFilterPrecedence := 255
    claMask := 0xffffffffffffffff }

/-- `tCLASSIFIER_TABLE_ENTRY`. -/
abbrev Entry := Lib.Cell Ptr PacketFilter

/-- `MAX_FILTERS_PER_TFT`. -/
abbrev maxFiltersPerTft : Nat := 16

/-- `MAX_DEDICATED_BEARER_PER_PDN`. -/
abbrev maxDedicatedBearerPerPdn : Nat := 16

/-- `MAX_PDNS`. -/
abbrev maxPdns : Nat := 5

scoped instance neZeroThree : NeZero 3 := ⟨by decide⟩
scoped instance neZeroPdns : NeZero maxPdns := ⟨by decide⟩
scoped instance neZeroFilters : NeZero maxFiltersPerTft := ⟨by decide⟩

/-- `tTFT`, without the quality of service. -/
structure Tft where
  epsBearerId : UInt8
  numFilters : UInt8
  packetFilters : Fin maxFiltersPerTft → Option Ptr

/-- The bearer of `memset` to zero. -/
def Tft.zero : Tft := ⟨0, 0, fun _ => none⟩

/-- `tPDN_CLASSIFIER`, without the addresses and names of the PDN. -/
structure PdnClassifier where
  defaultBearer : Tft
  matchAll : Bool
  numDedicatedBearers : Nat
  dedicatedBearer : Fin maxDedicatedBearerPerPdn → Tft
  classifierTable : Option Ptr

/-- A PDN before its first message. -/
def PdnClassifier.zero : PdnClassifier := ⟨.zero, false, 0, fun _ => .zero, none⟩

/-- The bearer that `pTft` points to: the default one, or a dedicated one. -/
inductive Bearer where
  | default
  | dedicated (k : Fin maxDedicatedBearerPerPdn)
  deriving DecidableEq

/-- `AMP_RET_CODE_E`. -/
inductive RetCode where
  | success
  | fail
  deriving DecidableEq

namespace PdnClassifier

/-- The bearer behind `pTft`. -/
def tft (pdn : PdnClassifier) : Bearer → Tft
  | .default => pdn.defaultBearer
  | .dedicated k => pdn.dedicatedBearer k

/-- Overwrite the bearer behind `pTft`. -/
def setTft (pdn : PdnClassifier) (b : Bearer) (tft : Tft) : PdnClassifier :=
  match b with
  | .default => { pdn with defaultBearer := tft }
  | .dedicated k => { pdn with dedicatedBearer := Function.update pdn.dedicatedBearer k tft }

/-- The filter in a slot. -/
def slot (pdn : PdnClassifier) (b : Bearer) (j : Fin maxFiltersPerTft) : Option Ptr :=
  (pdn.tft b).packetFilters j

/-- Write a slot and the number of filters of its bearer. -/
def setSlot (pdn : PdnClassifier) (b : Bearer) (j : Fin maxFiltersPerTft) (v : Option Ptr)
    (numFilters : UInt8) : PdnClassifier :=
  pdn.setTft b
    { pdn.tft b with
      numFilters := numFilters
      packetFilters := Function.update (pdn.tft b).packetFilters j v }

/-- The search for a dedicated bearer by its id. -/
def findDedicated (pdn : PdnClassifier) (bearerId : UInt8) :
    Option (Fin maxDedicatedBearerPerPdn) :=
  (List.finRange maxDedicatedBearerPerPdn).find? fun k =>
    decide (k.val < pdn.numDedicatedBearers) && (pdn.dedicatedBearer k).epsBearerId == bearerId

/-- The dedicated bearer that `QA_Process_Bearer_Mod` works on: the one found, or
else the entry behind the last one, where the search loop ends. -/
def bearerIndex (pdn : PdnClassifier) (bearerId : UInt8) : Option (Fin maxDedicatedBearerPerPdn) :=
  match pdn.findDedicated bearerId with
  | some k => some k
  | none =>
    if h : pdn.numDedicatedBearers < maxDedicatedBearerPerPdn then
      some ⟨pdn.numDedicatedBearers, h⟩
    else none

end PdnClassifier

/-! ## Memory -/

/-- The memory of the classifier: the entries in use, the next address that
`kmalloc` hands out, the number of entries it can still hand out, and what fresh
memory holds. -/
structure Mem where
  heap : Lib.Heap Ptr PacketFilter
  brk : Ptr
  free : Nat
  garbage : Ptr → PacketFilter

namespace Mem

/-- `kmalloc`. -/
def kmalloc (m : Mem) : Option (Ptr × Mem) :=
  if m.free = 0 then none
  else
    some (m.brk,
      { m with
        heap := Function.update m.heap m.brk (some ⟨m.garbage m.brk, none, none⟩)
        brk := m.brk + 1
        free := m.free - 1 })

/-- `kfree`. -/
def kfree (m : Mem) (p : Ptr) : Option Mem :=
  match m.heap p with
  | none => none
  | some _ => some { m with heap := Function.update m.heap p none, free := m.free + 1 }

/-- `p->tNextPF = v`. -/
def setNext (m : Mem) (p v : Option Ptr) : Option Mem :=
  match p.bind m.heap with
  | none => none
  | some _ => some { m with heap := Lib.linkNext m.heap p v }

/-- `p->tPrevPF = v`. -/
def setPrev (m : Mem) (p v : Option Ptr) : Option Mem :=
  match p.bind m.heap with
  | none => none
  | some _ => some { m with heap := Lib.linkPrev m.heap p v }

/-- `if (p != NULL) p->tNextPF = v`. -/
def setNextUnlessNull (m : Mem) (p v : Option Ptr) : Option Mem :=
  if p = none then some m else m.setNext p v

/-- `if (p != NULL) p->tPrevPF = v`. -/
def setPrevUnlessNull (m : Mem) (p v : Option Ptr) : Option Mem :=
  if p = none then some m else m.setPrev p v

/-- Overwrite `p->tPacketFilter`. -/
def setFilter (m : Mem) (p : Option Ptr) (filter : PacketFilter) : Option Mem :=
  match p with
  | none => none
  | some x =>
    match m.heap x with
    | none => none
    | some c => some { m with heap := Function.update m.heap x (some { c with data := filter }) }

end Mem

/-- One PDN with the memory its pointers lead to. -/
structure Table where
  mem : Mem
  pdn : PdnClassifier

/-! ## Pointer surgery -/

/-- Write `gsQa_lte[ct].tClassifierTable`. -/
def Table.setHead (t : Table) (head : Option Ptr) : Table :=
  { t with pdn := { t.pdn with classifierTable := head } }

/-- Take the entry `temp` out of the list.  The routines that do so differ in
whether the head case checks the successor for null before it is written. -/
def unlink (checked : Bool) (t : Table) (temp : Ptr) : Option Table := do
  let entry ← t.mem.heap temp
  if t.pdn.classifierTable = some temp then
    if checked = true ∧ entry.next = none then
      some (t.setHead none)
    else
      let mem ← t.mem.setPrev entry.next none
      some ({ t with mem := mem }.setHead entry.next)
  else if entry.next = none then
    let mem ← t.mem.setNext entry.prev none
    some { t with mem := mem }
  else
    let mem ← t.mem.setNext entry.prev entry.next
    let mem ← mem.setPrev entry.next entry.prev
    some { t with mem := mem }

/-- Put the entry `temp` between `q` and `p`, either of which may be null. -/
def linkBetween (t : Table) (temp : Ptr) (q p : Option Ptr) : Option Table := do
  let mem ← t.mem.setNext (some temp) p
  let mem ← mem.setPrev (some temp) q
  let mem ← mem.setNextUnlessNull q (some temp)
  let mem ← mem.setPrevUnlessNull p (some temp)
  let t := { t with mem := mem }
  some (if q = none then t.setHead (some temp) else t)

/-- The walk from the head while the precedence is larger than that of the entry. -/
def seekPlace (t : Table) (precedence : UInt8) : Option (Option Ptr × Option Ptr) :=
  Lib.seek t.mem.heap (fun f => decide (f.packetFilterPrecedence < precedence)) (t.mem.brk + 1)
    none t.pdn.classifierTable

/-! ## Adding filters -/

/-- The place of a new filter: at the head if its precedence is not larger than that
of the head, otherwise where the walk stops. -/
def addPlace (t : Table) (precedence : UInt8) : Option (Option Ptr × Option Ptr) :=
  match t.pdn.classifierTable with
  | none => some (none, none)
  | some p =>
    match t.mem.heap p with
    | none => none
    | some entry =>
      if precedence ≤ entry.data.packetFilterPrecedence then some (none, some p)
      else seekPlace t precedence

/-- The first null slot of a bearer. -/
def Tft.freeSlot (tft : Tft) : Option (Fin maxFiltersPerTft) :=
  (List.finRange maxFiltersPerTft).find? fun j => (tft.packetFilters j).isNone

/-- The body of the loop of `Qa_Add_SortTFT`.  An entry for which there is no slot
stays in the list. -/
def addFilter (t : Table) (b : Bearer) (filter : PacketFilter) : Option (Table × RetCode) := do
  let place ← addPlace t filter.packetFilterPrecedence
  match t.mem.kmalloc with
  | none => some (t, .fail)
  | some (temp, mem) =>
    let mem ← mem.setFilter (some temp) filter
    let t ← linkBetween { t with mem := mem } temp place.1 place.2
    match (t.pdn.tft b).freeSlot with
    | none => some (t, .fail)
    | some j =>
      some ({ t with pdn := t.pdn.setSlot b j (some temp) ((t.pdn.tft b).numFilters + 1) },
        .success)

/-- The loop of `Qa_Add_SortTFT` over the received filters. -/
def addFilters (b : Bearer) : Table → List PacketFilter → Option (Table × RetCode)
  | t, [] => some (t, .success)
  | t, filter :: rest => do
      let (t, ret) ← addFilter t b filter
      if ret = .fail then some (t, .fail) else addFilters b t rest

/-- `Qa_Delete_Default_Bearer_MatchAll_TFT`. -/
def deleteDefaultBearerMatchAllTft (t : Table) : Option (Table × RetCode) :=
  match t.pdn.slot .default 0 with
  | none => some (t, .fail)
  | some temp => do
      let t ← unlink true t temp
      let mem ← t.mem.kfree temp
      let pdn := t.pdn.setSlot .default 0 none 0
      some (⟨mem, { pdn with matchAll := false }⟩, .success)

/-- `Qa_Add_SortTFT`. -/
def addSortTft (t : Table) (b : Bearer) (filters : List PacketFilter) :
    Option (Table × RetCode) := do
  let t ←
    if b = .default ∧ t.pdn.matchAll = true then
      (deleteDefaultBearerMatchAllTft t).map Prod.fst
    else some t
  addFilters b t filters

/-! ## Replacing filters -/

/-- The search through the slots `js` of a bearer for a filter identifier. -/
def findSlotIn (mem : Mem) (tft : Tft) (identifier : UInt8) :
    List (Fin maxFiltersPerTft) → Option (Option (Fin maxFiltersPerTft))
  | [] => some none
  | j :: js =>
    match tft.packetFilters j with
    | none => findSlotIn mem tft identifier js
    | some x =>
      match mem.heap x with
      | none => none
      | some entry =>
        if entry.data.packetFilterIdentifier = identifier then some (some j)
        else findSlotIn mem tft identifier js

/-- The first slot of a bearer that holds a filter of the given identifier. -/
def findSlot (mem : Mem) (tft : Tft) (identifier : UInt8) :
    Option (Option (Fin maxFiltersPerTft)) :=
  findSlotIn mem tft identifier (List.finRange maxFiltersPerTft)

/-- Take one filter out of the list and overwrite it, in its slot, by the received one. -/
def overwriteFilter (t : Table) (temp : Ptr) (filter : PacketFilter) : Option Table := do
  let t ← unlink true t temp
  let mem ← t.mem.setNext (some temp) none
  let mem ← mem.setPrev (some temp) none
  let mem ← mem.setFilter (some temp) filter
  some { t with mem := mem }

/-- `Qa_Delete_Filter_Replace`: without `writeData` it only checks that every
filter is there. -/
def deleteFilterReplace (writeData : Bool) (b : Bearer) :
    Table → List PacketFilter → Option (Table × RetCode)
  | t, [] => some (t, .success)
  | t, filter :: rest => do
      match ← findSlot t.mem (t.pdn.tft b) filter.packetFilterIdentifier with
      | none => some (t, .fail)
      | some j =>
        match t.pdn.slot b j with
        | none => some (t, .fail)
        | some temp =>
          if writeData then
            let t ← overwriteFilter t temp filter
            deleteFilterReplace writeData b t rest
          else deleteFilterReplace writeData b t rest

/-- Whether `Qa_Replace_SortTFT` puts a filter in front of the head at once. -/
def beforeHead (t : Table) (precedence : UInt8) : Option Bool :=
  match t.pdn.classifierTable with
  | none => some false
  | some p =>
    match t.mem.heap p with
    | none => none
    | some entry => some (decide (precedence < entry.data.packetFilterPrecedence))

/-- The insertion of `Qa_Replace_SortTFT`.  A walk that stops at the head at once
leaves the entry out of the list. -/
def replaceInsert (t : Table) (temp : Ptr) (precedence : UInt8) : Option Table := do
  let before ← beforeHead t precedence
  if before = true then linkBetween t temp none t.pdn.classifierTable
  else
    let place ← seekPlace t precedence
    if place.1 = none ∧ place.2 ≠ none then some t else linkBetween t temp place.1 place.2

/-- `Qa_Replace_SortTFT`.  The entry found for one filter is still there for the
next one, whose own search may fail. -/
def replaceSortTft (b : Bearer) : Option Ptr → Table → List PacketFilter → Option (Table × RetCode)
  | _, t, [] => some (t, .success)
  | temp1, t, filter :: rest => do
      let found ← findSlot t.mem (t.pdn.tft b) filter.packetFilterIdentifier
      let temp1 :=
        match found with
        | none => temp1
        | some j => t.pdn.slot b j
      match temp1 with
      | none => replaceSortTft b none t rest
      | some temp =>
        let t ← replaceInsert t temp filter.packetFilterPrecedence
        replaceSortTft b (some temp) t rest

/-- The walk of `QA_PrintFilterList`, which ends only if the list does. -/
def printFilterList (t : Table) : Option Unit :=
  (Lib.seek t.mem.heap (fun _ => true) (t.mem.brk + 1) none t.pdn.classifierTable).map fun _ => ()

/-- `Qa_Replace_Filters`, with the walk at the end of `Qa_Replace_SortTFT`. -/
def replaceFilters (t : Table) (b : Bearer) (filters : List PacketFilter) :
    Option (Table × RetCode) := do
  let (_, ret) ← deleteFilterReplace false b t filters
  let t ←
    if ret = .success then (deleteFilterReplace true b t filters).map Prod.fst else some t
  let (t, ret) ← replaceSortTft b none t filters
  (printFilterList t).map fun _ => (t, ret)

/-! ## Deleting filters and bearers -/

/-- `Create_Match_All_Filter`. -/
def createMatchAllFilter (t : Table) (bearerId : UInt8) : Option Table := do
  let (temp, mem) ← t.mem.kmalloc
  let mem ← mem.setFilter (some temp) (.matchAll (t.mem.garbage temp) bearerId)
  let pdn := t.pdn.setSlot .default 0 (some temp) t.pdn.defaultBearer.numFilters
  let (last, _) ← Lib.seek mem.heap (fun _ => true) (mem.brk + 1) none pdn.classifierTable
  linkBetween ⟨mem, { pdn with matchAll := true }⟩ temp last none

/-- The slot whose filter `Qa_Delete_Filter` clears: it is looked up among the
dedicated bearers also when the filter belongs to the default bearer. -/
def clearedSlot (pdn : PdnClassifier) (b : Bearer) (j : Fin maxFiltersPerTft) : Option Ptr :=
  match b with
  | .default => pdn.slot (.dedicated 0) j
  | .dedicated k => pdn.slot (.dedicated k) j

/-- Take the filter of one slot out of the list and free it. -/
def deleteSlotFilter (t : Table) (b : Bearer) (j : Fin maxFiltersPerTft) (temp : Ptr) :
    Option Table := do
  let t ← unlink true t temp
  let mem ← t.mem.setFilter (clearedSlot t.pdn b j) .zero
  let mem ← mem.kfree temp
  let numFilters := (t.pdn.tft b).numFilters - 1
  let t : Table := ⟨mem, t.pdn.setSlot b j none numFilters⟩
  if b = .default ∧ numFilters = 0 then
    createMatchAllFilter t t.pdn.defaultBearer.epsBearerId
  else some t

/-- The loop of `Qa_Delete_Filter` over the slots `js`. -/
def deleteFilterIn (b : Bearer) (pfidList : List UInt8) :
    Table → List (Fin maxFiltersPerTft) → Option Table
  | t, [] => some t
  | t, j :: js =>
    match t.pdn.slot b j with
    | none => deleteFilterIn b pfidList t js
    | some temp => do
        let entry ← t.mem.heap temp
        if entry.data.packetFilterIdentifier ∈ pfidList then
          let t ← deleteSlotFilter t b j temp
          deleteFilterIn b pfidList t js
        else deleteFilterIn b pfidList t js

/-- `Qa_Delete_Filter`. -/
def deleteFilter (t : Table) (b : Bearer) (pfidList : List UInt8) : Option (Table × RetCode) :=
  (deleteFilterIn b pfidList t (List.finRange maxFiltersPerTft)).map fun t => (t, .success)

/-- Free every entry of the list. -/
def freeList : Nat → Mem → Option Ptr → Option Mem
  | _, mem, none => some mem
  | 0, _, some _ => none
  | fuel + 1, mem, some p => do
      let entry ← mem.heap p
      let mem ← mem.kfree p
      freeList fuel mem entry.next

/-- The default bearer case of `Qa_Bearer_Delete`. -/
def deleteDefaultBearer (t : Table) : Option Table := do
  let mem ← freeList (t.mem.brk + 1) t.mem t.pdn.classifierTable
  some ⟨mem,
    { t.pdn with
      defaultBearer := .zero
      dedicatedBearer := fun k =>
        if k.val < t.pdn.numDedicatedBearers then .zero else t.pdn.dedicatedBearer k
      numDedicatedBearers := 0
      classifierTable := none }⟩

/-- The loop of `Qa_Bearer_Delete` over the slots `js` of a dedicated bearer. -/
def deleteSlots (k : Fin maxDedicatedBearerPerPdn) :
    Table → List (Fin maxFiltersPerTft) → Option Table
  | t, [] => some t
  | t, j :: js =>
    match t.pdn.slot (.dedicated k) j with
    | none => deleteSlots k t js
    | some temp => do
        let t ← unlink false t temp
        let mem ← t.mem.kfree temp
        let numFilters := (t.pdn.tft (.dedicated k)).numFilters
        deleteSlots k ⟨mem, t.pdn.setSlot (.dedicated k) j none numFilters⟩ js

/-- The dedicated bearer case of `Qa_Bearer_Delete`.  The bearers behind the
deleted one do not move up. -/
def deleteDedicatedBearer (t : Table) (k : Fin maxDedicatedBearerPerPdn) : Option Table := do
  let t ← deleteSlots k t (List.finRange maxFiltersPerTft)
  let pdn := t.pdn.setTft (.dedicated k) .zero
  some ⟨t.mem, { pdn with numDedicatedBearers := pdn.numDedicatedBearers - 1 }⟩

/-- `Qa_Bearer_Delete`. -/
def bearerDelete (t : Table) (bearerId : UInt8) : Option (Table × RetCode) :=
  if t.pdn.defaultBearer.epsBearerId = bearerId ∨ bearerId = 0 then
    (deleteDefaultBearer t).map fun t => (t, .success)
  else
    match t.pdn.findDedicated bearerId with
    | none => some (t, .fail)
    | some k => (deleteDedicatedBearer t k).map fun t => (t, .success)

/-! ## Messages -/

/-- The bearer set-up that `QA_ProcessRegConf_Lte` and
`QA_Process_PdnConn_Cnf` share: one match-all filter in the first slot. -/
def registerDefaultBearer (t : Table) (bearerId : UInt8) : Option (Table × RetCode) := do
  let (temp, mem) ← t.mem.kmalloc
  let mem ← mem.setFilter (some temp) (.matchAll (t.mem.garbage temp) bearerId)
  let mem ← mem.setNext (some temp) none
  let mem ← mem.setPrev (some temp) none
  let pdn := t.pdn.setSlot .default 0 (some temp) 1
  some (⟨mem,
    { pdn with
      defaultBearer := { pdn.defaultBearer with epsBearerId := bearerId }
      numDedicatedBearers := 0
      matchAll := true
      classifierTable := some temp }⟩, .success)

/-- The filters or filter identifiers of a received TFT; their number is a field of
four bits. -/
abbrev Recvd (α : Type) := { l : List α // l.length < 16 }

/-- The TFT operation of a received message, after `u8TFTOpCode`; every opcode that
`QA_Process_Bearer_Mod` ignores is `noTftOperation`. -/
inductive TftOperation where
  | createNewTft (filters : Recvd PacketFilter)
  | deleteExistingTft
  | addPktFltrToExistingTft (filters : Recvd PacketFilter)
  | replacePktFltrToExistingTft (filters : Recvd PacketFilter)
  | deletePktFltrFromExistingTft (pfidList : Recvd UInt8)
  | noTftOperation
  deriving DecidableEq

/-- The messages that `QA_Process_Bearer_Mod` handles. -/
inductive BearerMsgId where
  | allocInd
  | allocCnf
  | modInd
  | modCnf
  deriving DecidableEq

/-- The NAS messages that change the classifier. -/
inductive NasMsg where
  | regConf (bearerId : UInt8)
  | pdnConnCnf (bearerId : UInt8)
  | bearerMod (msgId : BearerMsgId) (bearerId linkedBearerId : UInt8) (tft : TftOperation)
  | bearerRel (bearerId linkedBearerId : UInt8)
  | bearerRelCnf (bearerId : UInt8)
  | detachConf (bearerId : UInt8)
  deriving DecidableEq

/-- The classifier: `gsQa_lte` and the memory. -/
structure Qa where
  mem : Mem
  gsQaLte : Fin maxPdns → PdnClassifier

namespace Qa

/-- One PDN with the memory. -/
def table (s : Qa) (ct : Fin maxPdns) : Table :=
  ⟨s.mem, s.gsQaLte ct⟩

/-- Store the result of a function that works on one PDN. -/
def setTable (s : Qa) (ct : Fin maxPdns) (t : Table) : Qa :=
  ⟨t.mem, Function.update s.gsQaLte ct t.pdn⟩

/-- `find_classifier_table`. -/
def findClassifierTable (s : Qa) (bearerId : UInt8) : Option (Fin maxPdns) :=
  (List.finRange maxPdns).find? fun ct => (s.gsQaLte ct).defaultBearer.epsBearerId == bearerId

/-- Run a function on one PDN. -/
def on (s : Qa) (ct : Fin maxPdns) (result : Option (Table × RetCode)) : Option (Qa × RetCode) :=
  result.map fun r => (s.setTable ct r.1, r.2)

/-- Run a function on the PDN found for a default bearer; there is nothing to do if
none is found. -/
def onFound (s : Qa) (bearerId : UInt8) (f : Table → Option (Table × RetCode)) :
    Option (Qa × RetCode) :=
  match s.findClassifierTable bearerId with
  | none => some (s, .fail)
  | some ct => s.on ct (f (s.table ct))

end Qa

/-- The bearer that a message to an existing bearer works on. -/
def targetBearer (pdn : PdnClassifier) (bearerId linkedBearerId : UInt8) : Option Bearer :=
  if bearerId = linkedBearerId then some .default
  else (pdn.bearerIndex bearerId).map .dedicated

/-- The creation of a TFT: it is added to the default bearer, or to a new dedicated one. -/
def createTft (t : Table) (bearerId linkedBearerId : UInt8) (filters : List PacketFilter) :
    Option (Table × RetCode) :=
  if bearerId = linkedBearerId then addSortTft t .default filters
  else if h : t.pdn.numDedicatedBearers < maxDedicatedBearerPerPdn then
    let b := Bearer.dedicated ⟨t.pdn.numDedicatedBearers, h⟩
    let pdn := t.pdn.setTft b { t.pdn.tft b with epsBearerId := bearerId }
    addSortTft
      { t with pdn := { pdn with numDedicatedBearers := pdn.numDedicatedBearers + 1 } } b filters
  else none

/-- The switch over the opcode in `QA_Process_Bearer_Mod`. -/
def applyTft (t : Table) (bearerId linkedBearerId : UInt8) : TftOperation → Option (Table × RetCode)
  | .createNewTft filters => createTft t bearerId linkedBearerId filters.val
  | .deleteExistingTft => bearerDelete t bearerId
  | .addPktFltrToExistingTft filters => do
      let b ← targetBearer t.pdn bearerId linkedBearerId
      addSortTft t b filters.val
  | .replacePktFltrToExistingTft filters => do
      let b ← targetBearer t.pdn bearerId linkedBearerId
      replaceFilters t b filters.val
  | .deletePktFltrFromExistingTft pfidList => do
      let b ← targetBearer t.pdn bearerId linkedBearerId
      deleteFilter t b pfidList.val
  | .noTftOperation => some (t, .success)

namespace Qa

/-- `QA_ProcessRegConf_Lte`: always the first PDN. -/
def processRegConfLte (s : Qa) (bearerId : UInt8) : Option (Qa × RetCode) :=
  s.on 0 (registerDefaultBearer (s.table 0) bearerId)

/-- `QA_Process_PdnConn_Cnf`: the first PDN whose default bearer id is zero. -/
def processPdnConnCnf (s : Qa) (bearerId : UInt8) : Option (Qa × RetCode) :=
  s.onFound 0 fun t => registerDefaultBearer t bearerId

/-- `QA_Process_Bearer_Mod`.  Its own return code does not depend on the operation. -/
def processBearerMod (s : Qa) (msgId : BearerMsgId) (bearerId linkedBearerId : UInt8)
    (tft : TftOperation) : Option (Qa × RetCode) :=
  if bearerId = linkedBearerId ∧ (msgId = .allocInd ∨ msgId = .allocCnf) then
    s.processRegConfLte bearerId
  else
    s.onFound linkedBearerId fun t =>
      (applyTft t bearerId linkedBearerId tft).map fun r => (r.1, .success)

/-- `QA_Process_Bearer_Rel`. -/
def processBearerRel (s : Qa) (bearerId linkedBearerId : UInt8) : Option (Qa × RetCode) :=
  s.onFound linkedBearerId fun t => bearerDelete t bearerId

/-- The loop of `QA_Process_Bearer_Rel_Cnf` over the PDNs `cts`. -/
def releaseIn (bearerId : UInt8) : Qa → List (Fin maxPdns) → Option (Qa × RetCode)
  | s, [] => some (s, .fail)
  | s, ct :: cts =>
    if (s.gsQaLte ct).defaultBearer.epsBearerId ≠ 0 then do
      let (s, ret) ← s.on ct (bearerDelete (s.table ct) bearerId)
      if ret = .fail then releaseIn bearerId s cts else some (s, ret)
    else releaseIn bearerId s cts

/-- `QA_Process_Bearer_Rel_Cnf`. -/
def processBearerRelCnf (s : Qa) (bearerId : UInt8) : Option (Qa × RetCode) :=
  releaseIn bearerId s (List.finRange maxPdns)

/-- `QA_ProcessDetachConf_Lte`. -/
def processDetachConfLte (s : Qa) (bearerId : UInt8) : Option (Qa × RetCode) :=
  s.onFound bearerId fun t => bearerDelete t bearerId

/-- The dispatch of a NAS message. -/
def handle (s : Qa) : NasMsg → Option (Qa × RetCode)
  | .regConf bearerId => s.processRegConfLte bearerId
  | .pdnConnCnf bearerId => s.processPdnConnCnf bearerId
  | .bearerMod msgId bearerId linkedBearerId tft =>
    s.processBearerMod msgId bearerId linkedBearerId tft
  | .bearerRel bearerId linkedBearerId => s.processBearerRel bearerId linkedBearerId
  | .bearerRelCnf bearerId => s.processBearerRelCnf bearerId
  | .detachConf bearerId => s.processDetachConfLte bearerId

/-- The classifier before the registration, with a memory for `free` entries. -/
def boot (free : Nat) (garbage : Ptr → PacketFilter) : Qa where
  mem := ⟨fun _ => none, 0, free, garbage⟩
  gsQaLte := fun _ => .zero

end Qa

/-- The classifier as a transition system: it starts behind the registration, and its
steps are the messages that are processed. -/
def system : Lib.TransitionSystem Qa NasMsg where
  init s := ∃ free garbage bearerId ret,
    (Qa.boot free garbage).processRegConfLte bearerId = some (s, ret)
  step s msg s' := ∃ ret, s.handle msg = some (s', ret)

end LteModemKernel.Classifier
