import LteModemKernel.Ghif.FlowControl
import LteModemKernel.DataDriver.PtrFifo

/-!
# The uplink of the LTE data driver

The data driver keeps a FIFO of packets for each network interface.  `lte_dd_sdma_tx` picks
a FIFO, gives its first packets to the 4GHIF driver and leaves them in the FIFO until the
callback `lte_dd_4ghif_ul_complete_cb` removes them.

This module models the data driver on top of the 4GHIF driver and the BP.  A run of
`lte_dd_sdma_tx` holds its lock only for the test at its start, so it is a sequence of
events, and several runs can be on their way; the callbacks of the 4GHIF driver are called from
its tasklets and are one event each, up to the run of `lte_dd_sdma_tx` at their end.
-/

namespace LteModemKernel.DataDriver

open Lib Function
open Ghif (SdmaPacket Status Event)

/-! ## Packets and interfaces -/

/-- `struct sk_buff`, as far as the uplink reads it. -/
structure Skb where
  addr : Nat
  data : Nat
  len : Nat
  epsId : UInt8
  deriving DecidableEq, Repr

instance : Inhabited Skb := ⟨⟨0, 0, 0, 0⟩⟩

/-- An index of `ni_interfaces`, which has `NETDRV_MAX_NUM_DEVICES` entries. -/
abbrev Ni := Fin 8

scoped instance neZeroEight : NeZero 8 := ⟨by decide⟩

/-- The FIFO of an interface: `LTE_DD_TX_DATA_PACKET_FIFO_SIZE` packets and a free slot. -/
abbrev TxFifo := PtrFifo 65 Skb

/-- `lte_dd_net_info_t`. -/
structure NetInfo where
  /-- `pnet` is set. -/
  created : Bool
  hTxDataFifo : TxFifo
  /-- `LTE_NI_FLAG_TX_BUSY`. -/
  txBusy : Bool

/-- An entry that is not in use. -/
def NetInfo.free : NetInfo := ⟨false, PtrFifo.alloc 65 default, false⟩

/-- `lte_dd_sdma_xfer_t`. -/
structure Xfer where
  pni : Ni
  pskb : Skb
  deriving DecidableEq, Repr

/-- The packet for the 4GHIF driver. -/
def Xfer.sdma (x : Xfer) : SdmaPacket := ⟨.ulData, x.pskb.data, x.pskb.len, x.pskb.epsId⟩

/-- Where a run of `lte_dd_sdma_tx` is. -/
inductive TxRun where
  /-- The busy flags are set; the list of packets is being built. -/
  | build (pni : Ni) (numPacketsToTx : Nat)
  /-- The list is built. -/
  | submit (pni : Ni)
  /-- In `IPC_4GHIF_submit_ul`. -/
  | submitted (pni : Ni)
  /-- `IPC_4GHIF_submit_ul` has returned; before the `switch` over its status. -/
  | returned (pni : Ni) (status : Status) (numSdmaAccepted : Nat)
  deriving DecidableEq, Repr

/-- The call of `IPC_4GHIF_submit_ul` has returned. -/
def TxRun.settle (result : Option (Status × Nat)) : TxRun → TxRun
  | .submitted pni =>
    match result with
    | some (status, nb) => .returned pni status nb
    | none => .submitted pni
  | r => r

/-- Why a packet is released. -/
inductive Release where
  | completed | flushed | dropped
  deriving DecidableEq, Repr

/-- The state of the data driver, with the 4GHIF driver and the BP below it. -/
structure State where
  ipc : Ghif.State
  niInterfaces : Ni → NetInfo
  niInterfacesCnt : Nat
  /-- The static index of `lte_dd_ni_interface_fifo_lookup`, which is only used modulo the
  number of entries. -/
  runningIndex : Ni
  multiPacket : Bool
  txBusy : Bool
  txThrottle : Bool
  /-- The entries of `tx_sdma_xfer` that are filled in; `tx_sdma_packet` points to
  them. -/
  txSdmaXfer : List Xfer
  txSdmaXferCnt : Nat
  txSdmaPacketCnt : Nat
  /-- The calls of `lte_dd_sdma_tx` that are about to test the flags. -/
  scheduled : Nat
  /-- The runs of `lte_dd_sdma_tx` that have passed the test. -/
  runs : List TxRun
  /-- The packets enqueued so far. -/
  enqueued : Ni → List Skb
  /-- The packets released so far. -/
  released : Ni → List (Release × Skb)
  /-- The packets completed so far, of all interfaces. -/
  completed : List Xfer

/-- The driver after its initialisation: `lte0` is created. -/
def State.init : State where
  ipc := Ghif.State.init
  niInterfaces := update (fun _ => NetInfo.free) 0 { NetInfo.free with created := true }
  niInterfacesCnt := 1
  runningIndex := 0
  multiPacket := true
  txBusy := false
  txThrottle := false
  txSdmaXfer := []
  txSdmaXferCnt := 0
  txSdmaPacketCnt := 0
  scheduled := 0
  runs := []
  enqueued := fun _ => []
  released := fun _ => []
  completed := []

namespace State

/-! ## Helpers -/

/-- The FIFO of an interface. -/
def fifo (s : State) (pni : Ni) : TxFifo := (s.niInterfaces pni).hTxDataFifo

/-- The FIFO of an interface is changed. -/
def setFifo (s : State) (pni : Ni) (f : TxFifo) : State :=
  { s with niInterfaces := update s.niInterfaces pni { s.niInterfaces pni with hTxDataFifo := f } }

/-- The busy flags of the device and of an interface. -/
def setTxBusy (s : State) (pni : Ni) (b : Bool) : State :=
  { s with
    txBusy := b
    niInterfaces := update s.niInterfaces pni { s.niInterfaces pni with txBusy := b } }

/-- A packet is handed back. -/
def release (s : State) (pni : Ni) (why : Release) (pskb : Skb) : State :=
  { s with released := update s.released pni (s.released pni ++ [(why, pskb)]) }

/-- `lte_dd_zero_tx_arrays`. -/
def zeroTxArrays (s : State) : State :=
  { s with txSdmaXfer := [], txSdmaXferCnt := 0, txSdmaPacketCnt := 0 }

/-- At most so many packets are removed from the FIFO and handed back. -/
def removePackets (pni : Ni) (why : Release) : Nat → State → State
  | 0, s => s
  | k + 1, s =>
    match (s.fifo pni).remove with
    | none => s
    | some (pskb, f) => removePackets pni why k ((s.setFifo pni f).release pni why pskb)

/-! ## The submit routine -/

/-- The round robin search of `lte_dd_ni_interface_fifo_lookup`, with the running index. -/
def lookupLoop (s : State) : Nat → Ni → Ni × Option (Ni × Nat)
  | 0, index => (index, none)
  | k + 1, index =>
    if (s.niInterfaces index).created ∧ 0 < (s.fifo index).numElements then
      (index + 1, some (index, if s.multiPacket then (s.fifo index).numElements else 1))
    else lookupLoop s k (index + 1)

/-- `lte_dd_ni_interface_fifo_lookup`: the running index, and the interface with the number
of packets. -/
def niInterfaceFifoLookup (s : State) : Ni × Option (Ni × Nat) :=
  if s.niInterfacesCnt = 1 then
    if 0 < (s.fifo 0).numElements then
      (s.runningIndex, some (0, if s.multiPacket then (s.fifo 0).numElements else 1))
    else (s.runningIndex, none)
  else s.lookupLoop 8 s.runningIndex

/-- The start of `lte_dd_sdma_tx`, up to the release of the lock. -/
def sdmaTx (s : State) : State :=
  if s.txBusy || s.txThrottle then s
  else
    match s.niInterfaceFifoLookup with
    | (index, none) => { s with runningIndex := index }
    | (index, some (pni, num)) =>
      { ({ s with runningIndex := index } : State).setTxBusy pni true with
        txSdmaXfer := []
        txSdmaXferCnt := 0
        runs := s.runs ++ [.build pni (min num Ghif.maxNbFrames)] }

/-- A packet is added to `tx_sdma_xfer`. -/
def addXfer (s : State) (x : Xfer) : State :=
  { s with txSdmaXfer := s.txSdmaXfer ++ [x], txSdmaXferCnt := s.txSdmaXferCnt + 1 }

/-- One round of the loop that builds the list, or its end.  A failed peek is only checked for
at the first packet; later the pointer of the packet before is used again. -/
def buildStep (s : State) (i : Nat) (pni : Ni) (num : Nat) : State :=
  if s.txSdmaXfer.length < num then
    match (s.fifo pni).peekOffset s.txSdmaXfer.length with
    | some pskb => s.addXfer ⟨pni, pskb⟩
    | none =>
      match s.txSdmaXfer.getLast? with
      | some last => s.addXfer ⟨pni, last.pskb⟩
      | none => { s.setTxBusy pni false with runs := s.runs.eraseIdx i }
  else { s with txSdmaPacketCnt := s.txSdmaXferCnt, runs := s.runs.set i (.submit pni) }

/-- The list that is given to the 4GHIF driver. -/
def txSdmaPacket (s : State) : List SdmaPacket :=
  (s.txSdmaXfer.take s.txSdmaPacketCnt).map Xfer.sdma

/-- The run in `IPC_4GHIF_submit_ul` goes on when the call has returned. -/
def settle (s : State) : State :=
  if s.ipc.ul.call = .idle then { s with runs := s.runs.map (TxRun.settle s.ipc.ul.result) } else s

/-- The `switch` over the status of `IPC_4GHIF_submit_ul`. -/
def handleStatus (s : State) (pni : Ni) (status : Status) (nb : Nat) : State :=
  match status with
  | .ok | .busy => s
  | .resourcesFull =>
    let s := if nb < s.txSdmaPacketCnt then { s with txSdmaPacketCnt := nb, txSdmaXferCnt := nb }
      else s
    let s := { s with txThrottle := true }
    if nb = 0 then s.setTxBusy pni false else s
  | _ =>
    ((removePackets pni .dropped s.txSdmaXferCnt s).zeroTxArrays).setTxBusy pni false

/-- A run of `lte_dd_sdma_tx` goes on. -/
def txStep (s : State) (i : Nat) : TxRun → Option State
  | .build pni num => some (s.buildStep i pni num)
  | .submit pni => (s.ipc.act (.submitUl s.txSdmaPacket)).map fun ipc =>
    { s with ipc := ipc, runs := s.runs.set i (.submitted pni) }.settle
  | .submitted _ => none
  | .returned pni status nb =>
    some { s.handleStatus pni status nb with runs := s.runs.eraseIdx i }

/-! ## Callbacks -/

/-- One round of the loop of `lte_dd_4ghif_ul_complete_cb`. -/
def completeXfer (s : State) (x : Xfer) : State :=
  let s :=
    match (s.fifo x.pni).peekOffset 0, (s.fifo x.pni).remove with
    | some pskb, some (_, f) => if x.pskb.addr = pskb.addr then s.setFifo x.pni f else s
    | _, _ => s
  { s.release x.pni .completed x.pskb with completed := s.completed ++ [x] }

/-- `lte_dd_4ghif_ul_complete_cb`. -/
def ulCompleteCb (s : State) : State :=
  if !s.txBusy then s
  else
    let xfers := s.txSdmaXfer.take s.txSdmaPacketCnt
    let s := (xfers.foldl completeXfer s).zeroTxArrays
    let s :=
      match xfers.getLast? with
      | some x => s.setTxBusy x.pni false
      | none => { s with txBusy := false }
    { s with scheduled := s.scheduled + 1 }

/-- `lte_dd_4ghif_ul_resume_cb`. -/
def ulResumeCb (s : State) : State :=
  { s with txThrottle := false, scheduled := s.scheduled + 1 }

/-! ## The interface to the network driver -/

/-- `lte_dd_tx_data_start`. -/
def txDataStart (s : State) (pni : Ni) (pskb : Skb) : State :=
  if !(s.niInterfaces pni).created then s
  else
    match (s.fifo pni).insert pskb with
    | none => s
    | some f => { s.setFifo pni f with
        enqueued := update s.enqueued pni (s.enqueued pni ++ [pskb])
        scheduled := s.scheduled + 1 }

/-- `lte_dd_flush_tx_data_fifo`: the loop ends at the latest when all slots are read. -/
def flushTxDataFifo (s : State) (pni : Ni) : State :=
  removePackets pni .flushed 65 s

/-- The command `NETDRV_BUS_CONTROL_FLUSH` of `lte_dd_bus_control`. -/
def busControlFlush (s : State) (pni : Ni) : State :=
  if (s.niInterfaces pni).created then s.flushTxDataFifo pni else s

/-- The command `NETDRV_BUS_CONTROL_TX_DRAIN` of `lte_dd_bus_control`. -/
def busControlTxDrain (s : State) (pni : Ni) : State :=
  if (s.niInterfaces pni).created then { s with scheduled := s.scheduled + 1 } else s

/-- `lte_dd_ni_interface_alloc`. -/
def niInterfaceAlloc (s : State) : Option Ni :=
  (List.finRange 8).find? fun pni => !(s.niInterfaces pni).created

/-- `lte_dd_create_net_iface`, for a new name. -/
def createNetIface (s : State) : State :=
  match s.niInterfaceAlloc with
  | none => s
  | some pni => { s with
      niInterfaces := update s.niInterfaces pni { NetInfo.free with created := true }
      niInterfacesCnt := s.niInterfacesCnt + 1 }

/-- The command `lte_dd_cmd_net_delete` with `lte_dd_delete_net_iface`: `lte0` and
an interface that is busy are not deleted. -/
def deleteNetIface (s : State) (pni : Ni) : State :=
  if pni = 0 then s
  else if !(s.niInterfaces pni).created then s
  else if (s.niInterfaces pni).txBusy then s
  else
    let s := s.flushTxDataFifo pni
    { s with
      niInterfaces := update s.niInterfaces pni NetInfo.free
      niInterfacesCnt := s.niInterfacesCnt - 1 }

end State

/-! ## The system -/

/-- A step of the data driver or of what is below it. -/
inductive Label where
  /-- The network driver hands over a packet. -/
  | enqueue (pni : Ni) (pskb : Skb)
  | flush (pni : Ni)
  | drain (pni : Ni)
  | create
  | delete (pni : Ni)
  /-- The command that sets `LTE_DD_FLAG_MULTI_PACKET`. -/
  | multiPacket (b : Bool)
  /-- A call of `lte_dd_sdma_tx` starts. -/
  | sdmaTx
  /-- A run of `lte_dd_sdma_tx` goes on. -/
  | run (i : Nat)
  /-- `ul_complete_tasklet` with its callback. -/
  | ulComplete
  /-- `ul_resume_tasklet` with its callback. -/
  | ulResume
  /-- Another step of the 4GHIF driver or of the BP. -/
  | ipc (e : Event)
  deriving DecidableEq

/-- The events of the 4GHIF driver that are not events of the data driver.  It closes the 4GHIF
driver only when it is unloaded. -/
def ipcInternal : Event → Bool
  | .submitUl _ | .ulComplete | .ulResume | .closeIpc => false
  | _ => true

namespace State

/-- The effect of a step; no result where it cannot happen. -/
def exec (s : State) : Label → Option State
  | .enqueue pni pskb => some (s.txDataStart pni pskb)
  | .flush pni => some (s.busControlFlush pni)
  | .drain pni => some (s.busControlTxDrain pni)
  | .create => some s.createNetIface
  | .delete pni => some (s.deleteNetIface pni)
  | .multiPacket b => some { s with multiPacket := b }
  | .sdmaTx =>
    if s.scheduled = 0 then none
    else some { s with scheduled := s.scheduled - 1 }.sdmaTx
  | .run i =>
    match s.runs[i]? with
    | none => none
    | some r => s.txStep i r
  | .ulComplete => (s.ipc.act .ulComplete).map fun ipc => { s with ipc := ipc }.ulCompleteCb
  | .ulResume => (s.ipc.act .ulResume).map fun ipc => { s with ipc := ipc }.ulResumeCb
  | .ipc e =>
    if ipcInternal e then (s.ipc.act e).map fun ipc => { s with ipc := ipc }.settle else none

end State

/-- The data driver over the 4GHIF driver and the BP, from its initialisation on. -/
def system : TransitionSystem State Label where
  init s := s = State.init
  step s l s' := s.exec l = some s'

end LteModemKernel.DataDriver
