import LteModemKernel.Ghif.Model

/-!
# The socket buffers of the downlink

`lte_dd_sdma_rx` allocates a socket buffer for every frame that the 4GHIF driver announces,
keeps them in `rx_sdma_xfer` and gives the 4GHIF driver an array of pointers into it.  The
buffers that are not accepted are freed at once; the others wait for
`lte_dd_4ghif_dl_complete_cb`, which hands them to the network driver or frees them.

A call of `lte_dd_sdma_rx` is two steps, up to the return of `IPC_4GHIF_submit_dl` and
from there on, so that the callback may come between them.  The buffers are named in the order
of their allocation.  The model records which of them were handed over or freed, and every use of
one that had been.

Main results:

- Theorem `short_transfer_frees_previous`: the callback answers a frame that was not
  transferred by freeing the buffer of the frame before it, which the network driver has.
- Theorem `dl_buffers_accounted`: where every frame is transferred, each buffer is held by
  the driver or was handed over or freed once, and none is used after that.
-/

namespace LteModemKernel.DataDriver
namespace Receive

open Lib Function List Nat
open Ghif (PktType maxNbFrames)

/-! ## The device -/

/-- `packet_info`. -/
structure PacketInfo where
  packetType : PktType
  bufSize : Nat
  deriving DecidableEq, Repr

/-- `lte_dd_sdma_xfer_t`, with the fields of its `sdma`.  Pointers to entries of
`rx_sdma_xfer` are indexes. -/
structure SdmaXfer where
  pskb : Option Nat
  packetType : PktType
  bufSize : Nat
  transferredStatus : Bool
  puser : Option Nat
  deriving DecidableEq, Repr

/-- An entry of zeros. -/
def SdmaXfer.zero : SdmaXfer := ⟨none, .none, 0, false, none⟩

/-- `lte_dd_dev_t`, as far as the downlink uses it. -/
structure Dev where
  /-- `LTE_DD_FLAG_RX_BUSY`. -/
  rxBusy : Bool
  rxSdmaXfer : Nat → SdmaXfer
  rxSdmaXferCnt : Nat
  rxSdmaPacket : Nat → Option Nat
  rxSdmaPacketCnt : Nat
  /-- The calls of `lte_dd_sdma_rx` that are back from `IPC_4GHIF_submit_dl`, with the
  number of accepted packets, or none for an error. -/
  returned : List (Option Nat)
  /-- The buffers of the transfer of the 4GHIF driver. -/
  transfer : Option (List Nat)
  allocated : Nat
  /-- `len` of the socket buffers. -/
  len : Nat → Nat
  /-- The buffers handed to `rx_complete` or freed. -/
  disposed : List Nat
  /-- The buffers used after that. -/
  stray : List Nat

open Dev

namespace Dev

/-- A use of buffers. -/
def touch (d : Dev) (skbs : List Nat) : Dev :=
  { d with stray := d.stray ++ skbs.filter (· ∈ d.disposed) }

/-- `dev_kfree_skb_any` or `rx_complete`: the buffer is no longer the driver's. -/
def dispose (d : Dev) (skb : Nat) : Dev :=
  { d.touch [skb] with disposed := d.disposed ++ [skb] }

def setXfer (d : Dev) (i : Nat) (x : SdmaXfer) : Dev :=
  { d with rxSdmaXfer := update d.rxSdmaXfer i x }

/-- `lte_dd_zero_rx_arrays`. -/
def lteDdZeroRxArrays (d : Dev) : Dev :=
  { d with
    rxSdmaXferCnt := 0
    rxSdmaXfer := fun _ => .zero
    rxSdmaPacketCnt := 0
    rxSdmaPacket := fun _ => none }

/-- `lte_dd_free_sdma_xfer`; the pointer may be `NULL`. -/
def lteDdFreeSdmaXfer (d : Dev) : Option Nat → Dev
  | none => d
  | some i =>
    match (d.rxSdmaXfer i).pskb with
    | none => d.setXfer i .zero
    | some skb => (d.dispose skb).setXfer i .zero

/-- The loop of `lte_dd_alloc_sdma_xfer_list`; each frame comes with the length of the
buffer that `rx_start` returns for it, or none.  The flag is set without an error. -/
def allocXfers (d : Dev) (i : Nat) : List (PacketInfo × Option Nat) → Dev × Bool
  | [] => (d, true)
  | (_, none) :: _ => (d, d.rxSdmaXferCnt != 0)
  | (ppi, some len) :: rest =>
    allocXfers
      { d.setXfer i ⟨some d.allocated, ppi.packetType, ppi.bufSize, false, some i⟩ with
        rxSdmaXferCnt := d.rxSdmaXferCnt + 1
        allocated := d.allocated + 1
        len := update d.len d.allocated len }
      (i + 1) rest

/-- `lte_dd_alloc_sdma_xfer_list`. -/
def lteDdAllocSdmaXferList (d : Dev) (pi : List (PacketInfo × Option Nat)) : Dev × Bool :=
  if pi.length < 1 ∨ maxNbFrames < pi.length then (d, false)
  else { d with rxSdmaXferCnt := 0 }.allocXfers 0 pi

/-- `IPC_4GHIF_submit_dl`: an error during a transfer; else an error, or a transfer into the
first buffers. -/
def submitDl (d : Dev) (accepted : Option Nat) : Dev :=
  match d.transfer, accepted with
  | none, some nb =>
    { d with
      returned := d.returned ++ [some nb]
      transfer := some ((range (min nb d.rxSdmaPacketCnt)).filterMap fun i =>
        (d.rxSdmaPacket i).bind fun x => (d.rxSdmaXfer x).pskb) }
  | _, _ => { d with returned := d.returned ++ [none] }

/-- `lte_dd_sdma_rx` up to the return of `IPC_4GHIF_submit_dl`. -/
def lteDdSdmaRx (d : Dev) (pi : List (PacketInfo × Option Nat)) (accepted : Option Nat) : Dev :=
  if d.rxBusy ∨ pi.length = 0 then d
  else
    match { d with rxBusy := true }.lteDdAllocSdmaXferList pi with
    | (d, false) => { d with rxBusy := false }
    | (d, true) =>
      { d with
        rxSdmaPacketCnt := d.rxSdmaXferCnt
        rxSdmaPacket := fun i => if i < d.rxSdmaXferCnt then some i else none }.submitDl accepted

/-- The loop that frees the entries from an index to the last one. -/
def freeXfers (d : Dev) (i : Nat) : Dev :=
  (range' i (d.rxSdmaXferCnt - i)).foldl (fun d i => d.lteDdFreeSdmaXfer (some i)) d

/-- `lte_dd_sdma_rx` from the `switch` over the status on. -/
def sdmaRxReturn (d : Dev) : Option Nat → Dev
  | some numSdmaAccepted =>
    if numSdmaAccepted < d.rxSdmaPacketCnt then
      { d.freeXfers numSdmaAccepted with
        rxSdmaPacket := fun i =>
          if numSdmaAccepted ≤ i ∧ i < d.rxSdmaXferCnt then none else d.rxSdmaPacket i
        rxSdmaPacketCnt := numSdmaAccepted
        rxSdmaXferCnt := numSdmaAccepted
        rxBusy := d.rxBusy && numSdmaAccepted != 0 }
    else d
  | none => { (d.freeXfers 0).lteDdZeroRxArrays with rxBusy := false }

/-- The loop of `lte_dd_4ghif_dl_complete_cb` over indexes of `packet`.  The pointer
`psdma_xfer` keeps its value from one turn to the next. -/
def dlCompleteLoop (d : Dev) (psdmaXfer : Option Nat) : List Nat → Dev
  | [] => d
  | i :: rest =>
    match d.rxSdmaPacket i with
    | none => d.dlCompleteLoop psdmaXfer rest
    | some packet =>
      let p := d.rxSdmaXfer packet
      if p.transferredStatus = false then
        (d.lteDdFreeSdmaXfer psdmaXfer).dlCompleteLoop psdmaXfer rest
      else
        match p.puser.bind fun x => (d.rxSdmaXfer x).pskb with
        | none => d.dlCompleteLoop p.puser rest
        | some skb =>
          if p.bufSize ≠ d.len skb then
            ((d.touch [skb]).lteDdFreeSdmaXfer p.puser).dlCompleteLoop p.puser rest
          else if p.packetType = .dlData ∨ p.packetType = .dlMon then
            (d.dispose skb).dlCompleteLoop p.puser rest
          else ((d.touch [skb]).lteDdFreeSdmaXfer p.puser).dlCompleteLoop p.puser rest

/-- `lte_dd_4ghif_dl_complete_cb`. -/
def lteDd4ghifDlCompleteCb (d : Dev) : Dev :=
  if d.rxBusy = false then d
  else
    { (d.dlCompleteLoop none (range' 0 d.rxSdmaPacketCnt)).lteDdZeroRxArrays with
      rxBusy := false }

end Dev

/-! ## Runs -/

/-- What the 4GHIF driver stores in the packet of a frame. -/
structure Report where
  transferredStatus : Bool
  packetType : PktType
  bufSize : Nat
  deriving DecidableEq, Repr

/-- The fields of the packets at the end of a transfer. -/
def Dev.store (d : Dev) (reports : List Report) : Dev :=
  { d with rxSdmaXfer := fun i =>
      match reports[i]? with
      | none => d.rxSdmaXfer i
      | some r =>
        { d.rxSdmaXfer i with
          transferredStatus := r.transferredStatus
          packetType := r.packetType
          bufSize := r.bufSize } }

/-- The steps of the downlink. -/
inductive Label where
  /-- `lte_dd_sdma_rx`, called by the receive callback or by the watchdog. -/
  | sdmaRx (pi : List (PacketInfo × Option Nat)) (accepted : Option Nat)
  /-- The rest of the `i`-th unfinished call. -/
  | sdmaRxReturn (i : Nat)
  /-- The transfer ends and the 4GHIF driver calls back. -/
  | dlComplete (reports : List Report)

def Dev.exec (d : Dev) : Label → Option Dev
  | .sdmaRx pi accepted => some (d.lteDdSdmaRx pi accepted)
  | .sdmaRxReturn i =>
    (d.returned[i]?).map fun r => { d with returned := d.returned.eraseIdx i }.sdmaRxReturn r
  | .dlComplete reports =>
    match d.transfer with
    | none => none
    | some skbs =>
      if reports.length = skbs.length then
        some ({ (d.touch skbs).store reports with transfer := none }.lteDd4ghifDlCompleteCb)
      else none

/-- The device after `lte_dd_init`, where no buffer has been allocated. -/
def Dev.start : Dev where
  rxBusy := false
  rxSdmaXfer := fun _ => .zero
  rxSdmaXferCnt := 0
  rxSdmaPacket := fun _ => none
  rxSdmaPacketCnt := 0
  returned := []
  transfer := none
  allocated := 0
  len := fun _ => 0
  disposed := []
  stray := []

def system : TransitionSystem Dev Label where
  init d := d = .start
  step d a d' := d.exec a = some d'

/-- The buffers that `rx_sdma_xfer` holds. -/
def Dev.held (d : Dev) : List Nat :=
  (range d.rxSdmaXferCnt).filterMap fun i => (d.rxSdmaXfer i).pskb

/-- Two frames are announced and get a buffer each; the transfer of the second one fails.  The
callback frees the first buffer, which it has handed to the network driver before, and the second
one is neither freed nor held. -/
theorem short_transfer_frees_previous :
    ∃ d, system.Reachable d ∧ d.rxBusy = false ∧ d.returned = [] ∧ d.transfer = none ∧
      d.allocated = 2 ∧ d.disposed = [0, 0] ∧ d.stray = [0] ∧ d.held = [] := by
  have hstart : system.Reachable .start := .start rfl
  exact hstart.exists_observed
    [.sdmaRx [(⟨.dlData, 100⟩, some 100), (⟨.dlData, 60⟩, some 60)] (some 2), .sdmaRxReturn 0,
      .dlComplete [⟨true, .dlData, 100⟩, ⟨false, .dlData, 60⟩]] (by decide +kernel)

/-! ## The loops -/

namespace Dev

variable {d : Dev} {skbs : List Nat} {k : Nat}

theorem touch_eq (h : ∀ skb ∈ skbs, skb ∉ d.disposed) : d.touch skbs = d := by
  have hnone : skbs.filter (· ∈ d.disposed) = [] := by
    rw [filter_eq_nil_iff]
    intro skb hskb hmem
    exact h skb hskb (of_decide_eq_true hmem)
  rw [touch, hnone, append_nil]

theorem dispose_eq {skb : Nat} (h : skb ∉ d.disposed) :
    d.dispose skb = { d with disposed := d.disposed ++ [skb] } := by
  rw [dispose, touch_eq]
  intro x hx
  rwa [mem_singleton.mp hx]

/-- The loop stores the next buffers in the entries from its index on; it ends with an error
only before the first one. -/
theorem allocXfers_spec (pi : List (PacketInfo × Option Nat)) (hcnt : d.rxSdmaXferCnt = k) :
    ∃ n xfer len ok,
      d.allocXfers k pi = ({ d with
        rxSdmaXfer := xfer, rxSdmaXferCnt := k + n, allocated := d.allocated + n, len }, ok) ∧
      (ok = false → k + n = 0) ∧ (∀ j < k, xfer j = d.rxSdmaXfer j) ∧
      ∀ j < n, (xfer (k + j)).pskb = some (d.allocated + j) ∧
        (xfer (k + j)).puser = some (k + j) := by
  induction pi generalizing d k with
  | nil =>
    subst hcnt
    exact ⟨0, _, _, true, rfl, nofun, fun _ _ => rfl, fun _ h => by omega⟩
  | cons p rest ih =>
    obtain ⟨ppi, _ | len⟩ := p
    · subst hcnt
      refine ⟨0, _, _, _, rfl, fun h => ?_, fun _ _ => rfl, fun _ h => by omega⟩
      simpa using h
    · obtain ⟨n, xfer, len', ok, heq, hok, hlow, hnew⟩ := ih (k := k + 1)
        (d := { d.setXfer k ⟨some d.allocated, ppi.packetType, ppi.bufSize, false, some k⟩ with
          rxSdmaXferCnt := d.rxSdmaXferCnt + 1
          allocated := d.allocated + 1
          len := update d.len d.allocated len }) (congrArg (· + 1) hcnt)
      have hlow' : ∀ j < k + 1, xfer j = update d.rxSdmaXfer k
        ⟨some d.allocated, ppi.packetType, ppi.bufSize, false, some k⟩ j := hlow
      refine ⟨n + 1, xfer, len', ok, ?_, fun h => ?_, fun j hj => ?_, fun j hj => ?_⟩
      · rw [allocXfers, heq]
        simp only [setXfer, Prod.mk.injEq, and_true, mk.injEq, true_and]
        exact ⟨by omega, by omega⟩
      · have := hok h
        omega
      · rw [hlow' j (by omega), update_of_ne (by omega)]
      · cases j with
        | zero =>
          rw [add_zero, hlow' k (by omega), update_self]
          exact ⟨rfl, rfl⟩
        | succ j =>
          have h := hnew j (by omega)
          rw [show k + 1 + j = k + (j + 1) by omega] at h
          exact ⟨h.1.trans (congrArg some (show d.allocated + 1 + j = _ by omega)), h.2⟩

/-- Freeing an entry that holds a buffer the driver still has. -/
theorem lteDdFreeSdmaXfer_eq {skb : Nat} (hskb : (d.rxSdmaXfer k).pskb = some skb)
    (hfresh : skb ∉ d.disposed) :
    d.lteDdFreeSdmaXfer (some k) = { d with
      rxSdmaXfer := update d.rxSdmaXfer k .zero, disposed := d.disposed ++ [skb] } := by
  rw [lteDdFreeSdmaXfer, hskb]
  change (d.dispose skb).setXfer k .zero = _
  rw [dispose_eq hfresh]
  rfl

/-- The loop disposes of the buffers of the entries it frees, once each. -/
theorem foldl_free (hskbs : ∀ j (h : j < skbs.length), (d.rxSdmaXfer (k + j)).pskb = some skbs[j])
    (hnodup : (d.disposed ++ skbs).Nodup) :
    ∃ xfer, (range' k skbs.length).foldl (fun d i => d.lteDdFreeSdmaXfer (some i)) d =
        { d with rxSdmaXfer := xfer, disposed := d.disposed ++ skbs } ∧
      ∀ j < k, xfer j = d.rxSdmaXfer j := by
  induction skbs generalizing d k with
  | nil => exact ⟨d.rxSdmaXfer, by simp, fun _ _ => rfl⟩
  | cons skb rest ih =>
    rw [append_cons] at hnodup
    have hskb : (d.rxSdmaXfer k).pskb = some skb := hskbs 0 (by simp)
    have hfree := lteDdFreeSdmaXfer_eq hskb
      (fun h => (nodup_append.mp (nodup_append.mp hnodup).1).2.2 skb h skb (by simp) rfl)
    obtain ⟨xfer, heq, hlow⟩ := ih (k := k + 1) (d := { d with
        rxSdmaXfer := update d.rxSdmaXfer k .zero, disposed := d.disposed ++ [skb] })
      (fun j hj => by
        have h := hskbs (j + 1) (by simpa using hj)
        rw [show k + (j + 1) = k + 1 + j by omega] at h
        change (update d.rxSdmaXfer k .zero (k + 1 + j)).pskb = _
        rwa [update_of_ne (by omega)])
      hnodup
    refine ⟨xfer, ?_, fun j hj => ?_⟩
    · rw [length_cons, range'_succ, foldl_cons, hfree, heq, ← append_cons]
    · refine (hlow j (by omega)).trans ?_
      exact update_of_ne (by omega) ..

theorem dlCompleteLoop_spec (psdmaXfer : Option Nat)
    (hskbs : ∀ j (h : j < skbs.length), (d.rxSdmaXfer (k + j)).pskb = some skbs[j])
    (hpackets : ∀ j < skbs.length, d.rxSdmaPacket (k + j) = some (k + j) ∧
      (d.rxSdmaXfer (k + j)).puser = some (k + j) ∧
      (d.rxSdmaXfer (k + j)).transferredStatus = true) (hnodup : (d.disposed ++ skbs).Nodup) :
    ∃ xfer, d.dlCompleteLoop psdmaXfer (range' k skbs.length) =
      { d with rxSdmaXfer := xfer, disposed := d.disposed ++ skbs } := by
  induction skbs generalizing d k psdmaXfer with
  | nil => exact ⟨d.rxSdmaXfer, by simp [dlCompleteLoop]⟩
  | cons skb rest ih =>
    rw [append_cons] at hnodup
    have hfresh : skb ∉ d.disposed := fun h =>
      (nodup_append.mp (nodup_append.mp hnodup).1).2.2 skb h skb (by simp) rfl
    obtain ⟨hpacket, hpuser, hstatus⟩ := hpackets 0 (by simp)
    have hskb : (d.rxSdmaXfer k).pskb = some skb := hskbs 0 (by simp)
    rw [add_zero] at hpacket hpuser hstatus
    -- whichever branch is taken, the other entries and the pointers stay
    have hnext : ∀ xfer : Nat → SdmaXfer, (∀ j, j ≠ k → xfer j = d.rxSdmaXfer j) →
        ∃ xfer', { d with rxSdmaXfer := xfer, disposed := d.disposed ++ [skb] }.dlCompleteLoop
          (some k) (.range' (k + 1) rest.length) =
        { d with rxSdmaXfer := xfer', disposed := d.disposed ++ skb :: rest } := by
      intro xfer hother
      have hsame : ∀ j, xfer (k + 1 + j) = d.rxSdmaXfer (k + (j + 1)) := fun j => by
        rw [hother _ (by omega), show k + 1 + j = k + (j + 1) by omega]
      obtain ⟨xfer', heq⟩ := ih (k := k + 1) (some k)
        (d := { d with rxSdmaXfer := xfer, disposed := d.disposed ++ [skb] })
        (fun j hj => by
          change (xfer (k + 1 + j)).pskb = _
          rw [hsame]
          exact hskbs (j + 1) (by simpa using hj))
        (fun j hj => by
          have h := hpackets (j + 1) (by simpa using hj)
          change d.rxSdmaPacket (k + 1 + j) = _ ∧ (xfer (k + 1 + j)).puser = _ ∧
            (xfer (k + 1 + j)).transferredStatus = _
          rw [hsame, show k + 1 + j = k + (j + 1) by omega]
          exact h)
        hnodup
      exact ⟨xfer', by rw [heq, ← append_cons]⟩
    have hfree : (d.touch [skb]).lteDdFreeSdmaXfer (some k) = { d with
        rxSdmaXfer := update d.rxSdmaXfer k .zero, disposed := d.disposed ++ [skb] } := by
      rw [touch_eq (by simpa using hfresh)]
      exact lteDdFreeSdmaXfer_eq hskb hfresh
    rw [length_cons, range'_succ, dlCompleteLoop]
    simp only [hpacket, hstatus, hpuser, Option.bind_some, hskb, hfree, dispose_eq hfresh,
      Bool.true_eq_false, if_false]
    have hzero := hnext (update d.rxSdmaXfer k .zero)
      fun j hj => update_of_ne hj ..
    split_ifs
    · exact hzero
    · exact hnext d.rxSdmaXfer fun _ _ => rfl
    · exact hzero

end Dev

/-! ## Whole runs -/

variable {d : Dev} {skbs : List Nat}

/-- The driver holds the buffers in the first entries of its arrays. -/
structure Batch (d : Dev) (skbs : List Nat) : Prop where
  xferCnt : d.rxSdmaXferCnt = skbs.length
  packetCnt : d.rxSdmaPacketCnt = skbs.length
  pskb : ∀ j (h : j < skbs.length), (d.rxSdmaXfer j).pskb = some skbs[j]
  pointers : ∀ j < skbs.length, d.rxSdmaPacket j = some j ∧ (d.rxSdmaXfer j).puser = some j

theorem Batch.nil (hx : d.rxSdmaXferCnt = 0) (hp : d.rxSdmaPacketCnt = 0) : Batch d [] :=
  ⟨hx, hp, (fun _ h => nomatch h), (fun _ h => nomatch h)⟩

/-- The fields of the 4GHIF driver do not matter. -/
theorem Batch.with (h : Batch d skbs) (returned : List (Option Nat))
    (transfer : Option (List Nat)) :
    Batch { d with returned, transfer } skbs :=
  { h with }

theorem filterMap_range_eq_take {f : Nat → Option Nat}
    (h : ∀ j (hj : j < skbs.length), f j = some skbs[j]) (n : Nat) :
    (range (min n skbs.length)).filterMap f = skbs.take n := by
  induction skbs generalizing n f with
  | nil => simp
  | cons skb rest ih =>
    cases n with
    | zero => simp
    | succ n =>
      have ih' := ih (f := fun j => f (j + 1)) (fun j hj => h (j + 1) (by simpa using hj)) n
      rw [length_cons, succ_min_succ, range_succ_eq_map,
        filterMap_cons_some (h 0 (by simp)), filterMap_map, take_succ_cons, ← ih']
      rfl

theorem Batch.held_eq (h : Batch d skbs) : d.held = skbs := by
  have htake := filterMap_range_eq_take h.pskb skbs.length
  rwa [min_self, take_length, ← h.xferCnt] at htake

/-- Where the driver is with its buffers. -/
inductive Phase (d : Dev) (skbs : List Nat) : Prop where
  | idle : d.rxBusy = false → skbs = [] → d.returned = [] →
      (∀ l, d.transfer = some l → l = []) → Phase d skbs
  | refused : d.rxBusy = true → d.returned = [none] →
      (∀ l, d.transfer = some l → l = []) → Phase d skbs
  | accepted (nb : Nat) : d.rxBusy = true → d.returned = [some nb] →
      d.transfer = some (skbs.take nb) → Phase d skbs
  | running : d.rxBusy = true → d.returned = [] → d.transfer = some skbs → Phase d skbs

/-- Every buffer is held, or it was disposed of once and not used again. -/
structure Accounted (d : Dev) (skbs : List Nat) : Prop where
  batch : Batch d skbs
  perm : (d.disposed ++ skbs).Perm (range d.allocated)
  stray : d.stray = []
  phase : Phase d skbs

theorem Accounted.nodup (h : Accounted d skbs) : (d.disposed ++ skbs).Nodup :=
  h.perm.nodup_iff.mpr nodup_range

/-- `IPC_4GHIF_submit_dl` of a batch that has just been built. -/
theorem Batch.submitDl (h : Batch d skbs)
    (hperm : (d.disposed ++ skbs).Perm (range d.allocated)) (hstray : d.stray = [])
    (hbusy : d.rxBusy = true) (hret : d.returned = []) (htr : ∀ l, d.transfer = some l → l = [])
    (accepted : Option Nat) : Accounted (d.submitDl accepted) skbs := by
  unfold Dev.submitDl
  split
  · next nb hnone =>
    refine ⟨h.with _ _, hperm, hstray, .accepted nb hbusy (by rw [hret]; rfl) (congrArg some ?_)⟩
    rw [h.packetCnt]
    refine filterMap_range_eq_take (fun j hj => ?_) nb
    rw [(h.pointers j hj).1]
    exact h.pskb j hj
  · exact ⟨h.with _ _, hperm, hstray, .refused hbusy (by rw [hret]; rfl) htr⟩

theorem Accounted.lteDdSdmaRx (h : Accounted d skbs) (pi : List (PacketInfo × Option Nat))
    (accepted : Option Nat) : ∃ skbs', Accounted (d.lteDdSdmaRx pi accepted) skbs' := by
  by_cases hskip : d.rxBusy ∨ pi.length = 0
  · exact ⟨skbs, by rwa [Dev.lteDdSdmaRx, if_pos hskip]⟩
  rw [Dev.lteDdSdmaRx, if_neg hskip]
  rcases h.phase with ⟨-, rfl, hret, htr⟩ | ⟨hb, -, -⟩ | ⟨_, hb, -, -⟩ | ⟨hb, -, -⟩
  · unfold lteDdAllocSdmaXferList
    split_ifs with hmax
    · exact ⟨[], .nil h.batch.xferCnt h.batch.packetCnt, h.perm, h.stray, .idle rfl rfl hret htr⟩
    obtain ⟨n, xfer, len, ok, heq, hok, -, hnew⟩ := allocXfers_spec (k := 0) pi
      (d := { d with rxBusy := true, rxSdmaXferCnt := 0 }) rfl
    simp only [heq]
    simp only [zero_add] at hok hnew ⊢
    cases ok with
    | false =>
      obtain rfl := hok rfl
      exact ⟨[], .nil rfl h.batch.packetCnt, h.perm, h.stray, .idle rfl rfl hret htr⟩
    | true =>
      refine ⟨.range' d.allocated n, ?_⟩
      refine Batch.submitDl ⟨?_, ?_, fun j hj => ?_, fun j hj => ?_⟩ ?_ ?_ rfl ?_ ?_ accepted
      · exact length_range'.symm
      · exact length_range'.symm
      · rw [getElem_range', one_mul]
        exact (hnew j (by simpa using hj)).1
      · rw [length_range'] at hj
        exact ⟨if_pos hj, (hnew j hj).2⟩
      · have hperm := h.perm
        rw [append_nil] at hperm
        refine (hperm.append_right _).trans ?_
        rw [range_eq_range', range_eq_range', ← range'_append_1, zero_add]
      · exact h.stray
      · exact hret
      · exact htr
  all_goals exact absurd (.inl hb) hskip

theorem Batch.freeXfers (h : Batch d skbs) (hnodup : (d.disposed ++ skbs).Nodup) (nb : Nat) :
    ∃ xfer, d.freeXfers nb =
        { d with rxSdmaXfer := xfer, disposed := d.disposed ++ skbs.drop nb } ∧
      ∀ j < nb, xfer j = d.rxSdmaXfer j := by
  rw [Dev.freeXfers, show d.rxSdmaXferCnt - nb = (skbs.drop nb).length by
    rw [h.xferCnt, length_drop]]
  refine foldl_free (fun j hj => ?_)
    (hnodup.sublist ((drop_sublist nb skbs).append_left d.disposed))
  rw [getElem_drop]
  exact h.pskb (nb + j) _

theorem perm_drop_take {α : Type*} (l m : List α) (n : Nat) :
    (l ++ m.drop n ++ m.take n).Perm (l ++ m) := by
  rw [append_assoc]
  refine .append_left l (perm_append_comm.trans ?_)
  rw [take_append_drop]

/-- The rest of a call that the 4GHIF driver refused. -/
theorem Accounted.refused (h : Accounted d skbs) (htr : ∀ l, d.transfer = some l → l = []) :
    Accounted ({ d with returned := [] }.sdmaRxReturn none) [] := by
  obtain ⟨xfer, heq, -⟩ := (h.batch.with [] d.transfer).freeXfers h.nodup 0
  rw [sdmaRxReturn, heq]
  refine ⟨.nil rfl rfl, ?_, h.stray, .idle rfl rfl rfl htr⟩
  rw [append_nil]
  exact h.perm

/-- The rest of a call whose first packets were accepted. -/
theorem Accounted.accepted {nb : Nat} (h : Accounted d skbs)
    (hbusy : d.rxBusy = true) (htr : d.transfer = some (skbs.take nb)) :
    Accounted ({ d with returned := [] }.sdmaRxReturn (some nb)) (skbs.take nb) := by
  rw [sdmaRxReturn]
  split_ifs with hless
  · replace hless : nb < skbs.length := h.batch.packetCnt ▸ hless
    obtain ⟨xfer, heq, hlow⟩ := (h.batch.with [] d.transfer).freeXfers h.nodup nb
    rw [heq]
    have hlen : (skbs.take nb).length = nb := length_take_of_le hless.le
    refine ⟨⟨hlen.symm, hlen.symm, fun j hj => ?_, fun j hj => ⟨?_, ?_⟩⟩,
      (perm_drop_take ..).trans h.perm, h.stray, ?_⟩
    · rw [getElem_take]
      exact (congrArg _ (hlow j (hlen ▸ hj))).trans (h.batch.pskb j _)
    · refine (if_neg fun hle => ?_).trans (h.batch.pointers j (by omega)).1
      omega
    · exact (congrArg _ (hlow j (hlen ▸ hj))).trans (h.batch.pointers j (by omega)).2
    · cases nb with
      | zero => exact .idle (by simp [hbusy]) rfl rfl fun l hl => by simpa [htr] using hl.symm
      | succ nb => exact .running (by simp [hbusy]) rfl htr
  · have hall : skbs.take nb = skbs :=
      take_of_length_le (h.batch.packetCnt ▸ Nat.le_of_not_lt hless)
    rw [hall] at htr ⊢
    exact ⟨h.batch.with _ _, h.perm, h.stray, .running hbusy rfl htr⟩

theorem Accounted.sdmaRxReturn (h : Accounted d skbs) {i : Nat}
    {r : Option Nat} (hr : d.returned[i]? = some r) :
    ∃ skbs', Accounted ({ d with returned := d.returned.eraseIdx i }.sdmaRxReturn r) skbs' := by
  rcases h.phase with ⟨-, -, hret, -⟩ | ⟨-, hret, htr⟩ | ⟨nb, hbusy, hret, htr⟩ | ⟨-, hret, -⟩
  · simp [hret] at hr
  · obtain ⟨rfl, rfl⟩ : i = 0 ∧ none = r := by simpa [hret, getElem?_singleton] using hr
    rw [hret]
    exact ⟨[], h.refused htr⟩
  · obtain ⟨rfl, rfl⟩ : i = 0 ∧ some nb = r := by
      simpa [hret, getElem?_singleton] using hr
    rw [hret]
    exact ⟨_, h.accepted hbusy htr⟩
  · simp [hret] at hr

theorem Batch.dlCompleteCb (h : Batch d skbs)
    (hbusy : d.rxBusy = true) (hnodup : (d.disposed ++ skbs).Nodup)
    (hstatus : ∀ j < skbs.length, (d.rxSdmaXfer j).transferredStatus = true) :
    d.lteDd4ghifDlCompleteCb =
      { d.lteDdZeroRxArrays with rxBusy := false, disposed := d.disposed ++ skbs } := by
  obtain ⟨xfer, heq⟩ := dlCompleteLoop_spec (d := d) (k := 0) none
    (fun j hj => by
      rw [zero_add]
      exact h.pskb j hj)
    (fun j hj => by
      rw [zero_add]
      exact ⟨(h.pointers j hj).1, (h.pointers j hj).2, hstatus j hj⟩)
    hnodup
  rw [lteDd4ghifDlCompleteCb, if_neg (by simp [hbusy]), h.packetCnt, heq]
  rfl

theorem Accounted.dlComplete {l : List Nat} (h : Accounted d skbs)
    (hret : d.returned = []) (htr : d.transfer = some l) {reports : List Report}
    (hlen : reports.length = l.length) (hall : ∀ r ∈ reports, r.transferredStatus = true) :
    Accounted ({ (d.touch l).store reports with transfer := none }.lteDd4ghifDlCompleteCb) [] := by
  rcases h.phase with ⟨hbusy, rfl, -, hnil⟩ | ⟨-, hr, -⟩ | ⟨_, -, hr, -⟩ | ⟨hbusy, -, htr'⟩
  · obtain rfl := hnil l htr
    have hspurious : ∀ e : Dev, e.rxBusy = false → e.lteDd4ghifDlCompleteCb = e := fun _ he =>
      if_pos he
    rw [touch_eq (by simp), hspurious { d.store reports with transfer := none } hbusy]
    exact ⟨.nil h.batch.xferCnt h.batch.packetCnt, h.perm, h.stray,
      .idle hbusy rfl hret (fun _ h => nomatch h)⟩
  · exact absurd (hr.symm.trans hret) (by simp)
  · exact absurd (hr.symm.trans hret) (by simp)
  · obtain rfl : l = skbs := Option.some.inj (htr.symm.trans htr')
    have hget : ∀ j < l.length, ∃ r ∈ reports, reports[j]? = some r := fun j hj =>
      ⟨reports[j], getElem_mem _, getElem?_eq_getElem (hlen ▸ hj)⟩
    have hbatch : Batch { d.store reports with transfer := none } l := by
      refine ⟨h.batch.xferCnt, h.batch.packetCnt, fun j hj => ?_, fun j hj => ?_⟩ <;>
        obtain ⟨r, -, hr⟩ := hget j hj <;> simp [store, hr]
      · exact h.batch.pskb j hj
      · exact h.batch.pointers j hj
    rw [touch_eq fun skb hskb hmem => (nodup_append.mp h.nodup).2.2 skb hmem skb hskb rfl,
      hbatch.dlCompleteCb hbusy h.nodup fun j hj => by
        obtain ⟨r, hmem, hr⟩ := hget j hj
        simpa only [store, hr] using hall r hmem]
    refine ⟨.nil rfl rfl, ?_, h.stray, .idle rfl rfl hret (fun _ h => nomatch h)⟩
    rw [append_nil]
    exact h.perm

/-- The callback finds every frame transferred, and no call of `lte_dd_sdma_rx` that is back
from `IPC_4GHIF_submit_dl` and not finished. -/
def Transferred (d : Dev) : Label → Prop
  | .dlComplete reports => d.returned = [] ∧ ∀ r ∈ reports, r.transferredStatus = true
  | _ => True

instance (d : Dev) : (a : Label) → Decidable (Transferred d a)
  | .sdmaRx .. | .sdmaRxReturn _ => isTrue trivial
  | .dlComplete _ => inferInstanceAs (Decidable (_ ∧ _))

theorem accounted_of_reachable (hd : system.ReachableUnder Transferred d) :
    ∃ skbs, Accounted d skbs := by
  refine hd.invariant (P := fun d => ∃ skbs, Accounted d skbs) ?_ ?_
  · rintro d rfl
    exact ⟨[], .nil rfl rfl, .refl _, rfl, .idle rfl rfl rfl (fun _ h => nomatch h)⟩
  · rintro d a d' ⟨skbs, h⟩ hguard hstep
    cases a with
    | sdmaRx pi accepted =>
      cases hstep
      exact h.lteDdSdmaRx pi accepted
    | sdmaRxReturn i =>
      obtain ⟨r, hr, rfl⟩ := Option.map_eq_some_iff.mp hstep
      exact h.sdmaRxReturn hr
    | dlComplete reports =>
      change exec d (.dlComplete reports) = some d' at hstep
      cases htr : d.transfer with
      | none => simp only [exec, htr, reduceCtorEq] at hstep
      | some l =>
        simp only [exec, htr] at hstep
        split_ifs at hstep with hlen
        cases hstep
        exact ⟨[], h.dlComplete hguard.1 htr hlen hguard.2⟩

/-- In every run whose callbacks find every frame transferred, each buffer ever allocated is held
by the driver or was handed to the network driver or freed, exactly once, and no buffer is used
after that.  A driver that is not busy holds none; a busy one holds those of the transfer, once
its calls of `lte_dd_sdma_rx` are finished. -/
theorem dl_buffers_accounted {d : Dev} (hd : system.ReachableUnder Transferred d) :
    (d.disposed ++ d.held).Perm (range d.allocated) ∧ d.stray = [] ∧
      (d.rxBusy = false → d.held = []) ∧
      (d.rxBusy = true → d.returned = [] → d.transfer = some d.held) := by
  obtain ⟨skbs, h⟩ := accounted_of_reachable hd
  rw [h.batch.held_eq]
  refine ⟨h.perm, h.stray, ?_, ?_⟩
  · intro hbusy
    rcases h.phase with ⟨-, hnil, -, -⟩ | ⟨hb, -, -⟩ | ⟨_, hb, -, -⟩ | ⟨hb, -, -⟩
    · exact hnil
    all_goals exact absurd (hb.symm.trans hbusy) (by decide)
  · intro hbusy hret
    rcases h.phase with ⟨hb, -, -, -⟩ | ⟨-, hr, -⟩ | ⟨_, -, hr, -⟩ | ⟨-, -, htr⟩
    · exact absurd (hb.symm.trans hbusy) (by decide)
    · exact absurd (hr.symm.trans hret) (by simp)
    · exact absurd (hr.symm.trans hret) (by simp)
    · exact htr

/-- The 4GHIF driver accepts one of two frames and reports it with a wrong size. -/
theorem dl_buffers_accounted_partial :
    ∃ d, system.ReachableUnder Transferred d ∧ d.allocated = 2 ∧ d.rxBusy = false ∧
      d.stray = [] ∧ d.disposed.Perm (range 2) := by
  obtain ⟨d, hd, hbusy, hallocated⟩ := TransitionSystem.ReachableUnder.exists_observed
    (P := fun d : Dev => d.rxBusy = false ∧ d.allocated = 2)
    [.sdmaRx [(⟨.dlData, 100⟩, some 100), (⟨.dlData, 60⟩, some 60)] (some 1), .sdmaRxReturn 0,
      .dlComplete [⟨true, .dlData, 90⟩]]
    (.init rfl : system.ReachableUnder Transferred .start) (by decide +kernel)
  obtain ⟨hperm, hstray, hidle, -⟩ := dl_buffers_accounted hd
  rw [hidle hbusy, append_nil, hallocated] at hperm
  exact ⟨d, hd, hallocated, hbusy, hstray, hperm⟩

end Receive
end LteModemKernel.DataDriver
