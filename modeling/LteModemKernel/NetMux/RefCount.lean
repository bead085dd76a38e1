import LteModemKernel.NetMux.Interface

/-!
# The reference count of a device file

The reference count of a channel should be one while the channel is open and zero
otherwise.  `DirectInform` and `TTYInform` raise it when an open is confirmed and
lower it at every inform about a closed channel, without looking at its value.  The MUX
does not send one such inform for each channel it closes.

Main results:

- Theorem `Interface.counts_of_reachable`: in a run without the steps that the
  informs do not account for, the count is the one the state of the channel stands for.
- Theorem `Interface.refcount_counted`: in such a run the count is zero or one, and a
  closed channel is not busy.
- Theorem `Interface.refcount_miscounted`: a remote close during a flush and the
  disabling of the MUX leave a closed channel busy, and the close after an interrupted
  open of a terminal makes the count wrap around.
-/

namespace LteModemKernel.NetMux

open Mux Nat List Option

/-! ## The states of a channel around an operation -/

namespace Mux

variable {m : Mux} {c : Nat}

theorem stateOf_setChannel (m : Mux) (c : Nat) (ch : Channel) :
    (m.setChannel c ch).stateOf c = some ch.state :=
  stateOf_of_some (Function.update_self ..)

theorem stateOf_dropChannel (m : Mux) (c : Nat) (ch : Channel) :
    (m.dropChannel c ch).stateOf c = none :=
  stateOf_of_none (Function.update_self ..)

theorem stateOf_closeChannel (m : Mux) (c : Nat) : (m.closeChannel c).stateOf c = none := by
  unfold closeChannel
  split
  · next hch => exact stateOf_of_none hch
  · exact stateOf_dropChannel m c _

end Mux

/-- What `LOCAL_CLOSE` makes of the state of a channel. -/
def afterLocalClose : Option ChannelState → Option ChannelState
  | some .opening | some .opened => some .localClosing
  | some .sending => some .flushing
  | some .remoteClosing => none
  | st => st

/-- What `REMOTE_CLOSE` makes of the state of a channel. -/
def afterRemoteClose : Option ChannelState → Option ChannelState
  | some .opened | some .sending => some .remoteClosing
  | some .flushing => none
  | st => st

/-- What `DisableChannel` makes of the state of a channel, and whether the interface that the
packet names is told. -/
def afterDisable : AckType → Option ChannelState → Option ChannelState × Bool
  | .hostEnd .command, st => (afterLocalClose st, false)
  | .hostEnd .success, some .localClosing => (none, true)
  | .clientEnd .command, st => (afterRemoteClose st, st = some .opened ∨ st = some .sending)
  | _, st => (st, false)

variable {out : Outcome} {j : Nat} {m m' : Mux} {op : Op} {result : LinkResult}

namespace Mux

variable {c : Nat}

/-- A local open makes a new channel or changes nothing; no interface is told. -/
theorem enableChannel_localOpen (burst maxData hb hs cb cs : UInt32) (hi ci : UInt8) :
    ((m.enableChannel (.hostEnd .command) c burst maxData hi ci hb hs cb cs).mux.stateOf c =
        m.stateOf c ∨
      m.stateOf c = none ∧
        (m.enableChannel (.hostEnd .command) c burst maxData hi ci hb hs cb cs).mux.stateOf c =
          some .opening) ∧
      (m.enableChannel (.hostEnd .command) c burst maxData hi ci hb hs cb cs).informs = [] := by
  simp only [enableChannel]
  split
  · exact ⟨.inl rfl, rfl⟩
  · split
    · exact ⟨.inl rfl, rfl⟩
    · next hch =>
      split
      · exact ⟨.inr ⟨stateOf_of_none hch, stateOf_setChannel _ c _⟩, rfl⟩
      · exact ⟨.inl rfl, rfl⟩

theorem enableChannel_response (hlt : c < m.config.maxchannels) (success : Bool)
    (burst maxData hb hs cb cs : UInt32) (hi ci : UInt8)
    (hout : m.enableChannel (.hostEnd (if success then .success else .failure)) c burst maxData
      hi ci hb hs cb cs = out) :
    (m.stateOf c = some .opening ∧
        out.mux.stateOf c = (if success then some .opened else none) ∧
        out.informs = [.enableChannel hi (.enableChannel
          (.hostEnd (if success then .success else .failure)) (UInt8.ofNat c) hi ci cb cs)]) ∨
      out.mux.stateOf c = m.stateOf c ∧ out.informs = [] := by
  subst hout
  have hle : ¬ m.config.maxchannels ≤ c := not_le.mpr hlt
  cases success with
  | true =>
    simp only [if_true, enableChannel, if_neg hle]
    split
    · exact .inr ⟨rfl, rfl⟩
    · next hch =>
      split
      · next hst => exact .inl ⟨hst ▸ stateOf_of_some hch, stateOf_setChannel _ c _, rfl⟩
      · exact .inr ⟨rfl, rfl⟩
  | false =>
    simp only [Bool.false_eq_true, if_false, enableChannel, if_neg hle]
    split
    · exact .inr ⟨rfl, rfl⟩
    · next hch =>
      split
      · next hst => exact .inl ⟨hst ▸ stateOf_of_some hch, stateOf_closeChannel _ c, rfl⟩
      · exact .inr ⟨rfl, rfl⟩

/-- What `DisableChannel` makes of the state of the channel, and the interface it tells. -/
theorem disableChannel_told (hlt : c < m.config.maxchannels) (a : AckType) (hi ci : UInt8) :
    (m.disableChannel a c hi ci).mux.stateOf c = (afterDisable a (m.stateOf c)).1 ∧
      (m.disableChannel a c hi ci).informs =
        if (afterDisable a (m.stateOf c)).2 then [closeInform c hi ci] else [] := by
  have hle : ¬ m.config.maxchannels ≤ c := not_le.mpr hlt
  cases hch : m.channels c with
  | none =>
    rcases a with kind | kind <;> cases kind <;>
      simp [disableChannel, if_neg hle, hch, returns, afterDisable, afterLocalClose,
        afterRemoteClose, stateOf_of_none hch, transmitDisableChannel]
    exact stateOf_of_none hch
  | some ch =>
    rcases a with kind | kind <;> cases kind <;> cases hst : ch.state <;>
      simp [disableChannel, if_neg hle, hch, hst, executeStateTransition, afterDisable,
        afterLocalClose, afterRemoteClose, returns, transmitDisableChannel, stateOf_setChannel,
        stateOf_dropChannel, stateOf_of_some hch]

/-- Disabling the MUX leaves the channel as it is or closes it; an inform of it names no
channel. -/
theorem disableMux_told (acktype : AckType) :
    ((m.disableMux acktype).mux.stateOf c = m.stateOf c ∨
        m.status = .active ∧ (m.disableMux acktype).mux.stateOf c = none) ∧
      ∀ x ∈ (m.disableMux acktype).informs, x.channel = none := by
  have hsame : ∀ e : ErrorCode, ((m.returns e).mux.stateOf c = m.stateOf c ∨
      m.status = .active ∧ (m.returns e).mux.stateOf c = none) ∧
      ∀ x ∈ (m.returns e).informs, x.channel = none :=
    fun _ => ⟨.inl rfl, nofun⟩
  have hactive : ∀ (k : Mux) (a : AckType), m.status = .active → k.channels = m.channels →
      (k.closeChannels.stateOf c = m.stateOf c ∨
        m.status = .active ∧ k.closeChannels.stateOf c = none) ∧
      ∀ x ∈ [Inform.disableMux a], x.channel = none := by
    intro k a hst hk
    constructor
    · rcases closeChannels_channels k c with hnone | hsame
      · exact .inr ⟨hst, stateOf_of_none hnone⟩
      · left
        rw [stateOf, hsame, hk, stateOf]
    · exact forall_mem_singleton.mpr rfl
  rcases acktype with kind | kind <;> cases kind <;> simp only [disableMux]
  any_goals exact hsame _
  all_goals
    split
    · next hst => exact hactive _ _ hst rfl
    · exact hsame _

end Mux

/-! ## The references of a state -/

/-- The references a channel in a state stands for. -/
def references : Option ChannelState → UInt32
  | some .opened | some .sending | some .flushing | some .localClosing => 1
  | _ => 0

/-- Storing a channel object that stands for as many references changes no channel. -/
theorem references_of_update {x : Option Channel} (c : Nat)
    (h : m'.channels = Function.update m.channels j x)
    (hself : c = j → references (x.map Channel.state) = references (m.stateOf c)) :
    references (m'.stateOf c) = references (m.stateOf c) := by
  rw [stateOf_of_update h]
  by_cases hc : c = j
  · rw [if_pos hc]
    exact hself hc
  · rw [if_neg hc]

theorem references_keep {ch ch' : Channel} (c : Nat) (hch : m.channels j = some ch)
    (h : m'.channels = Function.update m.channels j (some ch')) (hst : ch'.state = ch.state) :
    references (m'.stateOf c) = references (m.stateOf c) := by
  apply references_of_update c h
  rintro rfl
  rw [stateOf_of_some hch, map_some, hst]

theorem SendChange.references_eq {sent : Option Message} (h : SendChange m m' sent) (c : Nat) :
    references (m'.stateOf c) = references (m.stateOf c) := by
  cases h with
  | idle _ _ | control _ => rfl
  | @data j ch front rest st ps run hc hch hst hqueue hfits hfinish =>
    rw [transmitAll_eq]
    apply references_of_update c rfl
    rintro rfl
    rw [stateOf_of_some hch]
    have hstate : (afterFront ch front rest).state = ch.state := rfl
    cases hfinish with
    | more _ => rfl
    | sending _ hs | flushing _ hs =>
      rw [← hstate, hs]
      rfl

/-! ## The channels that informs name -/

namespace Mux

theorem enableChannel_informs (a : AckType) (j : Nat) (burst maxData : UInt32) (hi ci : UInt8)
    (hb hs cb cs : UInt32) :
    ∀ x ∈ (m.enableChannel a j burst maxData hi ci hb hs cb cs).informs,
      x.channel = some (j % 256) := by
  intro x hx
  rcases a with kind | kind <;> cases kind <;> simp only [enableChannel] at hx
  all_goals repeat' split at hx
  all_goals rcases hx with _ | ⟨_, ⟨⟩⟩ <;> rfl

theorem disableChannel_informs (a : AckType) (j : Nat) (hi ci : UInt8) :
    ∀ x ∈ (m.disableChannel a j hi ci).informs, x.channel = some (j % 256) := by
  intro x hx
  rcases a with kind | kind <;> cases kind <;> simp only [disableChannel] at hx
  all_goals repeat' split at hx
  all_goals rcases hx with _ | ⟨_, ⟨⟩⟩ <;> rfl

theorem exec_informs (hout : m.exec op = some out) (henable : ∀ a j burst maxData hi ci hb hs cb cs,
      op ≠ .enableChannel a j burst maxData hi ci hb hs cb cs)
    (hdisable : ∀ a j hi ci, op ≠ .disableChannel a j hi ci) :
    ∀ x ∈ out.informs, x.channel = none := by
  intro x hx
  cases op with
  | enableMux a =>
    cases hout
    rcases a with kind | kind <;> cases kind <;> simp only [enableMux] at hx
    all_goals repeat' split at hx
    all_goals rcases hx with _ | ⟨_, ⟨⟩⟩ <;> rfl
  | disableMux a =>
    cases hout
    exact (disableMux_told (c := 0) a).2 x hx
  | enableChannel a j burst maxData hi ci hb hs cb cs =>
    exact absurd rfl (henable _ _ _ _ _ _ _ _ _ _)
  | disableChannel a j hi ci => exact absurd rfl (hdisable _ _ _ _)
  | adjustCredit a j b n =>
    simp only [exec, adjustCredit] at hout
    repeat' split at hout
    all_goals cases hout <;> cases hx
  | queryExternalInterface a hi r name =>
    cases hout
    simp only [queryExternalInterface] at hx
    repeat' split at hx
    all_goals rcases hx with _ | ⟨_, ⟨⟩⟩ <;> rfl
  | channelSignal a signal j =>
    simp only [exec, channelSignal] at hout
    repeat' split at hout
    all_goals cases hout
    all_goals rcases hx with _ | ⟨_, ⟨⟩⟩ <;> rfl
  | transmit p | forwardData j taken | freeHeld index =>
    cases hout
    cases hx
  | sendData j buffer split =>
    simp only [exec, sendData] at hout
    repeat' split at hout
    all_goals cases hout <;> cases hx
  | receiveData d | readData j count | processReleased index =>
    rcases map_eq_some_iff.mp hout with ⟨m', _, rfl⟩
    cases hx

theorem sendStep_informs {out : Mux × Option Message × List Inform}
    (hout : m.sendStep result = some out) : ∀ x ∈ out.2.2, x.channel = none := by
  intro x hx
  unfold sendStep at hout
  split at hout
  · cases hout
    cases hx
  · simp only [sendRound] at hout
    split at hout
    · split at hout
      · cases hout
        simp only [sendControl] at hx
        repeat' split at hx
        all_goals cases hx
      · rcases map_eq_some_iff.mp hout with ⟨r, _, rfl⟩
        cases r with
        | nothing n amount => cases hx
        | found n ch front rest amount =>
          cases result with
          | recoverable => cases hx
          | success =>
            simp only [sendScanned] at hx
            split at hx
            · rw [mem_singleton.mp hx]
              rfl
            · cases hx
    · cases hout
      cases hx

end Mux

namespace Interface

variable {i : Interface} {informs : List Inform} {a : AckType} {hi ci : UInt8} {s' : State}

/-! ## Operations that are not about the channel -/

theorem foreign_enableChannel {burst maxData hb hs cb cs : UInt32}
    (hforeign : i.foreign (.enableChannel a j burst maxData hi ci hb hs cb cs) = true)
    (ha : a ≠ .clientEnd .failure) : j % 256 ≠ i.channel := by
  rcases a with kind | kind <;> cases kind
  case clientEnd.failure => exact absurd rfl ha
  all_goals exact of_decide_eq_true hforeign

theorem foreign_disableChannel (hforeign : i.foreign (.disableChannel a j hi ci) = true) :
    j % 256 ≠ i.channel :=
  of_decide_eq_true hforeign

theorem channel_ne (hj : j % 256 ≠ i.channel) : i.channel ≠ j := by
  rintro rfl
  exact hj (mod_eq_of_lt i.channel_byte)

theorem references_foreign (h : Change m op m') (hforeign : i.foreign op = true) :
    references (m'.stateOf i.channel) = references (m.stateOf i.channel) := by
  cases h with
  | stutter _ | status _ | queued _ _ | creditAdded _ | bufferFreed _ => rfl
  | muxDisabledHost _ | muxDisabledClient _ => cases hforeign
  | @localOpen j burst maxData hb hs cb cs hi ci _ _ | openSuccess _ _ _ | remoteOpen _ _ =>
    apply references_of_update i.channel rfl
    intro hj
    exact absurd hj (channel_ne (foreign_enableChannel hforeign (by simp)))
  | moved _ _ _ =>
    rw [transmitAll_eq]
    apply references_of_update i.channel rfl
    exact fun hj => absurd hj (channel_ne (foreign_disableChannel hforeign))
  | purged _ _ _ =>
    apply references_of_update i.channel rfl
    exact fun hj => absurd hj (channel_ne (foreign_disableChannel hforeign))
  | @closed _ j ch ps _ _ hclose =>
    generalize ch.state = st at hclose
    rw [transmitAll_eq]
    apply references_of_update i.channel rfl
    intro hj
    cases hclose with
    | openFailure => exact absurd hj (channel_ne (foreign_enableChannel hforeign (by simp)))
    | closeAnswered | closeConfirmed | remoteFlushed =>
      exact absurd hj (channel_ne (foreign_disableChannel hforeign))
  | dataQueued _ hpiece =>
    rcases sendPiece_ok hpiece with ⟨hch, hst, -⟩
    rw [queuePiece_eq hst]
    apply references_of_update i.channel rfl
    rintro rfl
    rw [stateOf_of_some hch]
    rcases hst with hst | hst <;> rw [hst] <;> rfl
  | dataReceived _ hch | dataRead hch _ _ | dataSplit hch _ _ | dataForwarded hch _
  | dataDiscarded hch _ => exact references_keep _ hch rfl rfl
  | released _ hm' =>
    rcases commBuffReleased_cases hm' with ⟨-, sendCredit, rfl | rfl⟩ <;> rfl

theorem informs_foreign (hout : m.exec op = some out) (hforeign : i.foreign op = true) :
    ∀ x ∈ out.informs, x.channel ≠ some i.channel := by
  intro x hx hchannel
  cases op with
  | enableChannel a j burst maxData hi ci hb hs cb cs =>
    cases hout
    have hj := enableChannel_informs a j burst maxData hi ci hb hs cb cs x hx
    rw [hchannel] at hj
    by_cases ha : a = .clientEnd .failure
    · subst ha
      cases hx
    · exact foreign_enableChannel hforeign ha (some.inj hj).symm
  | disableChannel a j hi ci =>
    cases hout
    have hj := disableChannel_informs a j hi ci x hx
    rw [hchannel] at hj
    exact foreign_disableChannel hforeign (some.inj hj).symm
  | _ =>
    have hnone := exec_informs hout (by simp) (by simp) x hx
    cases hchannel.symm.trans hnone

/-! ## What the informs do to the count -/

theorem inform_refcount (d : ChannelData) {x : Inform} (hx : x.channel ≠ some i.channel) :
    (i.inform d x).refcount = d.refcount := by
  have hne : ∀ (index : UInt8) {channel : UInt8}, some channel.toNat ≠ some i.channel →
      ¬ (index = i.hostInterface ∧ channel.toNat = i.channel) :=
    fun _ _ hc hboth => hc (congrArg some hboth.2)
  cases x with
  | enableChannel index p =>
    cases p with
    | enableChannel a channel hi ci b n =>
      exact congrArg ChannelData.refcount (if_neg (hne index hx))
    | _ => rfl
  | disableChannel index p =>
    cases p with
    | disableChannel a channel hi ci =>
      exact congrArg ChannelData.refcount (if_neg (hne index hx))
    | _ => rfl
  | _ => rfl

theorem informs_refcount (hinforms : ∀ x ∈ informs, x.channel ≠ some i.channel) (d : ChannelData) :
    (informs.foldl i.inform d).refcount = d.refcount := by
  induction informs generalizing d with
  | nil => rfl
  | cons x informs ih =>
    rw [foldl_cons, ih (fun y hy => hinforms y (mem_cons_of_mem x hy)),
      inform_refcount d (hinforms x mem_cons_self)]

theorem channel_toNat (i : Interface) : (UInt8.ofNat i.channel).toNat = i.channel :=
  mod_eq_of_lt i.channel_byte

theorem inform_opened (d : ChannelData) (ci : UInt8) (b n : UInt32) :
    (i.inform d (.enableChannel i.hostInterface (.enableChannel (.hostEnd .success)
      (UInt8.ofNat i.channel) i.hostInterface ci b n))).refcount = d.refcount + 1 := by
  rw [inform, if_pos ⟨rfl, i.channel_toNat⟩]

theorem inform_refused (d : ChannelData) (hi ci : UInt8) (b n : UInt32) :
    (i.inform d (.enableChannel hi (.enableChannel (.hostEnd .failure)
      (UInt8.ofNat i.channel) hi ci b n))).refcount = d.refcount := by
  rw [inform]
  split <;> rfl

theorem inform_closed (d : ChannelData) (hi : UInt8) :
    (i.inform d (Mux.closeInform i.channel hi i.hostInterface)).refcount = d.refcount - 1 := by
  rw [closeInform, inform, if_pos ⟨rfl, i.channel_toNat⟩]

/-! ## The invariant -/

/-- The count is the one the state of the channel stands for. -/
structure Counts (i : Interface) (s : State) : Prop where
  config : s.mux.config = i.config
  refcount : s.chdat.refcount = references (s.mux.stateOf i.channel)

/-- The steps whose informs account for what happens to the channel: no close of the file
while its open waits for the response, no remote close while the channel is flushed, no
disabling of the MUX while the count is not zero, and the packets that close or open the
channel name the interface. -/
def Accounted (i : Interface) (s : State) : Label → Prop
  | .closeCommand => s.mux.stateOf i.channel ≠ some .opening
  | .closeBusy => s.mux.stateOf i.channel ≠ some .opening
  | .openResponse success host .. =>
    s.mux.stateOf i.channel = some .opening → success = true → host = i.hostInterface
  | .remoteClose _ client =>
    s.mux.stateOf i.channel ≠ some .flushing ∧
      (s.mux.stateOf i.channel = some .opened ∨ s.mux.stateOf i.channel = some .sending →
        client = i.hostInterface)
  | .closeResponse _ client =>
    s.mux.stateOf i.channel = some .localClosing → client = i.hostInterface
  | .disableMux _ => s.mux.status = .active → s.chdat.refcount = 0
  | _ => True

instance (i : Interface) (s : State) (label : Label) : Decidable (i.Accounted s label) := by
  cases label <;> unfold Interface.Accounted <;> infer_instance

section Steps

variable {s : State}

section

variable (h : Counts i s)
include h

theorem Counts.channel_lt : i.channel < s.mux.config.maxchannels :=
  h.config ▸ i.channel_lt

theorem Counts.of_eq (hmux : s'.mux = s.mux) (hrefcount : s'.chdat.refcount = s.chdat.refcount) :
    Counts i s' where
  config := by rw [hmux, h.config]
  refcount := by rw [hrefcount, hmux, h.refcount]

theorem Counts.openFailed : Counts i (i.openFailed s) := by
  unfold Interface.openFailed
  cases i.kind with
  | direct => exact h
  | tty => exact h.of_eq rfl rfl

theorem Counts.told (hconfig : m.config = s.mux.config)
    (hcount : (informs.foldl i.inform s.chdat).refcount = references (m.stateOf i.channel)) :
    Counts i (i.told s m informs) where
  config := hconfig.trans h.config
  refcount := hcount

theorem Counts.told_quiet (hconfig : m.config = s.mux.config)
    (hreferences : references (m.stateOf i.channel) = references (s.mux.stateOf i.channel))
    (hinforms : ∀ x ∈ informs, x.channel ≠ some i.channel) : Counts i (i.told s m informs) := by
  apply h.told hconfig
  rw [informs_refcount hinforms, h.refcount, hreferences]

theorem Counts.openEnable : Counts i (i.openEnable s) := by
  unfold Interface.openEnable
  generalize hout : s.mux.enableChannel (.hostEnd .command) i.channel s.chdat.burstsize
    s.chdat.maxdata i.hostInterface s.chdat.clientInterface s.chdat.hostByteCredit
    s.chdat.hostSendCredit 0 0 = out
  have hconfig : out.mux.config = s.mux.config := by
    rw [← hout]
    exact (enableChannel_change ..).config_eq
  rcases enableChannel_localOpen (m := s.mux) (c := i.channel) s.chdat.burstsize
    s.chdat.maxdata s.chdat.hostByteCredit s.chdat.hostSendCredit 0 0 i.hostInterface
    s.chdat.clientInterface with ⟨hstate, hinforms⟩
  rw [hout] at hstate hinforms
  have htold : Counts i (i.told s out.mux out.informs) := by
    rw [hinforms]
    apply h.told hconfig
    rw [foldl_nil, h.refcount]
    rcases hstate with hsame | ⟨hnone, hopening⟩
    · rw [hsame]
    · rw [hnone, hopening]
      rfl
  by_cases hresult : out.result = .noError
  · simp only [if_pos hresult]
    exact htold.of_eq rfl rfl
  · simp only [if_neg hresult]
    exact htold.openFailed

theorem Counts.openEnd : Counts i (i.openEnd s) := by
  unfold Interface.openEnd
  split
  · exact h.of_eq rfl rfl
  · exact .openFailed (h.of_eq rfl rfl)

theorem Counts.closeStart : Counts i (i.closeStart s) := by
  unfold Interface.closeStart
  cases i.kind with
  | direct => exact h.of_eq rfl rfl
  | tty =>
    simp only
    split <;> exact h.of_eq rfl rfl

end

/-- The interface is told of a close that costs a reference, unless the channel is being opened or
flushed. -/
theorem references_afterDisable {st : Option ChannelState}
    (hopening : a = .hostEnd .command → st ≠ some .opening)
    (hflushing : a = .clientEnd .command → st ≠ some .flushing) :
    references (afterDisable a st).1 = references st - if (afterDisable a st).2 then 1 else 0 := by
  rcases a with kind | kind <;> cases kind <;> rcases st with _ | st <;> try cases st
  all_goals first
    | rfl
    | exact absurd rfl (hopening rfl)
    | exact absurd rfl (hflushing rfl)

section

variable (h : Counts i s) {host : UInt8}
include h

theorem Counts.disableChannel {client : UInt8}
    (hopening : a = .hostEnd .command → s.mux.stateOf i.channel ≠ some .opening)
    (hflushing : a = .clientEnd .command → s.mux.stateOf i.channel ≠ some .flushing)
    (hclient : (afterDisable a (s.mux.stateOf i.channel)).2 = true → client = i.hostInterface) :
    Counts i (i.told s (s.mux.disableChannel a i.channel host client).mux
      (s.mux.disableChannel a i.channel host client).informs) := by
  obtain ⟨hstate, hinforms⟩ := disableChannel_told h.channel_lt a host client
  apply h.told (disableChannel_change ..).config_eq
  rw [hinforms, hstate, references_afterDisable hopening hflushing, ← h.refcount]
  split
  · rename_i htold
    rw [hclient htold, foldl_cons, foldl_nil, inform_closed]
  · exact (UInt32.sub_zero _).symm

theorem Counts.disable (hst : s.mux.stateOf i.channel ≠ some .opening) :
    Counts i (i.told s (i.disable s).mux (i.disable s).informs) :=
  h.disableChannel (fun _ => hst) nofun nofun

theorem Counts.closeBusy (hst : s.mux.stateOf i.channel ≠ some .opening) :
    Counts i (i.closeBusy s) := by
  have htold := h.disable hst
  unfold Interface.closeBusy
  simp only
  split
  · exact htold.of_eq rfl rfl
  · exact htold

theorem Counts.configure (client : UInt8) (burst maxdata hb hs : UInt32) (created : Bool) :
    Counts i { s with chdat := s.chdat.configure client burst maxdata hb hs created } := by
  have hrefcount : (s.chdat.configure client burst maxdata hb hs created).refcount =
      s.chdat.refcount := by
    simp only [ChannelData.configure]
    split <;> rfl
  exact h.of_eq rfl hrefcount

theorem Counts.openResponse (success : Bool) (client : UInt8) (cb cs : UInt32)
    (hhost : s.mux.stateOf i.channel = some .opening → success = true → host = i.hostInterface)
    (hout : s.mux.enableChannel (.hostEnd (if success then .success else .failure)) i.channel
      0 0 host client 0 0 cb cs = out) : Counts i (i.told s out.mux out.informs) := by
  have hconfig : out.mux.config = s.mux.config := by
    rw [← hout]
    exact (enableChannel_change ..).config_eq
  apply h.told hconfig
  rcases enableChannel_response h.channel_lt success 0 0 0 0 cb cs host client hout with
    ⟨hopening, hstate, hinforms⟩ | ⟨hstate, hinforms⟩
  · have hzero : s.chdat.refcount = 0 := by
      rw [h.refcount, hopening]
      rfl
    rw [hinforms, hstate, foldl_cons, foldl_nil]
    cases success with
    | true =>
      rw [hhost hopening rfl]
      exact (inform_opened ..).trans (congrArg (· + 1) hzero)
    | false => exact (inform_refused ..).trans hzero
  · rw [hinforms, hstate]
    exact h.refcount

theorem Counts.disableMux (acktype : AckType)
    (hzero : s.mux.status = .active → s.chdat.refcount = 0) :
    Counts i (i.told s (s.mux.disableMux acktype).mux (s.mux.disableMux acktype).informs) := by
  rcases disableMux_told (m := s.mux) (c := i.channel) acktype with ⟨hstate, hinforms⟩
  have hquiet (x) (hx : x ∈ (s.mux.disableMux acktype).informs) : x.channel ≠ some i.channel := by
    rw [hinforms x hx]
    simp
  apply h.told_quiet (disableMux_change acktype).config_eq _ hquiet
  rcases hstate with hsame | ⟨hactive, hnone⟩
  · rw [hsame]
  · rw [hnone, ← h.refcount, hzero hactive]
    rfl

theorem Counts.foreign (hforeign : i.foreign op = true) (hout : s.mux.exec op = some out) :
    Counts i (i.told s out.mux out.informs) :=
  h.told_quiet (exec_change hout).config_eq
    (references_foreign (exec_change hout) hforeign) (informs_foreign hout hforeign)

theorem Counts.send {out : Mux × Option Message × List Inform}
    (hout : s.mux.sendStep result = some out) : Counts i (i.told s out.1 out.2.2) := by
  have hchange : SendChange s.mux out.1 out.2.1 := sendStep_change hout
  apply h.told_quiet hchange.config_eq (hchange.references_eq i.channel)
  intro x hx
  rw [sendStep_informs hout x hx]
  simp

end

end Steps

/-! ## Runs -/

theorem Counts.exec {s : State} {label : Label} (h : Counts i s) (hlabel : i.Accounted s label)
    (hstep : i.exec s label = some s') : Counts i s' := by
  cases label with
  | config client burst maxdata hb hs created =>
    cases hstep
    exact h.configure client burst maxdata hb hs created
  | openCheck =>
    cases hstep
    split
    · exact h.of_eq rfl rfl
    · exact h.openFailed
  | openEnable =>
    rcases ite_none_right_eq_some.mp hstep with ⟨-, ⟨⟩⟩
    exact .openEnable (h.of_eq rfl rfl)
  | openWake signal =>
    rcases ite_none_right_eq_some.mp hstep with ⟨-, ⟨⟩⟩
    exact .openEnd (h.of_eq rfl rfl)
  | close =>
    rcases ite_none_right_eq_some.mp hstep with ⟨-, ⟨⟩⟩
    exact .closeStart (h.of_eq rfl rfl)
  | closeCommand =>
    rcases ite_none_right_eq_some.mp hstep with ⟨-, ⟨⟩⟩
    exact (h.disable hlabel).of_eq rfl rfl
  | closeBusy =>
    rcases ite_none_right_eq_some.mp hstep with ⟨-, ⟨⟩⟩
    exact .closeBusy (h.of_eq rfl rfl) hlabel
  | closeReady =>
    rcases ite_none_right_eq_some.mp hstep with ⟨-, ⟨⟩⟩
    exact h.of_eq rfl rfl
  | openResponse success host client cb cs =>
    cases hstep
    exact h.openResponse success client cb cs hlabel rfl
  | remoteClose host client =>
    cases hstep
    exact h.disableChannel nofun (fun _ => hlabel.1) fun htold => hlabel.2 (of_decide_eq_true htold)
  | closeResponse host client =>
    cases hstep
    refine h.disableChannel nofun nofun fun htold => hlabel ?_
    revert htold
    unfold afterDisable
    split <;> simp_all
  | disableMux acktype =>
    cases hstep
    exact h.disableMux acktype hlabel
  | mux op =>
    rcases ite_none_right_eq_some.mp hstep with ⟨hforeign, heq⟩
    rcases map_eq_some_iff.mp heq with ⟨out, hout, rfl⟩
    exact h.foreign hforeign hout
  | send result =>
    rcases map_eq_some_iff.mp hstep with ⟨out, hout, rfl⟩
    exact h.send hout

theorem counts_of_reachable {s : State} (hs : i.system.ReachableUnder i.Accounted s) :
    Counts i s := by
  refine hs.invariant ?_ fun _ _ _ h hlabel hstep => h.exec hlabel hstep
  rintro s rfl
  exact ⟨rfl, rfl⟩

/-- What the count is for: it is zero or one, and a closed channel that nobody opens can
be opened. -/
structure Counted (i : Interface) (s : State) : Prop where
  bounded : s.chdat.refcount = 0 ∨ s.chdat.refcount = 1
  closed : s.mux.channels i.channel = none → s.waiting = 0 →
    s.chdat.refcount = 0 ∧ s.chdat.openCheck ≠ some .busy

theorem references_bounded (st : Option ChannelState) : references st = 0 ∨ references st = 1 := by
  cases st with
  | none => exact .inl rfl
  | some st => cases st <;> simp [references]

theorem openCheck_ne_busy {d : ChannelData} (hzero : d.refcount = 0) :
    d.openCheck ≠ some .busy := by
  unfold ChannelData.openCheck
  rw [hzero]
  split <;> simp

/-- In a run of accounted steps the reference count is zero or one, and zero for a closed
channel, so that an open of it is not refused as busy. -/
theorem refcount_counted {s : State} (hs : i.system.ReachableUnder i.Accounted s) :
    i.Counted s := by
  have hcounts := counts_of_reachable hs
  constructor
  · rw [hcounts.refcount]
    exact references_bounded _
  · intro hnone _
    have hzero : s.chdat.refcount = 0 := by
      rw [hcounts.refcount, stateOf_of_none hnone]
      rfl
    exact ⟨hzero, openCheck_ne_busy hzero⟩

/-- An interface with one channel, for runs on fixed inputs.  The interface of the other
side has the number 5. -/
def small (kind : InterfaceKind) : Interface where
  kind := kind
  hostInterface := 0
  channel := 0
  config := Config.small
  maxSendBuffers := 10
  registered := by decide
  channel_lt := by decide
  channel_byte := by decide

/-- The channel is configured and opened. -/
def openSteps : List Label :=
  [.config 5 100 100 100 10 true, .openCheck, .openEnable, .openResponse true 0 5 100 10,
    .openWake false]

/-- The file is written, closed and opened again. -/
theorem refcount_counted_reopened :
    (∃ s, (small .direct).system.ReachableUnder (small .direct).Accounted s ∧
      s.mux.stateOf 0 = none ∧ s.mux.chanlNum = 1 ∧ (small .direct).Counted s) ∧
    ∃ s, (small .tty).system.ReachableUnder (small .tty).Accounted s ∧
      s.mux.stateOf 0 = some .opened ∧ s.mux.chanlNum = 1 ∧ (small .tty).Counted s := by
  have hdirect : (small .direct).system.ReachableUnder (small .direct).Accounted
      (small .direct).start := .init rfl
  have htty : (small .tty).system.ReachableUnder (small .tty).Accounted
      (small .tty).start := .init rfl
  rcases hdirect.exists_observed (P := fun s : State => s.mux.stateOf 0 = none ∧ s.mux.chanlNum = 1)
    (openSteps ++ [.mux (.sendData 0 [1, 2] false), .close, .closeCommand, .send .success,
      .send .success, .send .success, .closeResponse 5 0])
    (by decide +kernel) with ⟨s, hs, hstate, hnum⟩
  rcases htty.exists_observed
    (P := fun s : State => s.mux.stateOf 0 = some .opened ∧ s.mux.chanlNum = 1)
    (openSteps ++ [.mux (.sendData 0 [1, 2] false), .close, .closeBusy, .send .success,
      .send .success, .send .success, .closeReady, .closeResponse 5 0] ++ openSteps)
    (by decide +kernel) with ⟨t, ht, hstate', hnum'⟩
  exact ⟨⟨s, hs, hstate, hnum, refcount_counted hs⟩, ⟨t, ht, hstate', hnum', refcount_counted ht⟩⟩

/-- The count stays one although the channel is closed and nobody opens it: after a remote
close while the channel is flushed, so that every later open is refused as busy, after the
MUX was disabled, and after a close response that crossed a close of the other side.  The
close of a terminal after an interrupted open makes the count wrap around. -/
theorem refcount_miscounted :
    (∃ s, (small .direct).system.Reachable s ∧ s.mux.stateOf 0 = none ∧ s.waiting = 0 ∧
      s.chdat.refcount = 1 ∧ s.chdat.openCheck = some .busy) ∧
    (∃ s, (small .direct).system.Reachable s ∧ s.mux.stateOf 0 = none ∧ s.waiting = 0 ∧
      s.chdat.refcount = 1 ∧ s.mux.status = .default) ∧
    (∃ s, (small .direct).system.Reachable s ∧ s.mux.stateOf 0 = none ∧ s.waiting = 0 ∧
      s.chdat.refcount = 1 ∧ s.due = 0) ∧
    ∃ s, (small .tty).system.Reachable s ∧ s.mux.stateOf 0 = none ∧ s.waiting = 0 ∧
      s.chdat.refcount = 0xFFFFFFFF ∧ s.chdat.openCheck = some .busy := by
  have hdirect : (small .direct).system.Reachable (small .direct).start := .start rfl
  have htty : (small .tty).system.Reachable (small .tty).start := .start rfl
  refine ⟨?_, ?_, ?_, ?_⟩
  · exact hdirect.exists_observed
      (openSteps ++ [.mux (.sendData 0 [1, 2] false), .close, .closeCommand, .remoteClose 5 0])
      (by decide +kernel)
  · exact hdirect.exists_observed
      (.mux (.enableMux (.clientEnd .command)) :: openSteps ++ [.disableMux (.clientEnd .command)])
      (by decide +kernel)
  · exact hdirect.exists_observed
      (openSteps ++ [.close, .closeCommand, .remoteClose 5 0, .closeResponse 0 5])
      (by decide +kernel)
  · -- the signal ends the wait, and the terminal layer closes the channel that still opens
    exact htty.exists_observed
      [.config 5 100 100 100 10 true, .openCheck, .openEnable, .openWake true, .close,
        .closeCommand, .closeResponse 5 0] (by decide +kernel)

end Interface

end LteModemKernel.NetMux
