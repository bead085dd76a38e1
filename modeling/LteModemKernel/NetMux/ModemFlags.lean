import LteModemKernel.NetMux.Network

/-!
# The modem flags of the tty channels

Both ends of a channel have a word of modem flags.  `TIOCMSET` changes it and tells the other end
with a signal, which has the old flags in its upper half and the changed bits in the lower one.
The lock of the interface is released before the signal is handed to `ChannelSignal`, so requests
at one end may overtake each other there.  `ReceiveCommand` takes the signal for the channel and
the channel for the signal, so the requests of one channel change the flags of another one.

Main results:

- Theorem `informSignal_eq`: the merge at the receiver is the sender's new value.
- Theorem `modemFlags_converge`: where every request sets the flags from 0 to the number of its
  channel, the ends agree whenever nothing is on its way.
- Theorem `modemFlags_diverge`: one other request leaves different flags.
-/

namespace LteModemKernel.NetMux

open Lib Function List

/-! ## Requests and signals -/

/-- The signal of a request: the old flags and the bits that it changes. -/
def signalWord (modemFlags xormask : UInt16) : UInt32 :=
  modemFlags.toUInt32 <<< 16 ||| xormask.toUInt32

/-- The branch `INFORM_INTERFACE_CHANNELSIGNAL` of `TTYInform`. -/
def informSignal (modemFlags : UInt16) (signal : UInt32) : UInt16 :=
  let signalMaskbase := (signal >>> 16).toUInt16
  let signalXormask := (signal &&& 0xFFFF).toUInt16
  let xormask := modemFlags ^^^ signalMaskbase ^^^ signalXormask
  modemFlags ^^^ xormask

/-- The flags that a signal stands for. -/
def carried (signal : UInt32) : UInt16 :=
  (signal >>> 16).toUInt16 ^^^ (signal &&& 0xFFFF).toUInt16

/-- The flags of the receiver cancel out. -/
theorem informSignal_eq (modemFlags : UInt16) (signal : UInt32) :
    informSignal modemFlags signal = carried signal := by
  simp only [informSignal, carried, UInt16.xor_assoc]
  rw [← UInt16.xor_assoc, UInt16.xor_self, UInt16.zero_xor]

theorem carried_channel : ∀ channel : UInt8, carried channel.toUInt32 = channel.toUInt16 := by
  decide +kernel

/-! ## The two ends -/

/-- The two ends of the tty channels and the signals between them, each with the channel that its
packet names.  The upper half of the member `modem_flags` stays 0. -/
structure FlagEnds where
  modemFlags : Side → UInt8 → UInt16
  /-- The signals that are not handed to `ChannelSignal` yet. -/
  computed : Side → List (UInt8 × UInt32)
  /-- The signals on the link to an end. -/
  toward : Side → List (UInt8 × UInt32)

/-- A step at an end. -/
inductive FlagStep where
  /-- `TIOCMSET`, as far as it holds the lock. -/
  | tiocmset (e : Side) (minor : UInt8) (newflags : UInt16)
  /-- The call of `ChannelSignal` for a request. -/
  | channelSignal (e : Side) (i : Nat)
  /-- A signal arrives. -/
  | inform (e : Side)
  deriving DecidableEq

namespace FlagEnds

/-- `TTY_DEFAULT_MODEM_FLAGS` at both ends. -/
def initial : FlagEnds := ⟨fun _ _ => 0, fun _ => [], fun _ => []⟩

def setFlags (s : FlagEnds) (e : Side) (channel : UInt8) (flags : UInt16) : FlagEnds :=
  { s with modemFlags := update s.modemFlags e (update (s.modemFlags e) channel flags) }

/-- The effect of a step, while all channels (at most 256) are open; no result where it cannot
happen, or where `ChannelSignal` reads behind the channels. -/
def exec (maxchannels : Nat) (s : FlagEnds) : FlagStep → Option FlagEnds
  | .tiocmset e minor newflags =>
    let xormask := newflags ^^^ s.modemFlags e minor
    some { s.setFlags e minor (s.modemFlags e minor ^^^ xormask) with
      computed := update s.computed e
        (s.computed e ++ [(minor, signalWord (s.modemFlags e minor) xormask)]) }
  | .channelSignal e i => (s.computed e)[i]?.map fun packet => { s with
      computed := update s.computed e ((s.computed e).eraseIdx i)
      toward := update s.toward e.peer (s.toward e.peer ++ [packet]) }
  | .inform e =>
    match s.toward e with
    | [] => none
    | packet :: rest =>
      match Message.op .reject
        (.control (.channelSignal (.clientEnd .command) packet.1 packet.2)) with
      | .channelSignal _ signal channel =>
        if channel < maxchannels then
          some { s.setFlags e (UInt8.ofNat channel)
              (informSignal (s.modemFlags e (UInt8.ofNat channel)) signal) with
            toward := update s.toward e rest }
        else none
      | _ => none

/-- No signal is on its way. -/
def Quiet (s : FlagEnds) : Prop := ∀ e, s.computed e = [] ∧ s.toward e = []

instance (s : FlagEnds) : Decidable s.Quiet := inferInstanceAs (Decidable (∀ _, _ ∧ _))

/-- A request sets the flags from 0 to the number of its channel. -/
def guard (s : FlagEnds) : FlagStep → Prop
  | .tiocmset e minor newflags => s.modemFlags e minor = 0 ∧ newflags = minor.toUInt16
  | _ => True

instance (s : FlagEnds) (l : FlagStep) : Decidable (s.guard l) := by
  cases l <;> unfold guard <;> infer_instance

/-- The signals that one end has for the other one. -/
def underway (s : FlagEnds) (e : Side) : List (UInt8 × UInt32) := s.computed e ++ s.toward e.peer

/-- Every end with the flags of a channel set has told the other one, or is about to. -/
structure Told (s : FlagEnds) : Prop where
  flags : ∀ e c, s.modemFlags e c = 0 ∨ s.modemFlags e c = c.toUInt16
  sent : ∀ e, ∀ p ∈ s.underway e, p.2 = p.1.toUInt32 ∧ s.modemFlags e p.1 = p.1.toUInt16
  told : ∀ e c, s.modemFlags e c = c.toUInt16 →
    s.modemFlags e.peer c = c.toUInt16 ∨ (c, c.toUInt32) ∈ s.underway e

end FlagEnds

/-- The system of the two ends. -/
def flagSystem (maxchannels : Nat) : TransitionSystem FlagEnds FlagStep where
  init s := s = FlagEnds.initial
  step s l s' := s.exec maxchannels l = some s'

namespace FlagEnds

variable {s s' : FlagEnds} {maxchannels : Nat}

/-- The flags of a channel are set at an end, which tells the other one or was told by it. -/
theorem Told.set (h : s.Told) {e : Side} {c : UInt8}
    (hflags : s'.modemFlags = (s.setFlags e c c.toUInt16).modemFlags)
    (hsent : ∀ e', ∀ p ∈ s'.underway e', p ∈ s.underway e' ∨ e' = e ∧ p = (c, c.toUInt32))
    (hkept : ∀ e', ∀ p ∈ s.underway e', p ∈ s'.underway e' ∨ e' = e.peer ∧ p.1 = c)
    (htold : s.modemFlags e.peer c = c.toUInt16 ∨ (c, c.toUInt32) ∈ s'.underway e) :
    s'.Told := by
  have hflags : ∀ e' c', s'.modemFlags e' c' =
      if e' = e ∧ c' = c then c.toUInt16 else s.modemFlags e' c' := by
    intro e' c'
    simp only [hflags, setFlags, update_apply]
    grind
  constructor
  · intro e' c'
    have hold := h.flags e' c'
    grind
  · intro e' p hp
    have hold := h.sent e' p
    grind
  · intro e' c' hc'
    have hold := h.told e' c'
    grind [Side.peer_peer]

theorem Told.tiocmset (h : s.Told) {e : Side} {minor : UInt8} {newflags : UInt16}
    (hguard : s.guard (.tiocmset e minor newflags))
    (hexec : s.exec maxchannels (.tiocmset e minor newflags) = some s') : s'.Told := by
  obtain ⟨hzero, rfl⟩ := hguard
  cases hexec
  have hword : signalWord 0 minor.toUInt16 = minor.toUInt32 := by simp [signalWord]
  simp only [hzero, UInt16.xor_zero, UInt16.zero_xor, hword]
  refine h.set (e := e) (c := minor) rfl ?_ ?_ ?_ <;>
    simp only [underway, setFlags, update_apply] <;> grind

theorem Told.channelSignal (h : s.Told) {e : Side} {i : Nat}
    (hexec : s.exec maxchannels (.channelSignal e i) = some s') : s'.Told := by
  obtain ⟨packet, hpacket, rfl⟩ := Option.map_eq_some_iff.mp hexec
  obtain ⟨hi, rfl⟩ := List.getElem?_eq_some_iff.mp hpacket
  have hunderway : ∀ e' p, p ∈ (FlagEnds.mk s.modemFlags
      (update s.computed e ((s.computed e).eraseIdx i))
      (update s.toward e.peer (s.toward e.peer ++ [(s.computed e)[i]]))).underway e' ↔
        p ∈ s.underway e' := by
    intro e' p
    simp only [underway, update_apply, mem_append]
    have herase := (getElem_cons_eraseIdx_perm hi).mem_iff (a := p)
    grind [Side.peer_peer]
  refine ⟨h.flags, ?_, ?_⟩
  · intro e' p hp
    exact h.sent e' p ((hunderway e' p).mp hp)
  · intro e' c hc
    exact (h.told e' c hc).imp_right (hunderway e' _).mpr

theorem Told.inform (h : s.Told) {e : Side} (hexec : s.exec maxchannels (.inform e) = some s') :
    s'.Told := by
  simp only [exec, Message.op] at hexec
  split at hexec
  · cases hexec
  · rename_i packet rest htoward
    obtain ⟨c, w⟩ := packet
    have hmem : (c, w) ∈ s.underway e.peer := by simp [underway, htoward]
    obtain ⟨hw, hset⟩ := h.sent e.peer _ hmem
    obtain rfl : w = c.toUInt32 := hw
    have hchannel : UInt8.ofNat c.toUInt32.toNat = c := by simp
    have hword : UInt32.ofNat c.toNat = c.toUInt32 := by simp
    simp only [hchannel, informSignal_eq, hword, carried_channel] at hexec
    split at hexec
    · cases hexec
      refine h.set (e := e) (c := c) rfl ?_ ?_ (.inl hset) <;>
        simp only [underway, setFlags, update_apply] <;> grind [Side.peer_peer]
    · cases hexec

end FlagEnds

/-- Where the requests meet the guard, both ends of every channel have the same flags whenever no
signal is on its way. -/
theorem modemFlags_converge {maxchannels : Nat} {s : FlagEnds}
    (hs : (flagSystem maxchannels).ReachableUnder FlagEnds.guard s) (hquiet : s.Quiet)
    (channel : UInt8) : s.modemFlags .a channel = s.modemFlags .b channel := by
  have h : s.Told := hs.invariant
    (by rintro _ rfl; exact ⟨fun _ _ => .inl rfl, nofun, fun _ _ h => .inl h⟩)
    (fun _ l _ h hguard hexec => by
      cases l with
      | tiocmset => exact h.tiocmset hguard hexec
      | channelSignal => exact h.channelSignal hexec
      | inform => exact h.inform hexec)
  have htold : ∀ e, s.modemFlags e channel = channel.toUInt16 →
      s.modemFlags e.peer channel = channel.toUInt16 := by
    intro e he
    refine (h.told e channel he).resolve_right ?_
    simp [FlagEnds.underway, (hquiet e).1, (hquiet e.peer).2]
  rcases h.flags .a channel with ha | ha
  · rcases h.flags .b channel with hb | hb
    · rw [ha, hb]
    · rw [hb, ← htold .b hb]
      rfl
  · rw [ha, ← htold .a ha]
    rfl

/-- A request for channel 1 at each end; the signals cross. -/
theorem modemFlags_converge_crossing :
    ∃ s, (flagSystem 2).ReachableUnder FlagEnds.guard s ∧ s.Quiet ∧ s.modemFlags .a 1 = 1 ∧
      s.modemFlags .a 1 = s.modemFlags .b 1 := by
  have h0 : (flagSystem 2).ReachableUnder FlagEnds.guard .initial := .init rfl
  obtain ⟨s, hs, hquiet, hflags⟩ := h0.exists_observed
    (P := fun s => s.Quiet ∧ s.modemFlags .a 1 = 1)
    [.tiocmset .a 1 1, .channelSignal .a 0, .tiocmset .b 1 1, .channelSignal .b 0, .inform .a,
      .inform .b] (by decide)
  exact ⟨s, hs, hquiet, hflags, modemFlags_converge hs hquiet 1⟩

/-- A request that sets 2 on channel 1 arrives as signal 1 of channel 2. -/
theorem modemFlags_diverge :
    ∃ s, (flagSystem 3).Reachable s ∧ s.Quiet ∧ s.modemFlags .a 1 = 2 ∧ s.modemFlags .b 1 = 0 ∧
      s.modemFlags .a 2 = 0 ∧ s.modemFlags .b 2 = 1 := by
  have h0 : (flagSystem 3).Reachable .initial := .start rfl
  exact h0.exists_observed [.tiocmset .a 1 2, .channelSignal .a 0, .inform .b] (by decide)

end LteModemKernel.NetMux
