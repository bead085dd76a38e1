import LteModemKernel.NetMux.Network

/-!
# The open and close handshake

An end that opens a channel waits in the state `OPENING` for the response, an end
that closes it waits in `LOCAL_CLOSING`.  What an end waits for is a packet: an opening end has its
open command or the response on the way, a closing end has its close command or the response on the
way, or its peer waits for its own interface in `REMOTE_CLOSING`.

This is kept by every step of the two ends, apart from two: an accepted open that
finds the channel already in use, and a close command that finds the channel still
opening, are not answered.

Main results:

- Theorem `handshake_not_stuck`: no end waits for a packet that is not on the way,
  except for a peer that has not closed locally yet.
- Theorem `handshake_waits_for_interface`: the exception is reached.
-/

namespace LteModemKernel.NetMux

open Lib Function List Option Mux Net Op

/-! ## The packets of the handshake -/

/-- The roles of control packets in the handshake of a channel. -/
inductive HandshakeKind where
  | openCommand
  | openResponse
  | closeCommand
  | closeResponse
  deriving DecidableEq, Repr

/-- The role of a control packet for channel `c`. -/
def ControlPacket.handshake (c : Nat) : ControlPacket → Option HandshakeKind
  | .enableChannel acktype channel .. =>
    if channel.toNat = c then
      match acktype with
      | .clientEnd .command => some .openCommand
      | .hostEnd .success => some .openResponse
      | .hostEnd .failure => some .openResponse
      | _ => none
    else none
  | .disableChannel acktype channel .. =>
    if channel.toNat = c then
      match acktype with
      | .clientEnd .command => some .closeCommand
      | .hostEnd .success => some .closeResponse
      | _ => none
    else none
  | _ => none

/-- The role of a message for channel `c`. -/
def Message.handshake (c : Nat) : Message → Option HandshakeKind
  | .data _ => none
  | .control p => p.handshake c

/-- One of some messages has a role for channel `c`. -/
def Sent (c : Nat) (kind : HandshakeKind) (ms : List Message) : Prop :=
  ∃ m ∈ ms, m.handshake c = some kind

variable {kind : HandshakeKind} {ms ms' : List Message}

theorem sent_append {c : Nat} : Sent c kind (ms ++ ms') ↔ Sent c kind ms ∨ Sent c kind ms' := by
  simp [Sent, or_and_right, exists_or]

/-- No end is told to disable its MUX. -/
def Quiet (ms : List Message) : Prop :=
  ∀ m ∈ ms, ∀ a, m ≠ .control (.disableMux a)

/-- The state of a channel, nothing if it is closed. -/
def Mux.stateOf (m : Mux) (c : Nat) : Option ChannelState :=
  (m.channels c).map Channel.state

/-! ## The invariant -/

/-- What an end waits for is on the way. -/
structure Awaited (c : Nat) (n : Net) (s : Side) : Prop where
  opening : (n.mux s).stateOf c = some .opening →
    Sent c .openCommand (n.outgoing s) ∨ Sent c .openResponse (n.outgoing s.peer)
  closing : (n.mux s).stateOf c = some .localClosing →
    (Sent c .closeCommand (n.outgoing s) ∨ Sent c .closeResponse (n.outgoing s.peer)) ∨
      (n.mux s.peer).stateOf c = some .remoteClosing

/-- What one end does to channel `c`: the role of the message it handles, the states
before and after, and the packets it queues.  Waiting is started by a command or goes on,
and commands are answered. -/
structure HandshakeStep (c : Nat) (handled : Option HandshakeKind)
    (before after : Option ChannelState) (queued : List ControlPacket) : Prop where
  opening : after = some .opening →
    (before = some .opening ∧ handled ≠ some .openResponse) ∨
      Sent c .openCommand (queued.map .control)
  closing : after = some .localClosing →
    (before = some .localClosing ∧ handled ≠ some .closeResponse) ∨
      Sent c .closeCommand (queued.map .control)
  openAnswered : handled = some .openCommand → Sent c .openResponse (queued.map .control)
  closeAnswered : handled = some .closeCommand ∨ before = some .remoteClosing →
    Sent c .closeResponse (queued.map .control) ∨ after = some .remoteClosing

/-- The messages a net has on the way, after a step of one end that handles the messages
`handled` and queues `queued`. -/
structure NetStep (c : Nat) (s : Side) (n n' : Net) (handled : Option HandshakeKind)
    (queued : List ControlPacket) : Prop where
  peer_mux : n'.mux s.peer = n.mux s.peer
  own : ∀ kind, Sent c kind (n.outgoing s) ∨ Sent c kind (queued.map .control) →
    Sent c kind (n'.outgoing s)
  other : ∀ kind, handled ≠ some kind → Sent c kind (n.outgoing s.peer) →
    Sent c kind (n'.outgoing s.peer)

variable {handled : Option HandshakeKind} {m m' : Mux} {c i : Nat} {ch : Channel} {n n' : Net}
  {x : Option Channel}

/-- A step of one end keeps what both ends wait for. -/
theorem Awaited.step {s : Side} {queued : List ControlPacket} (h : ∀ t, Awaited c n t)
    (hnet : NetStep c s n n' handled queued)
    (hstep : HandshakeStep c handled ((n.mux s).stateOf c) ((n'.mux s).stateOf c) queued)
    (t : Side) : Awaited c n' t := by
  rcases Side.eq_or_eq_peer s t with rfl | rfl
  · -- the end that made the step
    constructor
    · intro hafter
      rcases hstep.opening hafter with ⟨hbefore, hhandled⟩ | hqueued
      · exact ((h t).opening hbefore).imp (hnet.own _ <| .inl ·) (hnet.other _ hhandled)
      · exact .inl (hnet.own _ (.inr hqueued))
    · intro hafter
      rw [hnet.peer_mux]
      rcases hstep.closing hafter with ⟨hbefore, hhandled⟩ | hqueued
      · exact ((h t).closing hbefore).imp_left
          (.imp (hnet.own _ <| .inl ·) (hnet.other _ hhandled))
      · exact .inl (.inl (hnet.own _ (.inr hqueued)))
  · -- its peer, which may have lost a command to this step
    constructor
    · intro hstate
      rw [hnet.peer_mux] at hstate
      have hold := (h s.peer).opening hstate
      rw [Side.peer_peer] at hold ⊢
      by_cases hhandled : handled = some .openCommand
      · exact .inr (hnet.own _ (.inr (hstep.openAnswered hhandled)))
      · exact hold.imp (hnet.other _ hhandled) (hnet.own _ <| .inl ·)
    · intro hstate
      rw [hnet.peer_mux] at hstate
      have hold := (h s.peer).closing hstate
      rw [Side.peer_peer] at hold ⊢
      by_cases hcase : handled = some .closeCommand ∨ (n.mux s).stateOf c = some .remoteClosing
      · exact (hstep.closeAnswered hcase).imp_left fun hanswer =>
          .inr (hnet.own _ (.inr hanswer))
      · have hhandled : handled ≠ some .closeCommand := fun h => hcase (.inl h)
        rcases hold with hold | hold
        · exact .inl (hold.imp (hnet.other _ hhandled) (hnet.own _ <| .inl ·))
        · exact absurd (.inr hold) hcase

/-! ## The operations -/

/-- The role, for channel `c`, of the message that an operation handles. -/
def Op.handshake (c : Nat) : Op → Option HandshakeKind
  | .enableChannel (.clientEnd .command) i .. => if i = c then some .openCommand else none
  | .enableChannel (.clientEnd .failure) i .. => if i = c then some .openCommand else none
  | .enableChannel (.hostEnd .success) i .. => if i = c then some .openResponse else none
  | .enableChannel (.hostEnd .failure) i .. => if i = c then some .openResponse else none
  | .disableChannel (.clientEnd .command) i .. => if i = c then some .closeCommand else none
  | .disableChannel (.hostEnd .success) i .. => if i = c then some .closeResponse else none
  | _ => none

/-- The operations on channel `c` that are answered: an accepted open finds the
channel closed and its interface registered, a close command does not find it opening. -/
def OpAnswered (c : Nat) (m : Mux) : Op → Prop
  | .enableChannel (.clientEnd .command) i _ _ _ client .. =>
    i = c → m.channels c = none ∧ m.config.connects client = true
  | .disableChannel (.clientEnd .command) i .. => i = c → m.stateOf c ≠ some .opening
  | _ => True

theorem Mux.stateOf_of_update (h : m'.channels = update m.channels i x) (c : Nat) :
    m'.stateOf c = if c = i then x.map Channel.state else m.stateOf c := by
  by_cases hc : c = i
  · subst hc
    rw [stateOf, h, update_self, if_pos rfl]
  · rw [stateOf, h, update_of_ne hc, if_neg hc, stateOf]

theorem Mux.stateOf_of_some (h : m.channels c = some ch) : m.stateOf c = some ch.state := by
  rw [stateOf, h, map_some]

theorem Mux.stateOf_of_none (h : m.channels c = none) : m.stateOf c = none := by
  rw [stateOf, h, map_none]

theorem sent_singleton {p : ControlPacket} (h : p.handshake c = some kind) :
    Sent c kind ([p].map .control) :=
  ⟨_, mem_singleton_self _, h⟩

theorem HandshakeStep.same {st : Option ChannelState} (ps : List ControlPacket) :
    HandshakeStep c none st st ps where
  opening := fun h => .inl ⟨h, by simp⟩
  closing := fun h => .inl ⟨h, by simp⟩
  openAnswered := by simp
  closeAnswered := fun h => .inr (by simpa using h)

variable {ps : List ControlPacket} {before after : Option ChannelState}

/-- A channel that neither opens nor waits for a close response afterwards. -/
theorem HandshakeStep.settled (hopening : after ≠ some .opening)
    (hclosing : after ≠ some .localClosing)
    (hopen : handled = some .openCommand → Sent c .openResponse (ps.map .control))
    (hclose : handled = some .closeCommand ∨ before = some .remoteClosing →
      Sent c .closeResponse (ps.map .control) ∨ after = some .remoteClosing) :
    HandshakeStep c handled before after ps :=
  ⟨(absurd · hopening), (absurd · hclosing), hopen, hclose⟩

theorem HandshakeStep.of_update (hchannels : m'.channels = update m.channels i x)
    (hself : c = i → HandshakeStep c handled (m.stateOf c) (x.map Channel.state) ps)
    (hother : c ≠ i → handled = none) :
    HandshakeStep c handled (m.stateOf c) (m'.stateOf c) ps := by
  rw [stateOf_of_update hchannels]
  by_cases hc : c = i
  · rw [if_pos hc]
    exact hself hc
  · rw [if_neg hc, hother hc]
    exact .same ps

/-- Storing a channel object in the state it was in keeps all states. -/
theorem HandshakeStep.keep {ch' : Channel} (hch : m.channels i = some ch)
    (hchannels : m'.channels = update m.channels i (some ch')) (hstate : ch'.state = ch.state) :
    HandshakeStep c none (m.stateOf c) (m'.stateOf c) ps := by
  apply HandshakeStep.of_update hchannels
  · intro hc
    have hbefore : m.stateOf c = (some ch').map Channel.state := by
      rw [hc, stateOf, hch, map_some, map_some, hstate]
    rw [hbefore]
    exact .same ps
  · intro _
    rfl

variable {st st' : ChannelState} {op : Op} {ci : UInt8}

theorem Moves.quiet {a : AckType} {hi : UInt8} (h : Moves c hi ci a st st' ps) :
    Quiet (ps.map .control) := by
  cases h <;> simp [Quiet]

theorem Closes.quiet (h : Closes c op st ps) : Quiet (ps.map .control) := by
  cases h <;> simp [Quiet]

theorem Closes.handshake_of_ne (hi : c ≠ i) (h : Closes i op st ps) : op.handshake c = none := by
  cases h <;> simp [handshake, Ne.symm hi]

theorem handshake_enableChannel (hc : c < 256) (a : AckType) (hi ci : UInt8) (b s : UInt32) :
    ControlPacket.handshake c (.enableChannel a (UInt8.ofNat c) hi ci b s) =
      match a with
      | .clientEnd .command => some .openCommand
      | .hostEnd .success => some .openResponse
      | .hostEnd .failure => some .openResponse
      | _ => none := by
  simp [ControlPacket.handshake, UInt8.toNat_ofNat_of_lt' hc]

theorem handshake_disableChannel (hc : c < 256) (a : AckType) (hi ci : UInt8) :
    ControlPacket.handshake c (.disableChannel a (UInt8.ofNat c) hi ci) =
      match a with
      | .clientEnd .command => some .closeCommand
      | .hostEnd .success => some .closeResponse
      | _ => none := by
  simp [ControlPacket.handshake, UInt8.toNat_ofNat_of_lt' hc]

/-- The transitions between two states, seen from the handshake. -/
theorem Moves.handshake {a : AckType} {hi : UInt8} (h : Moves c hi ci a st st' ps) (hc : c < 256)
    (hopening : a = .clientEnd .command → st ≠ .opening) :
    HandshakeStep c ((Op.disableChannel a c hi ci).handshake c) (some st) (some st') ps := by
  cases h with
  | closeOpening | closeOpened =>
    exact ⟨by simp, fun _ => .inr (sent_singleton (handshake_disableChannel hc ..)),
      by simp [handshake], by simp [handshake]⟩
  | flush => constructor <;> simp [handshake]
  | remoteClose =>
    exact .settled (by simp) (by simp) (by simp [handshake])
      (fun _ => .inr rfl)
  | remoteCrossed =>
    exact ⟨by simp, fun _ => .inl ⟨rfl, by simp [handshake]⟩, by simp [handshake],
      fun _ => .inl (sent_singleton (handshake_disableChannel hc ..))⟩
  | refused hrefuse =>
    match a with
    | .hostEnd .command => exact .same []
    | .hostEnd .success =>
      have hne : st ≠ .localClosing := hrefuse
      exact ⟨fun h => .inl ⟨h, by simp [handshake]⟩,
        fun h => absurd (some.inj h) hne, by simp [handshake],
        fun h => .inr (by simpa [handshake] using h)⟩
    | .clientEnd .command =>
      obtain rfl : st = .remoteClosing := hrefuse.resolve_left (hopening rfl)
      exact .settled (by simp) (by simp) (by simp [handshake])
        (fun _ => .inr rfl)
    | .hostEnd .failure | .clientEnd .success | .clientEnd .failure => exact hrefuse.elim

/-- The transitions that close a channel, seen from the handshake. -/
theorem Closes.handshake (h : Closes c op st ps) (hc : c < 256) :
    HandshakeStep c (op.handshake c) (some st) none ps := by
  cases h with
  | openFailure | closeConfirmed => constructor <;> simp [handshake]
  | closeAnswered | remoteFlushed =>
    exact .settled (by simp) (by simp) (by simp [handshake])
      (fun _ => .inl (sent_singleton (handshake_disableChannel hc ..)))

theorem Op.handshake_of_ne (hi : c ≠ i) (a : AckType) :
    (∀ burst maxData hb hs cb cs h k,
      (Op.enableChannel a i burst maxData h k hb hs cb cs).handshake c = none) ∧
    (∀ h k, (Op.disableChannel a i h k).handshake c = none) := by
  have hne : ¬ i = c := fun h => hi h.symm
  cases a with
  | hostEnd kind | clientEnd kind => cases kind <;> simp [handshake, hne]

theorem handshake_stutter (h : MayStutter m op) (hc : c < m.config.maxchannels)
    (hanswered : OpAnswered c m op) :
    HandshakeStep c (op.handshake c) (m.stateOf c) (m.stateOf c) [] := by
  have hnc : ¬ m.config.maxchannels ≤ c := Nat.not_le_of_lt hc
  cases op with
  | enableChannel a i burst maxData hi ci hb hs cb cs =>
    by_cases hic : c = i
    · subst hic
      match a with
      | .hostEnd .success | .hostEnd .failure =>
        have hne : m.stateOf c ≠ some .opening := by
          intro hst
          rcases map_eq_some_iff.mp hst with ⟨ch, hch, hstate⟩
          exact h.resolve_left hnc ch hch hstate
        exact ⟨fun h => absurd h hne, fun h => .inl ⟨h, by simp [handshake]⟩,
          by simp [handshake], fun h => .inr (by simpa [handshake] using h)⟩
      | .clientEnd .command =>
        rcases hanswered rfl with ⟨hnone, hconnects⟩
        rcases h with hle | hsome | hfalse
        · exact absurd hle hnc
        · exact absurd hnone hsome
        · cases hconnects.symm.trans hfalse
      | .hostEnd .command | .clientEnd .success => exact .same []
      | .clientEnd .failure => exact h.elim
    · rw [(handshake_of_ne hic a).1]
      exact .same []
  | disableChannel a i hi ci =>
    by_cases hic : c = i
    · subst hic
      match a with
      | .hostEnd .success =>
        rw [stateOf_of_none (h.resolve_left hnc)]
        constructor <;> simp [handshake]
      | .clientEnd .command => exact absurd h hnc
      | .hostEnd .command | .hostEnd .failure | .clientEnd .success | .clientEnd .failure =>
        exact .same []
    · rw [(handshake_of_ne hic a).2]
      exact .same []
  | _ => exact .same []

/-- The packets an operation queues and its part in the handshake. -/
theorem Change.handshake (h : Change m op m') (hc : c < m.config.maxchannels)
    (hbyte : m.config.maxchannels ≤ 256) (hanswered : OpAnswered c m op)
    (hmux : ∀ a, op ≠ .disableMux a) (htransmit : ∀ p, op ≠ .transmit p) :
    ∃ ps, m'.sendQueue = m.sendQueue ++ ps ∧ Quiet (ps.map .control) ∧
      HandshakeStep c (op.handshake c) (m.stateOf c) (m'.stateOf c) ps := by
  have hc256 : c < 256 := Nat.lt_of_lt_of_le hc hbyte
  cases h with
  | stutter hstutter =>
    exact ⟨[], (append_nil _).symm, by simp [Quiet], handshake_stutter hstutter hc hanswered⟩
  | status st | creditAdded _ | bufferFreed _ =>
    exact ⟨[], (append_nil _).symm, by simp [Quiet], .same []⟩
  | @queued _ p st hqueues =>
    refine ⟨[p], rfl, ?_, ?_⟩
    · cases hqueues with
      | transmit => exact absurd rfl (htransmit p)
      | _ => simp [Quiet]
    · have hstate : ({ m with status := st }.transmit p).stateOf c = m.stateOf c := rfl
      rw [hstate]
      cases hqueues with
      | @rejected i burst maxData hb hs cb cs hi ci =>
        by_cases hic : c = i
        · subst hic
          exact ⟨fun h => .inl ⟨h, by simp [handshake]⟩,
            fun h => .inl ⟨h, by simp [handshake]⟩,
            fun _ => sent_singleton (handshake_enableChannel hc256 ..),
            fun h => .inr (by simpa [handshake] using h)⟩
        · rw [(handshake_of_ne hic _).1]
          exact .same _
      | @closedAnswer i hi ci hnone =>
        by_cases hic : c = i
        · subst hic
          rw [stateOf_of_none hnone]
          exact .settled (by simp) (by simp) (by simp [handshake])
            (fun _ => .inl (sent_singleton (handshake_disableChannel hc256 ..)))
        · rw [(handshake_of_ne hic _).2]
          exact .same _
      | transmit => exact absurd rfl (htransmit p)
      | _ => exact .same _
  | muxDisabledHost _ | muxDisabledClient _ => exact absurd rfl (hmux _)
  | @localOpen i burst maxData hb hs cb cs hi ci hlt hch =>
    refine ⟨_, rfl, by simp [Quiet], .of_update rfl ?_ fun hic => (handshake_of_ne hic _).1 ..⟩
    rintro rfl
    exact ⟨fun _ => .inr (sent_singleton (handshake_enableChannel hc256 ..)),
      by simp [newChannel], by simp [handshake], by simp [handshake, stateOf, hch]⟩
  | @openSuccess i burst maxData hb hs cb cs hi ci ch hlt hch hst =>
    refine ⟨[], (append_nil _).symm, by simp [Quiet],
      .of_update rfl ?_ fun hic => (handshake_of_ne hic _).1 ..⟩
    rintro rfl
    refine .settled (by simp) (by simp) (by simp [handshake]) ?_
    simp [handshake, stateOf, hch, hst]
  | @remoteOpen i burst maxData hb hs cb cs hi ci hlt hch =>
    refine ⟨_, rfl, by simp [Quiet], .of_update rfl ?_ fun hic => (handshake_of_ne hic _).1 ..⟩
    rintro rfl
    exact .settled (by simp [newChannel]) (by simp [newChannel])
      (fun _ => sent_singleton (handshake_enableChannel hc256 ..))
      (by simp [handshake, stateOf, hch])
  | @moved a i hi ci ch s ps hlt hch hmove =>
    rw [transmitAll_eq]
    refine ⟨ps, rfl, hmove.quiet, .of_update rfl ?_ fun hic => (handshake_of_ne hic _).2 ..⟩
    rintro rfl
    have hbefore := stateOf_of_some hch
    rw [hbefore]
    apply hmove.handshake hc256
    rintro rfl hst
    exact hanswered rfl (hst ▸ hbefore)
  | @closed _ i ch ps hlt hch hclose =>
    rw [transmitAll_eq]
    refine ⟨ps, rfl, hclose.quiet, .of_update rfl ?_ fun hic => hclose.handshake_of_ne hic⟩
    rintro rfl
    rw [stateOf_of_some hch]
    exact hclose.handshake hc256
  | @purged i hi ci ch hlt hch hst =>
    refine ⟨[], (append_nil _).symm, by simp [Quiet],
      .of_update rfl ?_ fun hic => (handshake_of_ne hic _).2 ..⟩
    rintro rfl
    exact .settled (by simp [Channel.moved]) (by simp [Channel.moved]) (by simp [handshake])
      (fun _ => .inr rfl)
  | @dataQueued i buffer piece rest split ch hlt hpiece =>
    rcases sendPiece_ok hpiece with ⟨hch, hst, -⟩
    rw [queuePiece_eq hst]
    refine ⟨[], (append_nil _).symm, by simp [Quiet], .of_update rfl ?_ fun _ => rfl⟩
    rintro rfl
    refine .settled (by simp [queuedChannel]) (by simp [queuedChannel]) (by simp [handshake]) ?_
    rcases hst with hst | hst <;> simp [handshake, stateOf, hch, hst]
  | @dataReceived d ch hlt hch | dataRead hch _ _ | dataSplit hch _ _ | dataForwarded hch _
  | dataDiscarded hch _ =>
    exact ⟨[], (append_nil _).symm, by simp [Quiet], .keep hch rfl rfl⟩
  | released _ hm' =>
    rcases commBuffReleased_cases hm' with ⟨-, sendCredit, rfl | rfl⟩
    · exact ⟨[], (append_nil _).symm, by simp [Quiet], .same []⟩
    · exact ⟨_, rfl, by simp [Quiet], .same _⟩

/-! ## Runs -/

/-- The condition for channel `c`: what is accepted is not too long, an accepted open
finds the channel closed, and a close command does not find it opening. -/
def HandshakeSafe (c : Nat) (n : Net) : NetAction → Prop
  | .call s op => ShortPiece (n.mux s) op
  | .send _ _ => True
  | .dispatch s decision =>
    match n.flight s.peer with
    | [] => True
    | message :: _ => OpAnswered c (n.mux s) (message.op decision)

instance (m : Mux) (op : Op) : Decidable (OpAnswered c m op) := by
  apply @Op.casesOn _ op <;> intro a <;> intros <;> unfold OpAnswered <;>
    first
    | infer_instance
    | (apply @AckType.casesOn _ a <;> intro k <;> apply @AckKind.casesOn _ k <;> infer_instance)

instance (n : Net) (a : NetAction) : Decidable (HandshakeSafe c n a) := by
  apply @NetAction.casesOn _ a <;> intro s _ <;> unfold HandshakeSafe
  · infer_instance
  · infer_instance
  · dsimp only
    generalize n.flight s.peer = flight
    apply @List.casesOn _ _ flight <;> intros <;> infer_instance

/-- The invariant of the handshake of channel `c`. -/
structure HandshakeInv (c : Nat) (n : Net) : Prop where
  sizes : Sizes n
  inRange : c < (n.mux .a).config.maxchannels
  awaited : ∀ s, Awaited c n s
  quiet : ∀ s, Quiet (n.outgoing s)

/-- The role of a message is that of the operation it leads to, if it has one. -/
theorem Message.handshake_op (c : Nat) (decision : Decision) (m : Message) :
    m.handshake c = (m.op decision).handshake c ∨ m.handshake c = none := by
  cases m with
  | data d => exact .inl rfl
  | control p =>
    cases p with
    | enableChannel acktype channel host client bytecredit sendcredit =>
      match acktype with
      | .hostEnd kind =>
        cases kind <;>
          simp [Message.handshake, ControlPacket.handshake, Message.op, Op.handshake]
      | .clientEnd .command => cases decision <;> exact .inl rfl
      | .clientEnd .success | .clientEnd .failure =>
        simp [Message.handshake, ControlPacket.handshake]
    | disableChannel acktype channel host client =>
      cases acktype with
      | hostEnd kind | clientEnd kind =>
        cases kind <;>
          simp [Message.handshake, ControlPacket.handshake, Message.op, Op.handshake]
    | _ => exact .inl rfl

theorem HandshakeStep.forget (h : HandshakeStep c handled before after ps) :
    HandshakeStep c none before after ps where
  opening := fun hafter => (h.opening hafter).imp_left fun hbefore => ⟨hbefore.1, nofun⟩
  closing := fun hafter => (h.closing hafter).imp_left fun hbefore => ⟨hbefore.1, nofun⟩
  openAnswered := nofun
  closeAnswered := fun hcase => h.closeAnswered (.inr (by simpa using hcase))

theorem Op.isCall_handshake (h : op.isCall = true) (m : Mux) :
    op.handshake c = none ∧ OpAnswered c m op ∧ (∀ a, op ≠ .disableMux a) ∧
      ∀ p, op ≠ .transmit p := by
  cases op with
  | enableChannel a i burst maxData hi ci hb hs cb cs | disableChannel a i hi ci =>
    match a with
    | .hostEnd .command => exact ⟨rfl, trivial, by simp, by simp⟩
    | .hostEnd .success | .hostEnd .failure | .clientEnd _ => cases h
  | enableMux a | disableMux a | transmit p => cases h
  | _ => exact ⟨rfl, trivial, by simp, by simp⟩

theorem Message.op_quiet {message : Message} (h : ∀ a, message ≠ .control (.disableMux a))
    (decision : Decision) :
    (∀ a, message.op decision ≠ .disableMux a) ∧ ∀ p, message.op decision ≠ .transmit p := by
  cases message with
  | data d => simp [Message.op]
  | control p =>
    cases p with
    | enableChannel acktype channel host client bytecredit sendcredit =>
      match acktype with
      | .clientEnd .command => cases decision <;> simp [Message.op]
      | .hostEnd _ | .clientEnd .success | .clientEnd .failure => simp [Message.op]
    | disableMux a => exact absurd rfl (h a)
    | _ => simp [Message.op]

theorem Quiet.append (h : Quiet ms) (h' : Quiet ms') : Quiet (ms ++ ms') :=
  forall_mem_append.mpr ⟨h, h'⟩

/-- How the end of a transmission looks from the handshake: a flushed channel starts to
close. -/
theorem Finishes.handshake (h : Finishes c ch st ps) (hc : c < 256) :
    HandshakeStep c none (some ch.state) (some st) ps := by
  cases h with
  | more _ => exact .same []
  | sending _ hst =>
    rw [hst]
    constructor <;> simp
  | flushing _ hst =>
    rw [hst]
    exact ⟨by simp, fun _ => .inr (sent_singleton (handshake_disableChannel hc ..)),
      by simp, by simp⟩

theorem Finishes.quiet (h : Finishes i ch st ps) : Quiet (ps.map .control) := by
  cases h <;> simp [Quiet]

/-- What a step of the send task puts on the way, and its part in the handshake.  A
control packet only moves from the queue to the link. -/
theorem SendChange.handshake {sent : Option Message} (h : SendChange m m' sent) (hc : c < 256) :
    ∃ ps, (∀ kind, Sent c kind (m.sendQueue.map .control) ∨ Sent c kind (ps.map .control) →
        Sent c kind (sent.toList ++ m'.sendQueue.map .control)) ∧
      (Quiet (m.sendQueue.map .control) → Quiet (sent.toList ++ m'.sendQueue.map .control)) ∧
      HandshakeStep c none (m.stateOf c) (m'.stateOf c) ps := by
  have hnil : ∀ {kind}, ¬Sent c kind [] := by simp [Sent]
  cases h with
  | idle _ _ => exact ⟨[], fun _ h => h.resolve_right hnil, id, .same []⟩
  | @control p rest hqueue =>
    rw [hqueue]
    exact ⟨[], fun _ h => h.resolve_right hnil, id, .same []⟩
  | @data i ch front rest st ps run hlt hch hst hqueue hfits hfinish =>
    rw [transmitAll_eq]
    refine ⟨ps, ?_, ?_, ?_⟩
    · intro kind hkind
      rw [setChannel_sendQueue, map_append, sent_append, sent_append]
      exact .inr hkind
    · intro hquiet
      rw [setChannel_sendQueue, map_append]
      have hsent : Quiet [.data front] := by simp [Quiet]
      exact hsent.append (hquiet.append hfinish.quiet)
    · refine .of_update rfl ?_ fun _ => rfl
      rintro rfl
      rw [stateOf_of_some hch]
      exact hfinish.handshake hc

/-! ## Steps of the net -/

theorem HandshakeInv.netStep {a : NetAction} (h : HandshakeInv c n) (hsafe : HandshakeSafe c n a)
    (hstep : NetChange n a n') :
    ∃ s handled ps, NetStep c s n n' handled ps ∧
      HandshakeStep c handled ((n.mux s).stateOf c) ((n'.mux s).stateOf c) ps ∧
      Quiet (n'.outgoing s) ∧ Quiet (n'.outgoing s.peer) := by
  have hbyte (s) : (n.mux s).config.maxchannels ≤ 256 := by
    rw [h.sizes.same s]
    exact h.sizes.byte
  have hlt : ∀ s, c < (n.mux s).config.maxchannels := h.sizes.lt h.inRange
  cases hstep with
  | @call s op m' hcall hchange =>
    rcases isCall_handshake (c := c) hcall (n.mux s) with ⟨hnone, hans, hmux, htrans⟩
    rcases hchange.handshake (hlt s) (hbyte s) hans hmux htrans with
      ⟨ps, hqueue, hquiet, hhand⟩
    rcases outgoing_call hqueue with ⟨hown, hother⟩
    refine ⟨s, none, ps, ⟨setMux_peer .., ?_, ?_⟩, ?_, ?_, ?_⟩
    · intro kind hkind
      rw [hown, sent_append]
      exact hkind
    · intro kind _ hkind
      rwa [hother]
    · rw [setMux_self, ← hnone]
      exact hhand
    · rw [hown]
      exact (h.quiet s).append hquiet
    · rw [hother]
      exact h.quiet s.peer
  | @send s result m' sent hsend =>
    rcases hsend.handshake (Nat.lt_of_lt_of_le (hlt s) (hbyte s)) with
      ⟨ps, hsent, hquiet, hhand⟩
    rcases outgoing_send n s m' sent with ⟨hown, hother⟩
    rcases forall_mem_append.mp (h.quiet s) with ⟨hflight, hqueue⟩
    refine ⟨s, none, ps, ⟨setMux_peer .., ?_, ?_⟩, ?_, ?_, ?_⟩
    · intro kind hkind
      rw [outgoing, sent_append] at hkind
      rw [hown, sent_append]
      exact (or_assoc.mp hkind).imp_right (hsent kind)
    · intro kind _ hkind
      rwa [hother]
    · have hself : (n.setMux s m').mux s = m' := setMux_self ..
      rw [hself]
      exact hhand
    · rw [hown]
      exact .append hflight (hquiet hqueue)
    · rw [hother]
      exact h.quiet s.peer
  | @dispatch s decision message rest m' hflight hchange =>
    have hpeer := h.quiet s.peer
    have hhead : ∀ a, message ≠ .control (.disableMux a) := by
      apply hpeer
      rw [outgoing, hflight]
      exact mem_append_left _ (mem_cons_self ..)
    rcases Message.op_quiet hhead decision with ⟨hmux, htrans⟩
    have hans : OpAnswered c (n.mux s) (message.op decision) := by
      simpa only [HandshakeSafe, hflight] using hsafe
    rcases hchange.handshake (hlt s) (hbyte s) hans hmux htrans with
      ⟨ps, hqueue, hquiet, hhand⟩
    rcases outgoing_dispatch hflight hqueue with ⟨hown, hother⟩
    have hself : (n.setMux s m').mux s = m' := setMux_self ..
    refine ⟨s, message.handshake c, ps, ⟨setMux_peer .., ?_, ?_⟩, ?_, ?_, ?_⟩
    · intro kind hkind
      rw [hown, sent_append]
      exact hkind
    · rintro kind hne ⟨x, hx, hkind⟩
      rw [hother] at hx
      rcases mem_cons.mp hx with rfl | hx
      · exact absurd hkind hne
      · exact ⟨x, hx, hkind⟩
    · rw [hself]
      rcases Message.handshake_op c decision message with hrole | hrole <;> rw [hrole]
      · exact hhand
      · exact hhand.forget
    · rw [hown]
      exact (h.quiet s).append hquiet
    · intro m hm
      apply hpeer
      rw [hother]
      exact mem_cons_of_mem _ hm

/-- A step of the net keeps the invariant of the handshake. -/
theorem HandshakeInv.step {a : NetAction} (h : HandshakeInv c n) (hsafe : HandshakeSafe c n a)
    (hstep : NetChange n a n') : HandshakeInv c n' := by
  rcases h.netStep hsafe hstep with ⟨s, handled, ps, hnet, hhand, hquiet, hpeer⟩
  refine ⟨h.sizes.step hstep, ?_, ?_, ?_⟩
  · rw [hstep.config_eq]
    exact h.inRange
  · intro t
    exact .step h.awaited hnet hhand t
  · intro t
    rcases Side.eq_or_eq_peer s t with rfl | rfl
    · exact hquiet
    · exact hpeer

/-- In a new net no end waits. -/
theorem handshakeInv_init (h : netSystem.init n) (hlt : c < (n.mux .a).config.maxchannels) :
    HandshakeInv c n := by
  have hsizes := sizes_init h
  rcases h with ⟨⟨config, buffers, hmux, -, -⟩, hflight⟩
  have hstate (s) : (n.mux s).stateOf c = none := by
    rw [hmux s]
    rfl
  have hout (s) : n.outgoing s = [] := by
    rw [outgoing, hflight s, hmux s]
    rfl
  refine ⟨hsizes, hlt, ?_, ?_⟩
  · intro s
    constructor <;> simp [hstate]
  · intro s m hm
    rw [hout] at hm
    cases hm

theorem handshakeInv_of_reachable (hn : netSystem.ReachableUnder (HandshakeSafe c) n)
    (hlt : c < (n.mux .a).config.maxchannels) : HandshakeInv c n := by
  refine hn.invariant (P := fun n => c < (n.mux .a).config.maxchannels → HandshakeInv c n)
    (fun _ hinit => handshakeInv_init hinit) ?_ hlt
  intro n a n' ih hsafe hexec hlt'
  have hstep := exec_change hexec
  rw [hstep.config_eq] at hlt'
  exact (ih hlt').step hsafe hstep

/-- In every state of a safe run in which no packet of the handshake of channel `c`
is queued or in flight, no end has the channel opening, and an end that has it closing
locally has a peer that has not closed it locally yet. -/
theorem handshake_not_stuck {w : World}
    (hw : network.ReachableUnder (onNet (HandshakeSafe c)) w)
    (hlt : c < (w.mux .a).config.maxchannels)
    (hnone : ∀ s, ∀ m ∈ w.net.outgoing s, m.handshake c = none) (s : Side) :
    (w.mux s).stateOf c ≠ some .opening ∧
      ((w.mux s).stateOf c = some .localClosing →
        (w.mux s.peer).stateOf c = some .remoteClosing) := by
  have hshort (n b) (hsafe : HandshakeSafe c n b) : ShortPieces n b := by
    cases b with
    | call s op => exact hsafe
    | send s result | dispatch s decision => trivial
  have hinv := handshakeInv_of_reachable (net_reachable hshort hw).2 hlt
  have hnot : ∀ {kind t}, ¬Sent c kind (w.net.outgoing t) := by
    rintro kind t ⟨m, hm, hkind⟩
    rw [hnone t m hm] at hkind
    cases hkind
  constructor
  · exact fun hopening => ((hinv.awaited s).opening hopening).elim hnot hnot
  · exact fun hclosing =>
      ((hinv.awaited s).closing hclosing).resolve_left fun hwait => hwait.elim hnot hnot

/-- A channel that is opened by one end and then closed by it. -/
def closeRun : List Action :=
  openRun 8 8 100 4 ++ [.call .a (.disableChannel (.hostEnd .command) 0 0 0)] ++
    carry .a (.control (.disableChannel (.clientEnd .command) 0 0 0)) .reject

/-- The run meets the condition, and it ends with a peer that has not closed yet. -/
theorem handshake_not_stuck_closing : ∃ w : World,
    network.ReachableUnder (onNet (HandshakeSafe 0)) w ∧
      (∀ s, ∀ m ∈ w.net.outgoing s, m.handshake 0 = none) ∧
      (w.mux .a).stateOf 0 = some .localClosing ∧
      (w.mux .b).stateOf 0 = some .remoteClosing := by
  have hrun : ∃ w, network.ReachableUnder (onNet (HandshakeSafe 0)) w ∧
      (∀ s, ∀ m ∈ w.net.outgoing s, m.handshake 0 = none) ∧
      (w.mux .a).stateOf 0 = some .localClosing ∧ 0 < (w.mux .a).config.maxchannels := by
    apply exists_reachable .small 4 closeRun (by decide)
    · decide +kernel
    · decide +kernel
  rcases hrun with ⟨w, hw, hnone, hstate, hlt⟩
  exact ⟨w, hw, hnone, hstate, (handshake_not_stuck hw hlt hnone .a).2 hstate⟩

/-- A closing end waits with nothing on the way, for the interface of its peer. -/
theorem handshake_waits_for_interface : ∃ w : World,
    network.Reachable w ∧ w.net.outgoing .a = [] ∧ w.net.outgoing .b = [] ∧
      (w.mux .a).stateOf 0 = some .localClosing := by
  apply exists_reachable .small 4 closeRun (by decide)
  · decide +kernel
  · decide +kernel

end LteModemKernel.NetMux
