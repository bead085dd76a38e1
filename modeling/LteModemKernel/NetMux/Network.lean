import LteModemKernel.Lib.Runs
import LteModemKernel.NetMux.Reassembly
import LteModemKernel.NetMux.SendLoop

/-!
# Two MUX objects and the link between them

Two MUX objects run against each other over a reliable link that keeps the order and may
cut every message into fragments.  The model has two levels.  In a `World` the link
carries fragments, and the receiver reassembles and decodes them.  In a `Net` each
direction is a queue of messages.  As long as no channel accepts more bytes at once than
the length field of a data header can hold, the world refines the net: every step is
either invisible there or the step of the same name.  The properties of the protocol are
proved for the net.

Main results:

- Theorem `World.exec_refines`: a step of the world is a step of its net, or none.
- Theorem `net_reachable`: a guarded run of the world is a guarded run of the net.
-/

namespace LteModemKernel.NetMux

open Lib Function List Option TransitionSystem

variable {m m' : Mux} {w w' : World} {n n' : Net} {s : Side} {a : NetAction} {message : Message}
  {ps : List ControlPacket}

/-! ## The two ends -/

/-- One of the two ends of the link. -/
inductive Side where
  | a
  | b
  deriving DecidableEq, Repr

open Side

/-- The other end. -/
def Side.peer : Side → Side
  | .a => .b
  | .b => .a

@[simp] theorem Side.peer_peer (s : Side) : s.peer.peer = s := by cases s <;> rfl

@[simp] theorem Side.peer_ne (s : Side) : s.peer ≠ s := by cases s <;> simp [peer]

@[simp] theorem Side.ne_peer (s : Side) : s ≠ s.peer := by cases s <;> simp [peer]

theorem Side.eq_or_eq_peer (s t : Side) : t = s ∨ t = s.peer := by
  cases s <;> cases t <;> simp [peer]

instance (P : Side → Prop) [DecidablePred P] : Decidable (∀ s, P s) :=
  decidable_of_iff (P .a ∧ P .b)
    ⟨fun h s => by cases s; exacts [h.1, h.2], fun h => ⟨h .a, h .b⟩⟩

/-- The operations that an interface, the kernel or a released buffer starts; the others
come from the peer. -/
def Op.isCall : Op → Bool
  | .enableChannel (.hostEnd .command) .. => true
  | .disableChannel (.hostEnd .command) .. => true
  | .queryExternalInterface (.hostEnd .command) .. => true
  | .channelSignal (.hostEnd .command) .. => true
  | .sendData .. => true
  | .readData .. => true
  | .forwardData .. => true
  | .freeHeld .. => true
  | .processReleased .. => true
  | _ => false

/-! ## Messages on the link -/

/-- Two MUX objects and the messages each of them has sent and the other one has not
handled yet. -/
structure Net where
  mux : Side → Mux
  flight : Side → List Message

/-- The steps of the net. -/
inductive NetAction where
  | call (s : Side) (op : Op)
  | send (s : Side) (result : LinkResult)
  | dispatch (s : Side) (decision : Decision)
  deriving DecidableEq, Repr

namespace Net

/-- Store the object of one end. -/
def setMux (n : Net) (s : Side) (m : Mux) : Net :=
  { n with mux := update n.mux s m }

/-- One step: a local call, a step of a send task, or the handling of the next message. -/
def exec (n : Net) : NetAction → Option Net
  | .call s op =>
    if op.isCall then ((n.mux s).exec op).map fun out => n.setMux s out.mux else none
  | .send s result =>
    ((n.mux s).sendStep result).map fun r =>
      { n.setMux s r.1 with
        flight := update n.flight s (n.flight s ++ r.2.1.toList) }
  | .dispatch s decision =>
    match n.flight s.peer with
    | [] => none
    | message :: rest =>
      ((n.mux s).exec (message.op decision)).map fun out =>
        { n.setMux s out.mux with flight := update n.flight s.peer rest }

end Net

/-- Two new MUX objects with the same number of channels; a channel number fits into a
byte. -/
def NewMuxes (mux : Side → Mux) : Prop :=
  ∃ (config : Side → Config) (buffers : Side → UInt32),
    (∀ s, mux s = createMux (config s) (buffers s)) ∧
      (config .a).maxchannels = (config .b).maxchannels ∧ (config .a).maxchannels ≤ 256

/-- The transition system of the net. -/
def netSystem : TransitionSystem Net NetAction where
  init n := NewMuxes n.mux ∧ ∀ s, n.flight s = []
  step n a n' := n.exec a = some n'

/-! ## Fragments on the link -/

/-- Two MUX objects with their receive sides, and the fragments on the link: `wire s`
are those that `s` has sent and that are not delivered yet. -/
structure World where
  mux : Side → Mux
  receiveQueue : Side → List Fragment
  partialReceive : Side → PartialReceive
  wire : Side → List Fragment

open World

/-- The steps of the world. -/
inductive Action where
  | call (s : Side) (op : Op)
  | send (s : Side) (result : LinkResult) (cut : List Fragment)
  | deliver (s : Side)
  | receive (s : Side) (decision : Decision)
  deriving DecidableEq, Repr

namespace World

/-- Store the object of one end. -/
def setMux (w : World) (s : Side) (m : Mux) : World :=
  { w with mux := update w.mux s m }

/-- One step: a local call; a step of a send task, with the cut the link chooses; the
delivery of a fragment by `ReceiveFromLink`; `ReceivePartial` on the next
fragment of the receive queue, with the decision of an interface that is asked to open. -/
def exec (w : World) : Action → Option World
  | .call s op =>
    if op.isCall then ((w.mux s).exec op).map fun out => w.setMux s out.mux else none
  | .send s result cut =>
    match (w.mux s).sendStep result with
    | none => none
    | some (m, none, _) => if cut = [] then some (w.setMux s m) else none
    | some (m, some message, _) =>
      if CutOf message.encode cut then
        some { w.setMux s m with wire := update w.wire s (w.wire s ++ cut) }
      else none
  | .deliver s =>
    match w.wire s.peer with
    | [] => none
    | f :: rest =>
      some { w with
        wire := update w.wire s.peer rest
        receiveQueue := update w.receiveQueue s (w.receiveQueue s ++ [f]) }
  | .receive s decision =>
    match w.receiveQueue s with
    | [] => none
    | f :: rest =>
      match receivePartial (w.partialReceive s) f with
      | none => none
      | some (p, out) =>
        let w' := { w with
          receiveQueue := update w.receiveQueue s rest
          partialReceive := update w.partialReceive s p }
        match out with
        | none => some w'
        | some message =>
          ((w.mux s).exec (message.op decision)).map fun out => w'.setMux s out.mux

/-- The step of the net that a step of the world is: the handling of a message for the
fragment that completes it, none for the other fragments. -/
def label (w : World) : Action → Option NetAction
  | .call s op => some (.call s op)
  | .send s result _ => some (.send s result)
  | .deliver _ => none
  | .receive s decision =>
    match w.receiveQueue s with
    | [] => none
    | f :: _ =>
      match receivePartial (w.partialReceive s) f with
      | some (_, some _) => some (.dispatch s decision)
      | _ => none

/-- What the receiver will make of the fragments that one end has sent. -/
def flightRun (w : World) (s : Side) : Option PartialReceive × List Message :=
  reassembler.run (some (w.partialReceive s.peer)) (w.receiveQueue s.peer ++ w.wire s)

/-- The messages in flight from one end: those the receiver has not handled yet. -/
def flight (w : World) (s : Side) : List Message :=
  (w.flightRun s).2

/-- The net of a world. -/
def net (w : World) : Net :=
  ⟨w.mux, w.flight⟩

end World

/-- The transition system of the world. -/
def network : TransitionSystem World Action where
  init w := NewMuxes w.mux ∧ ∀ s, w.receiveQueue s = [] ∧ w.partialReceive s = .empty ∧
    w.wire s = []
  step w a w' := w.exec a = some w'

/-- A condition on the steps of the net, for the steps of the world. -/
def onNet (guard : Net → NetAction → Prop) (w : World) (a : Action) : Prop :=
  ∀ b, w.label a = some b → guard w.net b

instance (guard : Net → NetAction → Prop) [∀ n b, Decidable (guard n b)] (w : World)
    (a : Action) : Decidable (onNet guard w a) :=
  inferInstanceAs (Decidable (∀ b ∈ w.label a, guard w.net b))

/-- Two new objects of one configuration, for runs on fixed inputs. -/
def newWorld (config : Config) (buffers : UInt32) : World where
  mux := fun _ => createMux config buffers
  receiveQueue := fun _ => []
  partialReceive := fun _ => .empty
  wire := fun _ => []

theorem newWorld_init {config : Config} (hbyte : config.maxchannels ≤ 256) (buffers : UInt32) :
    network.init (newWorld config buffers) :=
  ⟨⟨fun _ => config, fun _ => buffers, fun _ => rfl, rfl, hbyte⟩, fun _ => ⟨rfl, rfl, rfl⟩⟩

theorem exists_reachable {guard : World → Action → Prop} {P : World → Prop} (config : Config)
    (buffers : UInt32) (labels : List Action) (hbyte : config.maxchannels ≤ 256)
    (hguard : Guarded exec guard (newWorld config buffers) labels)
    (hrun : ∃ w ∈ runLabels exec (newWorld config buffers) labels, P w) :
    ∃ w, network.ReachableUnder guard w ∧ P w :=
  ReachableUnder.exists_observed labels
    (.init (newWorld_init hbyte buffers)) ⟨hguard, hrun⟩

/-- The steps that carry the only queued message of one end to its peer, in one fragment:
a run of the send task around it, the delivery and the handling. -/
def carry (s : Side) (message : Message) (decision : Decision) : List Action :=
  [.send s .success [], .send s .success [message.encode], .send s .success [],
    .deliver s.peer, .receive s.peer decision]

/-- Channel 0 is opened by `.a` and accepted by `.b`, with the same sizes and
credits at both ends. -/
def openRun (burst maxData byteCredit sendCredit : UInt32) : List Action :=
  [.call .a
      (.enableChannel (.hostEnd .command) 0 burst maxData 0 0 byteCredit sendCredit 0 0)] ++
    carry .a (.control (.enableChannel (.clientEnd .command) 0 0 0 byteCredit sendCredit))
      (.accept burst maxData byteCredit sendCredit) ++
    carry .b (.control (.enableChannel (.hostEnd .success) 0 0 0 byteCredit sendCredit)) .reject

/-! ## Well-formed send queues -/

/-- Every data packet in the send queue of a channel is for this channel and states its
length; only channels of the array exist. -/
structure QueuesWellFormed (m : Mux) : Prop where
  packets : ∀ c ch, m.channels c = some ch →
    ∀ d ∈ ch.sendQueue, d.WellFormed ∧ d.channel = UInt8.ofNat c
  bounded : ∀ c ch, m.channels c = some ch → c < m.config.maxchannels

/-- `SendData` accepts no more bytes at once than the length field can hold. -/
def ShortPiece (m : Mux) : Op → Prop
  | .sendData c buffer split =>
    ∀ ch piece rest, m.sendPiece c buffer split = .ok (ch, piece, rest) → piece.length < 2 ^ 16
  | _ => True

instance (m : Mux) (op : Op) : Decidable (ShortPiece m op) := by
  cases op with
  | sendData c buffer split =>
    match hpiece : m.sendPiece c buffer split with
    | .error _ => exact isTrue fun _ _ _ h => by cases hpiece.symm.trans h
    | .ok (ch, piece, rest) =>
      exact decidable_of_iff (piece.length < 2 ^ 16)
        ⟨fun h _ _ _ hok => by cases hpiece.symm.trans hok; exact h,
          fun h => h ch piece rest hpiece⟩
  | _ => exact isTrue trivial

theorem applyDataHdr_wellFormed {c : Nat} {piece : List UInt8} (h : piece.length < 2 ^ 16) :
    (Mux.applyDataHdr c piece).WellFormed := by
  exact Nat.mod_eq_of_lt h

theorem queuesWellFormed_createMux (config : Config) (buffers : UInt32) :
    QueuesWellFormed (createMux config buffers) where
  packets := nofun
  bounded := nofun

theorem QueuesWellFormed.change {op : Op} (h : QueuesWellFormed m)
    (hshort : ShortPiece m op) (hchange : Change m op m') : QueuesWellFormed m' where
  packets := by
    intro c ch' hch' d hd
    cases hchange.queueEffect hch' with
    | created _ _ hqueue | purged _ hqueue _ =>
      rw [hqueue] at hd
      cases hd
    | kept hch hqueue => exact h.packets c _ hch d (hqueue ▸ hd)
    | @appended ch buffer piece rest split hop hpiece hqueue =>
      rw [hqueue, mem_append, mem_singleton] at hd
      rcases hd with hd | rfl
      · exact h.packets c ch (Mux.sendPiece_ok hpiece).1 d hd
      · rw [hop] at hshort
        exact ⟨applyDataHdr_wellFormed (hshort ch piece rest hpiece), rfl⟩
  bounded := by
    intro c ch' hch'
    rw [hchange.config_eq]
    cases hchange.queueEffect hch' with
    | created _ hlt _ => exact hlt
    | kept hch _ | purged hch _ _ => exact h.bounded c _ hch
    | appended _ hpiece _ => exact h.bounded c _ (Mux.sendPiece_ok hpiece).1

theorem QueuesWellFormed.sendChange {sent : Option Message}
    (h : QueuesWellFormed m) (hsend : SendChange m m' sent) : QueuesWellFormed m' where
  packets := by
    intro c ch' hch' d hd
    rcases hsend.queueEffect hch' with ⟨ch, hch, -, hqueue | ⟨front, -, hqueue⟩⟩
    · exact h.packets c ch hch d (hqueue ▸ hd)
    · exact h.packets c ch hch d (hqueue ▸ mem_cons_of_mem front hd)
  bounded := by
    intro c ch' hch'
    rw [hsend.config_eq]
    rcases hsend.queueEffect hch' with ⟨ch, hch, -⟩
    exact h.bounded c ch hch

theorem QueuesWellFormed.sent (h : QueuesWellFormed m) (hsend : SendChange m m' (some message)) :
    message.WellFormed := by
  cases hsend with
  | control _ => trivial
  | data _ _ hch _ hqueue _ _ =>
    exact (h.packets _ _ hch _ (hqueue ▸ mem_cons_self)).1

/-! ## Refinement -/

/-- The fragments of both directions end with a message, and the send queues are well
formed. -/
structure Linked (w : World) : Prop where
  ends : ∀ s, (w.flightRun s).1 = some .empty
  queues : ∀ s, QueuesWellFormed (w.mux s)

theorem Linked.run (h : Linked w) (s : Side) : w.flightRun s = (some .empty, w.flight s) :=
  Prod.ext (h.ends s) rfl

/-- The accepted pieces of a step of the net are short. -/
def ShortPieces (n : Net) : NetAction → Prop
  | .call s op => ShortPiece (n.mux s) op
  | _ => True

instance (n : Net) (a : NetAction) : Decidable (ShortPieces n a) := by
  cases a <;> unfold ShortPieces <;> infer_instance

/-- Handling a message is never a call of `SendData`. -/
theorem shortPiece_message (m : Mux) (message : Message) (decision : Decision) :
    ShortPiece m (message.op decision) := by
  cases message with
  | data d => trivial
  | control p =>
    cases p with
    | enableChannel acktype channel host client bytecredit sendcredit =>
      cases acktype with
      | hostEnd kind => trivial
      | clientEnd kind =>
        cases kind with
        | command => cases decision <;> trivial
        | success | failure => trivial
    | _ => trivial

theorem World.flightRun_congr (hwire : w'.wire s = w.wire s)
    (hqueue : w'.receiveQueue s.peer = w.receiveQueue s.peer)
    (hpart : w'.partialReceive s.peer = w.partialReceive s.peer) :
    w'.flightRun s = w.flightRun s := by
  rw [flightRun, flightRun, hwire, hqueue, hpart]

theorem Linked.of_run {flight : Side → List Message}
    (hrun : ∀ s, w.flightRun s = (some .empty, flight s))
    (hqueues : ∀ s, QueuesWellFormed (w.mux s)) : Linked w ∧ w.flight = flight := by
  constructor
  · exact ⟨fun s => by rw [hrun s], hqueues⟩
  · funext s
    rw [World.flight, hrun s]

section

variable (h : Linked w)
include h

theorem Linked.run_update {ms : List Message} (hself : w'.flightRun s = (some .empty, ms))
    (hpeer : w'.flightRun s.peer = w.flightRun s.peer) (t : Side) :
    w'.flightRun t = (some .empty, update w.flight s ms t) := by
  rcases eq_or_eq_peer s t with rfl | rfl
  · rw [hself, update_self]
  · rw [hpeer, h.run, update_of_ne (peer_ne s)]

theorem Linked.queues_setMux (hm : QueuesWellFormed m) (t : Side) :
    QueuesWellFormed (update w.mux s m t) := by
  by_cases ht : t = s
  · rw [ht, update_self]
    exact hm
  · rw [update_of_ne ht]
    exact h.queues t

theorem World.call_refines {op : Op} (hshort : ShortPiece (w.mux s) op)
    (hexec : w.exec (.call s op) = some w') :
    Linked w' ∧ w.net.exec (.call s op) = some w'.net := by
  rcases ite_none_right_eq_some.mp hexec with ⟨hcall, hexec⟩
  rcases map_eq_some_iff.mp hexec with ⟨out, hout, rfl⟩
  have hm := (h.queues s).change hshort (Mux.exec_change hout)
  refine ⟨⟨h.ends, h.queues_setMux hm⟩, ?_⟩
  simp only [net, Net.exec, if_pos hcall, hout]
  rfl

theorem World.send_refines {result : LinkResult} {cut : List Fragment}
    (hexec : w.exec (.send s result cut) = some w') :
    Linked w' ∧ w.net.exec (.send s result) = some w'.net := by
  simp only [exec] at hexec
  split at hexec
  · cases hexec
  · next m _ hstep =>
    rcases ite_none_right_eq_some.mp hexec with ⟨-, ⟨⟩⟩
    have hm := (h.queues s).sendChange (Mux.sendStep_change hstep)
    refine ⟨⟨h.ends, h.queues_setMux hm⟩, ?_⟩
    simp only [net, Net.exec, hstep, map_some, toList_none, append_nil, update_eq_self]
    rfl
  · next m message _ hstep =>
    rcases ite_none_right_eq_some.mp hexec with ⟨hcut, hw'⟩
    have hchange := Mux.sendStep_change hstep
    have hself : w'.flightRun s = (some .empty, w.flight s ++ [message]) := by
      cases hw'
      have hrun := h.run s
      simp only [flightRun, setMux, update_self] at hrun ⊢
      rw [← append_assoc]
      exact reassembler_append ((h.queues s).sent hchange) hrun hcut
    have hpeer : w'.flightRun s.peer = w.flightRun s.peer := by
      cases hw'
      exact flightRun_congr (update_of_ne (peer_ne s) ..) rfl rfl
    have hmux : w'.mux = update w.mux s m := by
      cases hw'
      rfl
    rcases Linked.of_run (h.run_update hself hpeer)
      (hmux ▸ h.queues_setMux ((h.queues s).sendChange hchange)) with ⟨hlinked, hflight⟩
    refine ⟨hlinked, ?_⟩
    simp only [net, Net.exec, hstep, map_some, hflight, hmux]
    rfl

/-- A delivery only moves a fragment along. -/
theorem World.deliver_refines (hexec : w.exec (.deliver s) = some w') :
    Linked w' ∧ w'.net = w.net := by
  simp only [exec] at hexec
  split at hexec
  · cases hexec
  · next f rest hwire =>
    have hself : w'.flightRun s.peer = (some .empty, w.flight s.peer) := by
      cases hexec
      have hrun := h.run s.peer
      simp only [flightRun, peer_peer, update_self, hwire] at hrun ⊢
      rw [append_assoc]
      exact hrun
    have hpeer : w'.flightRun s.peer.peer = w.flightRun s.peer.peer := by
      cases hexec
      rw [peer_peer]
      exact flightRun_congr (update_of_ne (ne_peer s) ..) (update_of_ne (peer_ne s) ..) rfl
    have hupdate := h.run_update hself hpeer
    rw [update_eq_self] at hupdate
    cases hexec
    rcases Linked.of_run hupdate h.queues with ⟨hlinked, hflight⟩
    refine ⟨hlinked, ?_⟩
    rw [net, net, hflight]

/-- The receive side of one end after a fragment: the direction of its peer loses the
message that the fragment completes. -/
theorem World.receive_run {f : Fragment} {rest : List Fragment} {p : PartialReceive}
    {out : Option Message} {mux : Side → Mux} (hqueue : w.receiveQueue s = f :: rest)
    (hrecv : receivePartial (w.partialReceive s) f = some (p, out))
    (hqueues : ∀ t, QueuesWellFormed (mux t)) (hw' : w' = { w with
      mux := mux
      receiveQueue := update w.receiveQueue s rest
      partialReceive := update w.partialReceive s p }) :
    ∃ ms, w.flight s.peer = out.toList ++ ms ∧ Linked w' ∧
      w'.flight = update w.flight s.peer ms := by
  have hrun := h.run s.peer
  simp only [flightRun, peer_peer, hqueue, cons_append] at hrun
  rcases reassembler_first hrun with ⟨p', out', ms, hrecv', hms, hrest⟩
  cases hrecv.symm.trans hrecv'
  have hself : w'.flightRun s.peer = (some .empty, ms) := by
    simp only [hw', flightRun, peer_peer, update_self]
    exact hrest
  have hpeer : w'.flightRun s.peer.peer = w.flightRun s.peer.peer := by
    rw [peer_peer, hw']
    exact flightRun_congr rfl (update_of_ne (peer_ne s) ..) (update_of_ne (peer_ne s) ..)
  rcases Linked.of_run (h.run_update hself hpeer) (hw' ▸ hqueues) with ⟨hlinked, hflight⟩
  exact ⟨ms, hms, hlinked, hflight⟩

theorem World.receive_refines {decision : Decision}
    (hexec : w.exec (.receive s decision) = some w') : Linked w' ∧
      ((w.label (.receive s decision) = none ∧ w'.net = w.net) ∨
        (w.label (.receive s decision) = some (.dispatch s decision) ∧
          w.net.exec (.dispatch s decision) = some w'.net)) := by
  simp only [exec] at hexec
  split at hexec
  · cases hexec
  next f rest hqueue =>
  split at hexec
  · cases hexec
  next p out hrecv =>
  split at hexec
  · cases hexec
    rcases receive_run h hqueue hrecv h.queues rfl with ⟨ms, hms, hlinked, hflight⟩
    refine ⟨hlinked, .inl ⟨by simp [label, hqueue, hrecv], ?_⟩⟩
    rw [toList_none, nil_append] at hms
    rw [← hms, update_eq_self] at hflight
    rw [net, net, hflight]
  · next message =>
    rcases map_eq_some_iff.mp hexec with ⟨res, hres, rfl⟩
    have hm := (h.queues s).change (shortPiece_message _ message decision) (Mux.exec_change hres)
    rcases receive_run h hqueue hrecv (h.queues_setMux hm) rfl with ⟨ms, hms, hlinked, hflight⟩
    refine ⟨hlinked, .inr ⟨by simp [label, hqueue, hrecv], ?_⟩⟩
    have hhead : w.net.flight s.peer = message :: ms := hms
    simp only [Net.exec, hhead]
    rw [show w.net.mux s = w.mux s from rfl, hres]
    simp only [map_some, net, setMux, Net.setMux]
    rw [hflight]

/-- A step of the world with short pieces keeps the link invariant.  It is the step of the
net that its label names, or leaves the net as it is. -/
theorem World.exec_refines {a : Action} (hshort : onNet ShortPieces w a)
    (hexec : w.exec a = some w') :
    Linked w' ∧ (w'.net = w.net ∨ ∃ b, w.label a = some b ∧ w.net.exec b = some w'.net) := by
  cases a with
  | call s op => exact (call_refines h (hshort _ rfl) hexec).imp_right (.inr ⟨_, rfl, ·⟩)
  | send s result cut => exact (send_refines h hexec).imp_right (.inr ⟨_, rfl, ·⟩)
  | deliver s => exact (deliver_refines h hexec).imp_right .inl
  | receive s decision =>
    rcases receive_refines h hexec with ⟨hlinked, ⟨-, hnet⟩ | ⟨hlabel, hnet⟩⟩
    · exact ⟨hlinked, .inl hnet⟩
    · exact ⟨hlinked, .inr ⟨_, hlabel, hnet⟩⟩

end

/-- Nothing is in flight between two new MUX objects. -/
theorem linked_init (h : network.init w) : Linked w ∧ netSystem.init w.net := by
  rcases h with ⟨hnew, hempty⟩
  have hrun (s) : w.flightRun s = (some .empty, []) := by
    rw [flightRun, (hempty s.peer).2.1, (hempty s.peer).1, (hempty s).2.2]
    rfl
  have hqueues : ∀ s, QueuesWellFormed (w.mux s) := by
    rcases hnew with ⟨config, buffers, hmux, -⟩
    intro s
    rw [hmux s]
    exact queuesWellFormed_createMux (config s) (buffers s)
  rcases Linked.of_run hrun hqueues with ⟨hlinked, hflight⟩
  exact ⟨hlinked, hnew, congrFun hflight⟩

/-- A run of the world whose steps meet a condition on the net, among others that pieces
are short, is a run of the net under this condition. -/
theorem net_reachable {guard : Net → NetAction → Prop} (hshort : ∀ n b, guard n b → ShortPieces n b)
    (hw : network.ReachableUnder (onNet guard) w) :
    Linked w ∧ netSystem.ReachableUnder guard w.net := by
  have hsim : ∃ n, netSystem.ReachableUnder guard n ∧ (n = w.net ∧ Linked w) := by
    apply hw.simulate (R := fun w n => n = w.net ∧ Linked w)
    · intro w0 hinit
      rcases linked_init hinit with ⟨hlinked, hnet⟩
      exact ⟨w0.net, hnet, rfl, hlinked⟩
    · rintro w0 a w1 _ ⟨rfl, hlinked⟩ hguard hstep
      have hpieces : onNet ShortPieces w0 a := fun b hb => hshort _ _ (hguard b hb)
      rcases exec_refines hlinked hpieces hstep with ⟨hlinked', hsame | ⟨b, hb, hnet⟩⟩
      · exact .inl ⟨hsame.symm, hlinked'⟩
      · exact .inr ⟨b, w1.net, hguard b hb, hnet, rfl, hlinked'⟩
  rcases hsim with ⟨n, hn, rfl, hlinked⟩
  exact ⟨hlinked, hn⟩

/-! ## Steps of the net -/

/-- The effects of the steps of the net, in terms of the changes of one end. -/
inductive NetChange (n : Net) : NetAction → Net → Prop where
  | call {s : Side} {op} {m' : Mux} (hcall : op.isCall = true)
      (hchange : Change (n.mux s) op m') : NetChange n (.call s op) (n.setMux s m')
  | send {s : Side} {result} {m' : Mux} {sent}
      (hsend : SendChange (n.mux s) m' sent) :
      NetChange n (.send s result)
        { n.setMux s m' with
          flight := update n.flight s (n.flight s ++ sent.toList) }
  | dispatch {s : Side} {decision message rest} {m' : Mux}
      (hflight : n.flight s.peer = message :: rest)
      (hchange : Change (n.mux s) (message.op decision) m') :
      NetChange n (.dispatch s decision)
        { n.setMux s m' with flight := update n.flight s.peer rest }

/-- A step of the net that has a result made one of the changes. -/
theorem Net.exec_change (h : n.exec a = some n') : NetChange n a n' := by
  cases a with
  | call s op =>
    rcases ite_none_right_eq_some.mp h with ⟨hcall, h⟩
    rcases map_eq_some_iff.mp h with ⟨out, hout, rfl⟩
    exact NetChange.call hcall (Mux.exec_change hout)
  | send s result =>
    rcases map_eq_some_iff.mp h with ⟨⟨m', sent, informs⟩, hstep, rfl⟩
    exact NetChange.send (Mux.sendStep_change hstep)
  | dispatch s decision =>
    simp only [exec] at h
    split at h
    · cases h
    · next hflight =>
      rcases map_eq_some_iff.mp h with ⟨out, hout, rfl⟩
      exact NetChange.dispatch hflight (Mux.exec_change hout)

@[simp]
theorem Net.setMux_self (n : Net) (s : Side) (m : Mux) : (n.setMux s m).mux s = m :=
  update_self ..

@[simp]
theorem Net.setMux_peer (n : Net) (s : Side) (m : Mux) : (n.setMux s m).mux s.peer = n.mux s.peer :=
  update_of_ne (peer_ne s) ..

/-- Both ends have the same number of channels, and a channel number fits into a byte. -/
structure Sizes (n : Net) : Prop where
  same : ∀ s, (n.mux s).config.maxchannels = (n.mux .a).config.maxchannels
  byte : (n.mux .a).config.maxchannels ≤ 256

theorem sizes_init (h : netSystem.init n) : Sizes n := by
  rcases h with ⟨⟨config, buffers, hmux, hsame, hbyte⟩, -⟩
  constructor
  · intro s
    rw [hmux s, hmux .a]
    cases s with
    | a => rfl
    | b => exact hsame.symm
  · rw [hmux .a]
    exact hbyte

theorem NetChange.config_eq (h : NetChange n a n') (t : Side) :
    (n'.mux t).config = (n.mux t).config := by
  have hset (s : Side) (m' : Mux) (hm' : m'.config = (n.mux s).config) :
      (update n.mux s m' t).config = (n.mux t).config := by
    by_cases ht : t = s
    · rw [ht, update_self, hm']
    · rw [update_of_ne ht]
  cases h with
  | call _ hchange | dispatch _ hchange => exact hset _ _ hchange.config_eq
  | send hsend => exact hset _ _ hsend.config_eq

theorem Sizes.step (h : Sizes n) (hstep : NetChange n a n') : Sizes n' where
  same := by
    intro s
    rw [hstep.config_eq, hstep.config_eq]
    exact h.same s
  byte := by
    rw [hstep.config_eq]
    exact h.byte

theorem sizes_of_reachable {guard : Net → NetAction → Prop}
    (hn : netSystem.ReachableUnder guard n) : Sizes n := by
  apply hn.invariant (fun _ => sizes_init)
  intro n a n' ih _ hexec
  exact ih.step (Net.exec_change hexec)

theorem Sizes.lt (h : Sizes n) {c : Nat} (hc : c < (n.mux .a).config.maxchannels)
    (s : Side) : c < (n.mux s).config.maxchannels := by
  rw [h.same s]
  exact hc

theorem Net.forall_setMux {P : Side → Mux → Prop}
    (hself : P s m') (hall : ∀ t, P t (n.mux t)) (t : Side) : P t ((n.setMux s m').mux t) := by
  rcases eq_or_eq_peer s t with rfl | rfl
  · rw [setMux_self]
    exact hself
  · rw [setMux_peer]
    exact hall s.peer

/-! ## The messages of one end -/

/-- The messages of one end that its peer has not handled: in flight, then the control
packets in the queue. -/
def Net.outgoing (n : Net) (s : Side) : List Message :=
  n.flight s ++ (n.mux s).sendQueue.map .control

theorem Net.outgoing_call (hqueue : m'.sendQueue = (n.mux s).sendQueue ++ ps) :
    (n.setMux s m').outgoing s = n.outgoing s ++ ps.map .control ∧
      (n.setMux s m').outgoing s.peer = n.outgoing s.peer := by
  constructor
  · rw [outgoing, setMux_self, hqueue, map_append, outgoing, append_assoc]
    rfl
  · rw [outgoing, setMux_peer, outgoing]
    rfl

theorem Net.outgoing_send (n : Net) (s : Side) (m' : Mux) (sent : Option Message) :
    outgoing { n.setMux s m' with
        flight := update n.flight s (n.flight s ++ sent.toList) } s =
        n.flight s ++ (sent.toList ++ m'.sendQueue.map .control) ∧
      outgoing { n.setMux s m' with
        flight := update n.flight s (n.flight s ++ sent.toList) } s.peer =
        n.outgoing s.peer := by
  constructor
  · simp [outgoing, setMux_self]
  · simp [outgoing, setMux_peer]

theorem Net.outgoing_dispatch {rest : List Message} (hflight : n.flight s.peer = message :: rest)
    (hqueue : m'.sendQueue = (n.mux s).sendQueue ++ ps) :
    outgoing { n.setMux s m' with flight := update n.flight s.peer rest } s =
        n.outgoing s ++ ps.map .control ∧
      n.outgoing s.peer = message ::
        outgoing { n.setMux s m' with flight := update n.flight s.peer rest }
          s.peer := by
  constructor
  · simp [outgoing, setMux_self, hqueue]
  · simp [outgoing, setMux_peer, hflight]

end LteModemKernel.NetMux
