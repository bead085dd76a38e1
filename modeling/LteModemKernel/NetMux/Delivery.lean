import LteModemKernel.NetMux.Network

/-!
# The data of a channel

While a channel is open at both ends, the bytes that `SendData` accepts at one end
are those that have reached the receive queue of the other end, followed by those in
flight and those in the send queue.  Every step of the two ends keeps this equation, so
that the peer receives the accepted bytes in their order.

A data header has 16 bits for the length.  A piece of 65536 bytes leaves with the length
0, and the receiver takes its bytes for packets.

Main results:

- Theorem `delivered_in_order`: what one end receives is a front part of what its peer
  accepted, and all of it when nothing is on the way.
- Theorem `long_piece_lost`: not without a bound on the accepted pieces.
-/

namespace LteModemKernel.NetMux

open Lib Function List Option Mux World TransitionSystem DataPacket

variable {c : Nat} {ch : Channel} {m m' : Mux} {a : Action} {decision : Decision}

/-! ## Accepted and received data -/

/-- The states in which a channel takes part in the exchange of data. -/
def Mux.isOpen (m : Mux) (c : Nat) : Prop :=
  ∃ ch, m.channels c = some ch ∧ ch.state ∈ [.opening, .opened, .sending]

instance (m : Mux) (c : Nat) : Decidable (m.isOpen c) :=
  inferInstanceAs (Decidable (∃ ch ∈ m.channels c, _ ∈ [_, _, _]))

/-- The bytes that an operation accepts for channel `c`. -/
def Mux.accepts (m : Mux) (c : Nat) : Op → List UInt8
  | .sendData i buffer split =>
    if i = c then
      match m.sendPiece i buffer split with
      | .ok (_, piece, _) => piece
      | .error _ => []
    else []
  | _ => []

/-- The bytes that a step has put on the receive queue of a channel. -/
def arrived (before after : Mux) (c : Nat) : List UInt8 :=
  ((after.receiveQueueOf c).drop (before.receiveQueueOf c).length).flatMap Commbuff.data

/-- The bytes in the send queue of a channel. -/
def Mux.queuedData (m : Mux) (c : Nat) : List UInt8 :=
  (((m.channels c).map Channel.sendQueue).getD []).flatMap DataPacket.payload

/-- The bytes of a message for channel `c`. -/
def Message.dataFor (c : Nat) : Message → List UInt8
  | .data d => if d.channel.toNat = c then d.payload else []
  | .control _ => []

/-- The bytes of channel `c` on the way from one end: in flight, then queued. -/
def Net.underway (n : Net) (c : Nat) (s : Side) : List UInt8 :=
  (n.flight s).flatMap (Message.dataFor c) ++ (n.mux s).queuedData c

/-! ## The operations -/

/-- The operations that take data from a receive queue. -/
def Op.takesData : Op → Bool
  | .readData .. => true
  | .forwardData .. => true
  | _ => false

/-- The buffers that an operation puts on the receive queue of channel `c`. -/
def Op.arrivals (c : Nat) : Op → List Commbuff
  | .receiveData d =>
    if d.channel.toNat = c then [⟨d.payload, some ⟨c, UInt32.ofNat d.size⟩⟩] else []
  | _ => []

theorem Mux.isOpen_setChannel (m : Mux) (c : Nat) (hst : ch.state ∈ [.opening, .opened, .sending]) :
    (m.setChannel c ch).isOpen c :=
  ⟨ch, by rw [setChannel_channels, update_self], hst⟩

theorem Mux.queuedData_of_some (h : m.channels c = some ch) :
    m.queuedData c = ch.sendQueue.flatMap DataPacket.payload := by
  rw [queuedData, h]
  rfl

theorem Mux.accepts_of_ok {buffer piece rest : List UInt8} {split : Bool}
    (h : m.sendPiece c buffer split = .ok (ch, piece, rest)) :
    m.accepts c (.sendData c buffer split) = piece := by
  rw [accepts, if_pos rfl, h]

/-- An operation accepts nothing for a channel, or it is a `SendData` that takes a
piece. -/
theorem Mux.accepts_cases (m : Mux) (c : Nat) (op : Op) :
    m.accepts c op = [] ∨ ∃ buffer split ch piece rest,
      op = .sendData c buffer split ∧ m.sendPiece c buffer split = .ok (ch, piece, rest) := by
  cases op with
  | sendData i buffer split =>
    by_cases hi : i = c
    · subst hi
      cases hpiece : m.sendPiece i buffer split with
      | error e =>
        left
        rw [accepts, if_pos rfl, hpiece]
      | ok r => exact .inr ⟨buffer, split, r.1, r.2.1, r.2.2, rfl, hpiece⟩
    · left
      rw [accepts, if_neg hi]
  | _ => exact .inl rfl

theorem Change.queuedData {op : Op} (h : Change m op m') (hopen : m.isOpen c)
    (hopen' : m'.isOpen c) : m'.queuedData c = m.queuedData c ++ m.accepts c op := by
  rcases hopen with ⟨ch, hch, -⟩
  rcases hopen' with ⟨ch', hch', hst'⟩
  rw [queuedData_of_some hch, queuedData_of_some hch']
  rcases m.accepts_cases c op with hnil | ⟨buffer, split, ch0, piece, rest, rfl, hpiece⟩
  · rw [hnil, append_nil]
    cases h.queueEffect hch' with
    | created hnone _ _ =>
      cases hch.symm.trans hnone
    | kept hch0 hqueue =>
      cases hch.symm.trans hch0
      rw [hqueue]
    | purged _ _ hstate =>
      rw [hstate] at hst'
      simp at hst'
    | appended hop hpiece _ =>
      rw [hop, accepts_of_ok hpiece] at hnil
      exact absurd hnil (sendPiece_ok hpiece).2.2.2.1
  · rcases h.sendData_cases with ⟨ch1, piece1, rest1, hpiece1, rfl⟩ | ⟨hnone, -⟩
    · cases hpiece.symm.trans hpiece1
      rcases sendPiece_ok hpiece with ⟨hch0, hst, -⟩
      cases hch.symm.trans hch0
      rw [queuePiece_eq hst, setChannel_channels, update_self] at hch'
      cases hch'
      rw [accepts_of_ok hpiece, queuedChannel, flatMap_append]
      simp [applyDataHdr]
    · exact absurd hpiece (hnone _)

theorem Change.receiveQueue {op : Op} (h : Change m op m') (hop : op.takesData = false)
    {ch' : Channel} (hch : m.channels c = some ch) (hch' : m'.channels c = some ch') :
    ch'.receiveQueue = ch.receiveQueue ++ op.arrivals c := by
  have hnil : (∀ d, op = .receiveData d → d.channel.toNat ≠ c) → op.arrivals c = [] := by
    intro hne
    cases op with
    | receiveData d => exact if_neg (hne d rfl)
    | _ => rfl
  cases h.channelEffect hch' with
  | created hnone _ _ _ =>
    cases hch.symm.trans hnone
  | kept hch0 hne =>
    cases hch.symm.trans hch0
    rw [hnil hne, append_nil]
  | opened hch0 hne _ heq | moved hch0 hne _ heq =>
    cases hch.symm.trans hch0
    rw [hnil fun d hd => absurd hd (hne d), append_nil]
    subst heq
    rfl
  | purged hch0 hpurge _ heq | appended hch0 hpurge _ heq =>
    cases hch.symm.trans hch0
    rw [hpurge, heq]
    exact (append_nil _).symm
  | received hch0 hreceive hc heq =>
    cases hch.symm.trans hch0
    rw [hreceive, Op.arrivals, if_pos hc, heq]
  | taken _ htaken _ _ =>
    rcases htaken with ⟨count, rfl⟩ | ⟨taken, rfl⟩ <;> cases hop

/-! ## The steps of the net -/

theorem Message.op_data (c : Nat) (decision : Decision) (message : Message) (m : Mux) :
    (message.op decision).takesData = false ∧ m.accepts c (message.op decision) = [] ∧
      ((message.op decision).arrivals c).flatMap Commbuff.data = message.dataFor c := by
  cases message with
  | data d =>
    refine ⟨rfl, rfl, ?_⟩
    simp only [Message.op, Op.arrivals, Message.dataFor]
    split <;> simp
  | control p =>
    cases p with
    | enableChannel acktype channel host client bytecredit sendcredit =>
      cases acktype with
      | hostEnd kind => exact ⟨rfl, rfl, rfl⟩
      | clientEnd kind =>
        cases kind with
        | command => cases decision <;> exact ⟨rfl, rfl, rfl⟩
        | success | failure => exact ⟨rfl, rfl, rfl⟩
    | _ => exact ⟨rfl, rfl, rfl⟩

/-- Handling a message puts its data on the receive queue of an open channel. -/
theorem Change.arrived {message : Message} (h : Change m (message.op decision) m')
    (hopen : m.isOpen c) (hopen' : m'.isOpen c) : arrived m m' c = message.dataFor c := by
  rcases Message.op_data c decision message m with ⟨htakes, -, hdata⟩
  rcases hopen with ⟨ch, hch, -⟩
  rcases hopen' with ⟨ch', hch', -⟩
  have hqueue := h.receiveQueue htakes hch hch'
  rw [NetMux.arrived, receiveQueueOf_of_some hch, receiveQueueOf_of_some hch', hqueue,
    drop_left, hdata]

theorem SendChange.queuedData {sent : Option Message} (h : SendChange m m' sent)
    (hwf : QueuesWellFormed m) (hbyte : m.config.maxchannels ≤ 256) :
    sent.toList.flatMap (Message.dataFor c) ++ m'.queuedData c = m.queuedData c := by
  cases h with
  | idle _ _ | control _ => rfl
  | @data i ch front rest st ps run hlt hch hst hqueue hfits hfinish =>
    have hfront : front.channel.toNat = i := by
      have hmem : front ∈ ch.sendQueue := by
        rw [hqueue]
        exact mem_cons_self ..
      rw [((hwf.packets i ch hch) front hmem).2, UInt8.toNat_ofNat']
      exact Nat.mod_eq_of_lt (Nat.lt_of_lt_of_le hlt hbyte)
    rw [queuedData, setChannel_channels, transmitAll_channels]
    by_cases hi : c = i
    · subst hi
      rw [queuedData_of_some hch, hqueue, update_self]
      simp [Message.dataFor, hfront, afterFront]
    · rw [update_of_ne hi]
      simp [Message.dataFor, hfront, Ne.symm hi, queuedData, chargeSent]

/-- What a step of the net accepts for channel `c` at one end. -/
def Net.acceptsAt (n : Net) (c : Nat) (s : Side) : NetAction → List UInt8
  | .call t op => if t = s then (n.mux s).accepts c op else []
  | _ => []

/-- What a step of the net puts on the receive queue of channel `c` at one end. -/
def arrivesAt (n n' : Net) (c : Nat) (s : Side) : NetAction → List UInt8
  | .dispatch t _ => if t = s then arrived (n.mux s) (n'.mux s) c else []
  | _ => []

/-- The data on the way from an end loses what arrives at its peer in front and gets what
the end accepts behind. -/
theorem NetChange.underway {n n' : Net} {a : NetAction} (h : NetChange n a n')
    (hwf : ∀ s, QueuesWellFormed (n.mux s)) (hsizes : Sizes n)
    (hopen : ∀ s, (n.mux s).isOpen c) (hopen' : ∀ s, (n'.mux s).isOpen c) (s : Side) :
    arrivesAt n n' c s.peer a ++ n'.underway c s = n.underway c s ++ n.acceptsAt c s a := by
  cases h with
  | @call t op m' hcall hchange =>
    rcases Side.eq_or_eq_peer t s with rfl | rfl
    · have hdata := hchange.queuedData (hopen s) (by simpa using hopen' s)
      simp [arrivesAt, Net.underway, Net.acceptsAt, hdata, Net.setMux]
    · simp [arrivesAt, Net.underway, Net.acceptsAt, Net.setMux]
  | @send t result m' sent hsend =>
    rcases Side.eq_or_eq_peer t s with rfl | rfl
    · have hbyte : (n.mux s).config.maxchannels ≤ 256 := by
        rw [hsizes.same s]
        exact hsizes.byte
      have hdata := hsend.queuedData (c := c) (hwf s) hbyte
      simp [arrivesAt, Net.underway, Net.acceptsAt, Net.setMux, flatMap_append, hdata]
    · simp [arrivesAt, Net.underway, Net.acceptsAt, Net.setMux]
  | @dispatch t decision message rest m' hflight hchange =>
    rcases Side.eq_or_eq_peer t s with rfl | rfl
    · have hdata := hchange.queuedData (hopen s) (by simpa using hopen' s)
      rw [(Message.op_data c decision message (n.mux s)).2.1, append_nil] at hdata
      simp [arrivesAt, Net.underway, Net.acceptsAt, hdata, Net.setMux]
    · have harrived := hchange.arrived (hopen t) (by simpa using hopen' t)
      simp [arrivesAt, Net.underway, Net.acceptsAt, Net.setMux, harrived, hflight]

/-! ## Observed runs -/

/-- What a step of the world accepts for channel `c` at one end. -/
def World.acceptsAt (w : World) (c : Nat) (s : Side) : Action → List UInt8
  | .call t op => if t = s then (w.mux s).accepts c op else []
  | _ => []

/-- What a step of the world puts on the receive queue of channel `c` at one end. -/
def World.arrivesAt (w w' : World) (c : Nat) (s : Side) : Action → List UInt8
  | .receive t _ => if t = s then arrived (w.mux s) (w'.mux s) c else []
  | _ => []

theorem arrived_self (m : Mux) (c : Nat) : arrived m m c = [] := by
  rw [arrived, drop_length]
  rfl

/-- The same for a step of the world. -/
theorem World.underway_step {w w' : World} (h : Linked w) (hsizes : Sizes w.net)
    (hshort : onNet ShortPieces w a) (hexec : w.exec a = some w') (hopen : ∀ s, (w.mux s).isOpen c)
    (hopen' : ∀ s, (w'.mux s).isOpen c) (s : Side) :
    w.arrivesAt w' c s.peer a ++ w'.net.underway c s = w.net.underway c s ++ w.acceptsAt c s a := by
  have hchange (b) (hb : w.net.exec b = some w'.net) : NetMux.arrivesAt w.net w'.net c s.peer b ++
      w'.net.underway c s = w.net.underway c s ++ w.net.acceptsAt c s b := by
    exact (Net.exec_change hb).underway h.queues hsizes hopen hopen' s
  cases a with
  | call t op => exact hchange _ (call_refines h (hshort _ rfl) hexec).2
  | send t result cut => exact hchange _ (send_refines h hexec).2
  | deliver t =>
    rw [(deliver_refines h hexec).2]
    exact (append_nil _).symm
  | receive t decision =>
    rcases (receive_refines h hexec).2 with ⟨-, hsame⟩ | ⟨-, hnet⟩
    · have hmux : w'.mux = w.mux := congrArg Net.mux hsame
      rw [hsame]
      simp [arrivesAt, acceptsAt, hmux, arrived_self]
    · exact hchange _ hnet

/-- A world with the bytes of one channel that its ends have accepted and received. -/
structure Logged where
  world : World
  accepted : Side → List UInt8
  received : Side → List UInt8

/-- A step of the world, with its part in the bytes of channel `c`. -/
def Logged.exec (c : Nat) (l : Logged) (a : Action) : Option Logged :=
  (l.world.exec a).map fun w =>
    { world := w
      accepted := fun s => l.accepted s ++ l.world.acceptsAt c s a
      received := fun s => l.received s ++ l.world.arrivesAt w c s a }

/-- The observation of channel `c` from a state `w` on: what is on the way there
counts as accepted, nothing as received. -/
def observation (c : Nat) (w : World) : TransitionSystem Logged Action where
  init l := l = ⟨w, w.net.underway c, fun _ => []⟩
  step l a l' := l.exec c a = some l'

/-- The channel stays open at both ends. -/
def StaysOpen (c : Nat) (l : Logged) (a : Action) : Prop :=
  ∀ w, l.world.exec a = some w → ∀ s, (w.mux s).isOpen c

instance (l : Logged) (a : Action) : Decidable (StaysOpen c l a) :=
  inferInstanceAs (Decidable (∀ w ∈ l.world.exec a, ∀ s, (w.mux s).isOpen c))

/-- The condition on the steps: the channel stays open, and no accepted piece is too
long for the length field. -/
def DeliverySafe (c : Nat) (l : Logged) (a : Action) : Prop :=
  StaysOpen c l a ∧ onNet ShortPieces l.world a

instance (l : Logged) (a : Action) : Decidable (DeliverySafe c l a) :=
  inferInstanceAs (Decidable (_ ∧ _))

/-- While a channel is open at both ends, what an end has accepted is what its peer has
received, followed by what is on the way. -/
structure Delivered (c : Nat) (l : Logged) : Prop where
  reachable : network.ReachableUnder (onNet ShortPieces) l.world
  isOpen : ∀ s, (l.world.mux s).isOpen c
  accepted : ∀ s, l.accepted s = l.received s.peer ++ l.world.net.underway c s

theorem Delivered.step {l l' : Logged} (h : Delivered c l) (hsafe : DeliverySafe c l a)
    (hexec : l.exec c a = some l') : Delivered c l' := by
  rcases map_eq_some_iff.mp hexec with ⟨w, hw, rfl⟩
  rcases net_reachable (fun _ _ hshort => hshort) h.reachable with ⟨hlinked, hnet⟩
  have hopen := hsafe.1 w hw
  refine ⟨.step h.reachable hsafe.2 hw, hopen, ?_⟩
  intro s
  have hstep := underway_step hlinked (sizes_of_reachable hnet) hsafe.2 hw h.isOpen hopen s
  simp [h.accepted s, hstep]

/-- In every state of a run that keeps channel `c` open and accepts no piece of more
than 65535 bytes, what an end has received on the channel is a front part of what its peer
has accepted for it, and all of it if nothing is queued or in flight. -/
theorem delivered_in_order {w : World} (hw : network.ReachableUnder (onNet ShortPieces) w)
    (hopen : ∀ s, (w.mux s).isOpen c) {l : Logged}
    (hl : (observation c w).ReachableUnder (DeliverySafe c) l) (s : Side) :
    l.received s.peer <+: l.accepted s ∧
      (l.world.net.underway c s = [] → l.received s.peer = l.accepted s) := by
  have hinv : Delivered c l := by
    refine hl.invariant ?_ fun _ _ _ ih hsafe hstep => ih.step hsafe hstep
    rintro l rfl
    exact ⟨hw, hopen, fun s => rfl⟩
  rw [hinv.accepted s]
  constructor
  · exact prefix_append ..
  · intro hnone
    rw [hnone, append_nil]

/-- Three bytes for channel 0 on their way from `.a` to `.b`. -/
def dataRun : List Action :=
  .call .a (.sendData 0 [1, 2, 3] false) :: carry .a (.data ⟨0, 3, [1, 2, 3]⟩) .reject

/-- After the run the three bytes are received. -/
theorem delivered_in_order_three : ∃ (w : World) (l : Logged),
    network.ReachableUnder (onNet ShortPieces) w ∧ (∀ s, (w.mux s).isOpen 0) ∧
      (observation 0 w).ReachableUnder (DeliverySafe 0) l ∧ l.accepted .a = [1, 2, 3] ∧
      l.received .b = [1, 2, 3] := by
  have hrun : ∃ w, network.ReachableUnder (onNet ShortPieces) w ∧ (∀ s, (w.mux s).isOpen 0) ∧
      Guarded (Logged.exec 0) (DeliverySafe 0)
        ⟨w, w.net.underway 0, fun _ => []⟩ dataRun ∧
      ∃ l ∈ runLabels (Logged.exec 0) ⟨w, w.net.underway 0, fun _ => []⟩
        dataRun, l.accepted .a = [1, 2, 3] ∧ l.world.net.underway 0 .a = [] := by
    apply exists_reachable Config.small 4 (openRun 8 8 100 4) (by decide)
    · decide +kernel
    · decide +kernel
  rcases hrun with ⟨w, hw, hopen, hguard, l, hl, haccepted, hnone⟩
  have hreach : (observation 0 w).ReachableUnder (DeliverySafe 0) l :=
    ReachableUnder.runLabels (fun _ _ _ h => h)
      (ReachableUnder.init rfl) hguard hl
  have hreceived := (delivered_in_order hw hopen hreach .a).2 hnone
  exact ⟨w, l, hw, hopen, hreach, haccepted, hreceived.trans haccepted⟩

/-! ## A long piece -/

/-- Channel 0 is open at both ends with room and credit for 65536 bytes, and nothing is on
the way. -/
@[mk_iff]
structure Ready (w : World) : Prop where
  channel : ∀ s, (w.mux s).channels 0 = some (newChannel 0 65536 65536 .opened)
  maxchannels : ∀ s, (w.mux s).config.maxchannels = 2
  bufferSize : (w.mux .a).config.remoteRcvBufferSize = 1024
  credit : (w.mux .a).channelcredit 0 = ⟨true, 65536, 100, 65536, 100, 0, 0⟩
  buffers : (w.mux .a).sendBuffersAvailable = 100
  total : (w.mux .a).totalQueuedAmount = 0
  sendQueue : (w.mux .a).sendQueue = []
  chanlNum : (w.mux .a).chanlNum = 0
  sendRun : (w.mux .a).sendRun = none
  wire : w.wire .a = []
  receiveQueue : w.receiveQueue .b = []
  partialReceive : w.partialReceive .b = .empty

variable {d : DataPacket} {w w1 : World} {rest : List Fragment} {accepted received : List UInt8}
  {s : Side}

/-- A piece of 65536 bytes is accepted whole. -/
theorem sendPiece_long (hch : m.channels 0 = some (newChannel 0 65536 65536 .opened))
    (hsize : d.size = 65536) :
    m.sendPiece 0 d.encode false = .ok (newChannel 0 65536 65536 .opened, d.encode, []) := by
  have hlen : d.encode.length = 65536 := by rw [encode_length, hsize]
  have hne : d.encode ≠ [] := by
    intro hnil
    rw [hnil] at hlen
    cases hlen
  have hroom : sendRoom (newChannel 0 65536 65536 .opened) = 65536 := by decide
  have hst : (newChannel 0 65536 65536 .opened).state = .opened := rfl
  simp [sendPiece, hne, hch, hroom, hlen, hst]

theorem World.setMux_setMux (w : World) (s : Side) (m m' : Mux) :
    (w.setMux s m).setMux s m' = w.setMux s m' := by
  simp [setMux]

theorem World.exec_receive_eq (message : Message) {out : Outcome}
    (hqueue : w.receiveQueue s = message.encode :: rest) (hpart : w.partialReceive s = .empty)
    (hwf : message.WellFormed) (hout : (w.mux s).exec (message.op decision) = some out) :
    w.exec (.receive s decision) =
      some { w.setMux s out.mux with
        receiveQueue := update w.receiveQueue s rest
        partialReceive := update w.partialReceive s .empty } := by
  have hne : message.encode ≠ [] := by
    rcases message.encode_head with ⟨tail, hhead⟩
    rw [hhead]
    exact cons_ne_nil _ _
  have hrecv : receivePartial .empty message.encode = some (.empty, some message) := by
    have hpart : receivePartial (partialOf message []) message.encode =
        some (afterBytes message ([] ++ message.encode)) :=
      receivePartial_partialOf hwf hne (prefix_refl _)
    simpa [partialOf, afterBytes] using hpart
  simp only [exec, hqueue, hpart, hrecv, hout, map_some]
  rfl

/-- A run that keeps channel `c` open leads to a world; what `.a` accepts and
`.b` receives on it. -/
def Observed (c : Nat) (w w' : World) (accepted received : List UInt8) : Prop :=
  ∃ l, (observation c w).ReachableUnder (StaysOpen c) l ∧ l.world = w' ∧
    l.accepted .a = accepted ∧ l.received .b = received

theorem Observed.step {w2 : World} (h : Observed c w w1 accepted received)
    (hexec : w1.exec a = some w2) (hopen : ∀ s, (w2.mux s).isOpen c) :
    Observed c w w2 (accepted ++ w1.acceptsAt c .a a) (received ++ w1.arrivesAt w2 c .b a) := by
  rcases h with ⟨l, hl, rfl, rfl, rfl⟩
  have hstays : StaysOpen c l a := by
    intro w' hw'
    cases hexec.symm.trans hw'
    exact hopen
  have hstep : l.exec c a = some
      ⟨w2, fun s => l.accepted s ++ l.world.acceptsAt c s a,
        fun s => l.received s ++ l.world.arrivesAt w2 c s a⟩ := by
    rw [Logged.exec, hexec, map_some]
  exact ⟨_, .step hl hstays hstep, rfl, rfl, rfl⟩

/-- The sender while the piece is in the queue. -/
def longSender (m : Mux) (d : DataPacket) (run : Option SendCursor) : Mux :=
  { m with totalQueuedAmount := 65540, chanlNum := 0, sendRun := run }.setChannel 0
    (queuedChannel 0 (newChannel 0 65536 65536 .opened) d.encode)

theorem longSender_isOpen (m : Mux) (d : DataPacket) (run : Option SendCursor) :
    (longSender m d run).isOpen 0 :=
  isOpen_setChannel _ 0 (by simp [queuedChannel])

/-- The call of `SendData`. -/
theorem exec_long (h : Ready w) (hsize : d.size = 65536) :
    w.exec (.call .a (.sendData 0 d.encode false)) =
      some (w.setMux .a (longSender (w.mux .a) d none)) := by
  have hlen : d.encode.length = 65536 := by rw [encode_length, hsize]
  have hcall : (w.mux .a).exec (.sendData 0 d.encode false) =
      some ((longSender (w.mux .a) d none).returns .noError) := by
    simp only [Mux.exec, Mux.sendData, sendPiece_long (h.channel .a) hsize]
    rw [if_pos (Or.inr (by rw [h.maxchannels]; decide)), queuePiece_eq (Or.inl rfl), hlen,
      h.total, longSender, h.sendRun.symm, h.chanlNum.symm]
    rfl
  simp only [World.exec, Op.isCall, if_true, hcall, map_some]
  rfl

theorem sendStep_long (h : Ready w) (hsize : d.size = 65536) :
    ∃ m' informs, (longSender (w.mux .a) d (some ⟨0, 0⟩)).sendStep .success =
        some (m', some (.data (applyDataHdr 0 d.encode)), informs) ∧ m'.isOpen 0 := by
  generalize hm : longSender (w.mux .a) d (some ⟨0, 0⟩) = m
  generalize hq : queuedChannel 0 (newChannel 0 65536 65536 .opened) d.encode = ch
  have hst : ch.state = .sending ∧ ch.sendQueue = [applyDataHdr 0 d.encode] := by
    rw [← hq]
    exact ⟨rfl, rfl⟩
  have hround : m.sendStep .success =
      some (m.sendScanned .success (.found 0 ch (applyDataHdr 0 d.encode) [] 0)) := by
    have hsent : (applyDataHdr 0 d.encode).size = 65540 := by
      rw [size, applyDataHdr, encode_length, hsize]
      rfl
    have hfits : m.fits 0 (applyDataHdr 0 d.encode) := by
      subst hm
      simp only [fits, hsent, longSender, setChannel, h.bufferSize, h.credit, h.buffers]
      decide
    have hrun : m.sendRun = some ⟨0, 0⟩ ∧ m.totalQueuedAmount = 65540 ∧ m.sendQueue = [] ∧
        m.chanlNum = 0 ∧ m.config.maxchannels = 2 ∧ m.channels 0 = some ch := by
      subst hm hq
      exact ⟨rfl, rfl, h.sendQueue, rfl, h.maxchannels .a, by simp [longSender]⟩
    simp [sendStep, sendRound, scan, hrun, hst, hfits]
  rcases sentData_eq { m with sendRun := some ⟨0, 0⟩ } 0 (applyDataHdr 0 d.encode) []
    (.inl hst.1) with ⟨st, ps, hfinish, hsent⟩
  refine ⟨_, _, hround, ?_⟩
  rw [hsent]
  apply isOpen_setChannel
  cases hfinish with
  | more _ => simp [afterFront, hst]
  | sending _ _ => simp
  | flushing _ hflush => exact absurd (hflush.symm.trans hst.1) (by decide)

theorem receiveData_open (hopen : m.isOpen 0) (hmax : m.config.maxchannels = 2)
    (hd : d.channel = 0) :
    ∃ out, m.exec (.receiveData d) = some out ∧ out.mux.isOpen 0 ∧
      out.mux.config.maxchannels = 2 ∧ arrived m out.mux 0 = d.payload := by
  rcases hopen with ⟨ch, hch, hst⟩
  have hexec : m.exec (.receiveData d) = some ((m.setChannel 0
      { ch with
        receiveQueue := ch.receiveQueue ++
          [⟨d.payload, some ⟨0, UInt32.ofNat d.size⟩⟩] }).returns .noError) := by
    simp [Mux.exec, Mux.receiveData, hd, hmax, hch]
  refine ⟨_, hexec, isOpen_setChannel m 0 hst, hmax, ?_⟩
  simp [arrived, receiveQueueOf, returns, hch]

/-- The run up to the two fragments on the wire. -/
theorem long_sent (h : Ready w) (hsize : d.size = 65536) :
    ∃ m', (∀ s, ((w.setMux .a m').mux s).isOpen 0) ∧
      Observed 0 w
        { w.setMux .a m' with
          wire := update w.wire .a [DataPacket.encode ⟨0, 0, []⟩, d.encode] }
        (w.net.underway 0 .a ++ d.encode) [] := by
  have hopen (m' : Mux) (hm' : m'.isOpen 0) (s) : ((w.setMux .a m').mux s).isOpen 0 := by
    cases s with
    | a => exact hm'
    | b => exact ⟨_, h.channel .b, by decide⟩
  have hstart : Observed 0 w w (w.net.underway 0 .a) [] := ⟨_, .init rfl, rfl, rfl, rfl⟩
  have hcall := hstart.step (exec_long h hsize) (hopen _ (longSender_isOpen ..))
  have haccept : w.acceptsAt 0 .a (.call .a (.sendData 0 d.encode false)) = d.encode :=
    accepts_of_ok (sendPiece_long (h.channel .a) hsize)
  rw [haccept] at hcall
  have hexec2 : (w.setMux .a (longSender (w.mux .a) d none)).exec (.send .a .success []) =
      some (w.setMux .a (longSender (w.mux .a) d (some ⟨0, 0⟩))) := by
    exact congrArg some (setMux_setMux w .a (longSender (w.mux .a) d none) _)
  have hrun := hcall.step hexec2 (hopen _ (longSender_isOpen ..))
  rcases sendStep_long h hsize with ⟨m', informs, hsend, hm'⟩
  have hcut : CutOf (Message.encode (.data (applyDataHdr 0 d.encode)))
      [encode ⟨0, 0, []⟩, d.encode] := by
    constructor
    · rw [Message.encode, applyDataHdr, encode_length, hsize]
      simp [encode]
    · rintro f hf rfl
      simp [encode] at hf
  have hexec3 : (w.setMux .a (longSender (w.mux .a) d (some ⟨0, 0⟩))).exec
      (.send .a .success [encode ⟨0, 0, []⟩, d.encode]) =
      some { w.setMux .a m' with
        wire := update w.wire .a [encode ⟨0, 0, []⟩, d.encode] } := by
    simp [World.exec, setMux, hsend, hcut, h.wire]
  have hsent := hrun.step hexec3 (hopen m' hm')
  refine ⟨m', hopen m' hm', ?_⟩
  simpa [World.acceptsAt, World.arrivesAt] using hsent

theorem Observed.deliver {f : Fragment} (h : Observed 0 w w1 accepted received)
    (hopen : ∀ s, (w1.mux s).isOpen 0) (hwire : w1.wire .a = f :: rest) :
    ∃ w2, Observed 0 w w2 accepted received ∧ w2.mux = w1.mux ∧ w2.wire .a = rest ∧
      w2.receiveQueue .b = w1.receiveQueue .b ++ [f] ∧
      w2.partialReceive .b = w1.partialReceive .b := by
  have hexec : w1.exec (.deliver .b) = some { w1 with
      wire := update w1.wire .a rest
      receiveQueue := update w1.receiveQueue .b (w1.receiveQueue .b ++ [f]) } := by
    simp [World.exec, Side.peer, hwire]
  have hnext := h.step hexec hopen
  simp only [acceptsAt, World.arrivesAt, append_nil] at hnext
  exact ⟨_, hnext, rfl, update_self .a rest w1.wire,
    update_self .b (w1.receiveQueue .b ++ [f]) w1.receiveQueue, rfl⟩

/-- The handling of a data packet by `.b`. -/
theorem Observed.receive (h : Observed 0 w w1 accepted received) (hopen : ∀ s, (w1.mux s).isOpen 0)
    (hmax : (w1.mux .b).config.maxchannels = 2) (hqueue : w1.receiveQueue .b = d.encode :: rest)
    (hpart : w1.partialReceive .b = .empty) (hwf : d.WellFormed) (hd : d.channel = 0) :
    ∃ w2, Observed 0 w w2 accepted (received ++ d.payload) ∧ (∀ s, (w2.mux s).isOpen 0) ∧
      (w2.mux .b).config.maxchannels = 2 ∧ w2.receiveQueue .b = rest ∧
      w2.partialReceive .b = .empty := by
  rcases receiveData_open (hopen .b) hmax hd with ⟨out, hout, hopen', hmax', harrived⟩
  have hexec : w1.exec (.receive .b .reject) = some { w1.setMux .b out.mux with
      receiveQueue := update w1.receiveQueue .b rest
      partialReceive := update w1.partialReceive .b .empty } :=
    exec_receive_eq (.data d) hqueue hpart hwf hout
  have hopen2 (s) : ((w1.setMux .b out.mux).mux s).isOpen 0 := by
    cases s with
    | a => exact hopen .a
    | b => exact hopen'
  have hnext := h.step hexec hopen2
  have hdata : w1.arrivesAt { w1.setMux .b out.mux with
      receiveQueue := update w1.receiveQueue .b rest
      partialReceive := update w1.partialReceive .b .empty } 0 .b
      (.receive .b .reject) = d.payload := by
    simpa [World.arrivesAt, World.setMux] using harrived
  rw [hdata] at hnext
  simp only [acceptsAt, append_nil] at hnext
  exact ⟨_, hnext, hopen2, hmax', update_self .b rest w1.receiveQueue,
    update_self .b .empty w1.partialReceive⟩

/-- A piece that is itself a data packet of 65536 bytes is received as this packet: its
first bytes are taken for a header. -/
theorem long_received (h : Ready w) (hwf : d.WellFormed) (hsize : d.size = 65536)
    (hd : d.channel = 0) : ∃ w', Observed 0 w w' (w.net.underway 0 .a ++ d.encode) d.payload := by
  rcases long_sent h hsize with ⟨m', hopen, hsent⟩
  rcases hsent.deliver hopen (update_self .a _ w.wire) with
    ⟨w1, h1, hmux1, hwire1, hqueue1, hpart1⟩
  rw [← hmux1] at hopen
  rcases h1.deliver hopen hwire1 with ⟨w2, h2, hmux2, -, hqueue2, hpart2⟩
  rw [← hmux2] at hopen
  have hmax : (w2.mux .b).config.maxchannels = 2 := by
    rw [hmux2, hmux1]
    exact h.maxchannels .b
  have hqueue : w2.receiveQueue .b = [encode ⟨0, 0, []⟩, d.encode] := by
    rw [hqueue2, hqueue1]
    simp [setMux, h.receiveQueue]
  have hpart : w2.partialReceive .b = .empty := by
    rw [hpart2, hpart1]
    exact h.partialReceive
  rcases h2.receive hopen hmax hqueue hpart rfl rfl with
    ⟨w3, h3, hopen3, hmax3, hqueue3, hpart3⟩
  rcases h3.receive hopen3 hmax3 hqueue3 hpart3 hwf hd with ⟨w4, h4, -⟩
  exact ⟨w4, h4⟩

/-- The world after the open of channel 0 with large sizes. -/
theorem exists_ready : ∃ w, network.Reachable w ∧ Ready w ∧ ∀ s, w.net.underway 0 s = [] := by
  simp only [ready_iff]
  apply exists_reachable .small 100 (openRun 65536 65536 65536 100) (by decide)
  · decide +kernel
  · decide +kernel

/-- Without the bound: a channel is open with nothing on the way, and a piece of 65536
bytes reaches the peer as other bytes. -/
theorem long_piece_lost : ∃ (w : World) (l : Logged),
    network.Reachable w ∧ (∀ s, (w.mux s).isOpen 0) ∧ (∀ s, w.net.underway 0 s = []) ∧
      (observation 0 w).ReachableUnder (StaysOpen 0) l ∧ ¬ l.received .b <+: l.accepted .a := by
  rcases exists_ready with ⟨w, hw, hready, hnone⟩
  have hlen : (replicate 65532 (0 : UInt8)).length = 65532 := length_replicate
  rcases long_received (d := ⟨0, 65532, replicate 65532 0⟩) hready hlen.symm
    (by rw [size, hlen]; rfl) rfl with ⟨w', l, hl, -, haccepted, hreceived⟩
  refine ⟨w, l, hw, fun s => ⟨_, hready.channel s, by decide⟩, hnone, hl, ?_⟩
  rw [haccepted, hreceived, hnone .a]
  intro hprefix
  rw [replicate_succ] at hprefix
  cases (cons_prefix_cons.mp hprefix).1

end LteModemKernel.NetMux
