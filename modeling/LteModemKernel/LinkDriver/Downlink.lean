import LteModemKernel.LinkDriver.Header

/-!
# The delivery of the downlink

A message goes from the mailbox through `read_msg`, the copy of its frames and the tasklet to
NetMUX, and the next one may be on its way as soon as the first is acknowledged.  The
`Stage` says where the read is; the message behind it waits in the mailbox or in
`read_msg`.

A message without frames takes the way of `IPC_USB_READ_ERROR`: there is no acknowledgement, and
no read is posted again.  Without a DMA channel the processor copies the frames, and their bytes
come in the order of the other processor.

Main results:
- Theorem `Working.exec`: every step keeps one read at work, for messages with frames that are
  copied by DMA.
- Theorem `downlink_delivery`: in such runs every message is copied, acknowledged and passed
  to NetMUX once and in order, and a read is posted for the next one.
- Theorem `downlink_dead`: the two other cases.
-/

namespace LteModemKernel.LinkDriver
namespace Downlink

open Lib List Option Downlink.State

/-! ## Nodes of a message -/

/-- The node of a frame that was copied. -/
def filled (f : List UInt8) : Node := ⟨f.length, true, false, true, f⟩

/-- `ipc_readbuff` while a frame is copied. -/
def filling (got : List (List UInt8)) (f : List UInt8) : List Node :=
  got.map filled ++ (posted.drop got.length).modifyHead fun x => { x with length := f.length }

/-- `ipc_readbuff` with the frames of a message. -/
def received (frames : List (List UInt8)) : List Node :=
  markEnd (frames.map filled) ++ posted.drop frames.length

theorem posted_drop {i : Nat} (hi : i < maxFrameNum) :
    posted.drop i = { blank with fin := decide (i = 9) } :: posted.drop (i + 1) := by
  have hall : ∀ j < maxFrameNum,
      posted.drop j = { blank with fin := decide (j = 9) } :: posted.drop (j + 1) := by decide
  exact hall i hi

theorem filling_eq {got : List (List UInt8)} {f : List UInt8} (hgot : got.length < maxFrameNum) :
    filling got f = got.map filled ++
      { blank with fin := decide (got.length = 9), length := f.length } ::
        posted.drop (got.length + 1) := by
  unfold filling
  rw [posted_drop hgot, modifyHead_cons]

/-- The tasklet passes the frames to NetMUX. -/
theorem receiveLoop_received {frames : List (List UInt8)} (rest : List Node) (hne : frames ≠ [])
    (hle : ∀ f ∈ frames, f.length ≤ maxFrameSize) :
    receiveLoop (markEnd (frames.map filled) ++ rest)
      = some (frames, List.replicate frames.length blank ++ rest) := by
  induction frames with
  | nil => exact absurd rfl hne
  | cons f frames ih =>
    have hf : ¬maxFrameSize < f.length := Nat.not_lt.mpr (hle f mem_cons_self)
    have hbytes : f.take f.length = f := take_length
    cases frames with
    | nil =>
      simp only [map_cons, map_nil, markEnd, singleton_append, receiveLoop,
        filled, hf, if_false, if_true, Node.bytes, hbytes]
      rfl
    | cons g frames =>
      have htail := ih (cons_ne_nil _ _) fun x hx => hle x (mem_cons_of_mem _ hx)
      rw [map_cons] at htail
      rw [map_cons, map_cons, markEnd, cons_append, receiveLoop, htail]
      simp only [filled, hf, if_false, Bool.false_eq_true, Node.bytes, hbytes, map_some]
      rfl

variable {n : Nat}

theorem endLast_posted (hn : n ≤ maxFrameNum) :
    endLast (List.replicate n blank ++ posted.drop n) = posted := by
  have hall : ∀ j < maxFrameNum + 1,
      endLast (.replicate j blank ++ posted.drop j) = posted := by decide
  exact hall n (Nat.lt_succ_of_le hn)

/-! ## The stages of a read -/

/-- Where the read is. -/
inductive Stage where
  /-- The read is posted. -/
  | ready
  /-- The frames of a message are copied. -/
  | copy (d : Buf2node)
  /-- `MUXReceiveComplete` is scheduled. -/
  | tasklet
  /-- `hw_ctrl_ipc_read_ex2` is about to be called. -/
  | post
  /-- `hw_ctrl_ipc_read_ex2` is about to process `read_msg`. -/
  | callback

/-- The counters and flags of a stage. -/
structure Flags where
  readFlag : Bool
  enReadMsg : Bool
  dma : Option Buf2node
  readCallback : Bool
  posts : Nat
  callbacks : Nat

@[inherit_doc Flags]
def Stage.flags : Stage → Flags
  | ready => ⟨true, true, none, false, 0, 0⟩
  | copy d => ⟨true, false, some d, false, 0, 0⟩
  | tasklet => ⟨false, false, none, true, 0, 0⟩
  | post => ⟨false, false, none, false, 1, 0⟩
  | callback => ⟨true, false, none, false, 0, 1⟩

/-- The frames of messages. -/
def framesOf (msgs : List Message) : List (List UInt8) := msgs.flatMap Message.frames

/-- The data of messages. -/
def bytesOf (msgs : List Message) : List UInt8 := (framesOf msgs).flatten

/-- The bytes of a message that are copied. -/
def Message.size (msg : Message) : Nat := msg.frames.flatten.length

theorem framesOf_append (xs ys : List Message) : framesOf (xs ++ ys) = framesOf xs ++ framesOf ys :=
  flatMap_append

theorem bytesOf_append (xs ys : List Message) : bytesOf (xs ++ ys) = bytesOf xs ++ bytesOf ys := by
  unfold bytesOf
  rw [framesOf_append, flatten_append]

theorem framesOf_singleton (msg : Message) : framesOf [msg] = msg.frames :=
  flatMap_singleton _ _

theorem bytesOf_singleton (msg : Message) : bytesOf [msg] = msg.frames.flatten := by
  unfold bytesOf
  rw [framesOf_singleton]

namespace State

variable {got todo : List (List UInt8)} {msg : Message} {f : List UInt8} {d : Buf2node}

/-- The state is at a stage. -/
structure At (s : State) (st : Stage) : Prop where
  readFlag : s.readFlag = st.flags.readFlag
  enReadMsg : s.enReadMsg = st.flags.enReadMsg
  dma : s.dma = st.flags.dma
  readCallback : s.readCallback = st.flags.readCallback
  posts : s.posts = st.flags.posts
  callbacks : s.callbacks = st.flags.callbacks

/-- The message in shared memory that is not acknowledged. -/
def Written (s : State) (done : List Message) (msg : Message) : Prop :=
  LaneHolds s.tempBuff 0 (msg.encode (UInt8.ofNat done.length))

/-- A message waits in the mailbox or in `read_msg`, or there is none. -/
def Arrival (s : State) (done : List Message) : Option Message → Prop
  | none => s.mailbox = [] ∧ s.rxReadMsg = false
  | some msg => s.Written done msg ∧
      ((∃ n, s.mailbox = [n]) ∧ s.rxReadMsg = false ∨ s.mailbox = [] ∧ s.rxReadMsg = true)

/-- The read that is posted finds its nodes and the expected sequence number. -/
structure Posted (s : State) (done gone : List Message) : Prop where
  gone : gone = done
  readbuff : s.readbuff = posted
  nodeNum : s.nodeNum = maxFrameNum
  recv : s.recvSequenceNumber = UInt8.ofNat done.length
  copied : s.copied = bytesOf done

/-- The frames of the message that are copied and that are not. -/
structure Copying (s : State) (done : List Message) (msg : Message) (d : Buf2node)
    (got : List (List UInt8)) (f : List UInt8) (todo : List (List UInt8)) : Prop where
  frames : msg.frames = got ++ f :: todo
  nodeIndex : d.nodeIndex = got.length
  frameIndex : d.frameIndex = got.length
  totalSize : d.totalSize = got.flatten.length
  waiting : ∃ m, s.tempBuff = swapOdd msg.frames.length m ∧
    Waiting m msg.frames.length got.length d.bufPhy (f :: todo)
  readbuff : s.readbuff = filling got f
  nodeNum : s.nodeNum = maxFrameNum
  recv : s.recvSequenceNumber = UInt8.ofNat (done.length + 1)
  copied : s.copied = bytesOf done ++ got.flatten

/-- The messages at every stage: those that are acknowledged, `done`, those that were passed
to NetMUX, `gone`, and the one that is not acknowledged. -/
def Holding (s : State) (done gone : List Message) (pending : Option Message) : Stage → Prop
  | .ready => s.Posted done gone ∧ s.rxReadMsg = false ∧ s.Arrival done pending
  | .copy d => gone = done ∧ s.mailbox = [] ∧ s.rxReadMsg = false ∧
      ∃ msg got f todo, pending = some msg ∧ s.Copying done msg d got f todo
  | .tasklet => s.Arrival done pending ∧ s.recvSequenceNumber = UInt8.ofNat done.length ∧
      s.copied = bytesOf done ∧ ∃ msg, done = gone ++ [msg] ∧ msg.Valid ∧ msg.frames ≠ [] ∧
        s.readbuff = received msg.frames
  | .post => gone = done ∧ s.Arrival done pending ∧
      s.recvSequenceNumber = UInt8.ofNat done.length ∧ s.copied = bytesOf done ∧ s.readbuff = posted
  | .callback => s.Posted done gone ∧ s.mailbox = [] ∧ s.rxReadMsg = false ∧
      ∃ msg, pending = some msg ∧ s.Written done msg

/-- The invariant. -/
structure Working (s : State) (done gone : List Message) (pending : Option Message)
    (st : Stage) : Prop where
  stage : s.At st
  sent : s.sent = done ++ pending.toList
  valid : ∀ msg ∈ pending, msg.Valid ∧ msg.frames ≠ []
  acks : s.acks = done.map Message.size
  delivered : s.delivered = framesOf gone
  alive : s.panicked = false ∧ s.freed = false
  holding : s.Holding done gone pending st

/-! ## Steps -/

variable {s s' : State} {done gone : List Message} {pending : Option Message} {st : Stage}

theorem Working.pending_none (h : s.Working done gone pending st)
    (hacks : s.acks.length = s.sent.length) : pending = none := by
  cases pending with
  | none => rfl
  | some msg =>
    rw [h.acks, h.sent, length_map, length_append] at hacks
    exact absurd hacks (by simp)

theorem Working.bpSend (h : s.Working done gone none st) (hvalid : msg.Valid)
    (hne : msg.frames ≠ []) : (s.bpSend msg).Working done gone (some msg) st := by
  have hsent : s.sent = done := by
    rw [h.sent]
    exact append_nil _
  have hwritten : (s.bpSend msg).Written done msg := by
    unfold Written State.bpSend
    rw [hsent]
    exact laneHolds_laneWrite _ _
  have harrival : s.Arrival done none → (s.bpSend msg).Arrival done (some msg) := by
    rintro ⟨hmailbox, hrx⟩
    have hnew : (s.bpSend msg).mailbox
        = [(msg.encode (UInt8.ofNat s.sent.length)).length % 2 ^ 16] := by
      rw [State.bpSend, hmailbox]
      rfl
    exact ⟨hwritten, .inl ⟨⟨_, hnew⟩, hrx⟩⟩
  refine ⟨{ h.stage with }, ?_, ?_, h.acks, h.delivered, h.alive, ?_⟩
  · rw [State.bpSend, hsent]
    rfl
  · intro msg' hmsg'
    cases hmsg'
    exact ⟨hvalid, hne⟩
  · have hholding := h.holding
    cases st with
    | ready =>
      rcases hholding with ⟨hposted, hrx, ha⟩
      exact ⟨{ hposted with }, hrx, harrival ha⟩
    | copy d =>
      rcases hholding with ⟨_, _, _, _, _, _, _, hnone, _⟩
      cases hnone
    | tasklet => exact ⟨harrival hholding.1, hholding.2⟩
    | post => exact ⟨hholding.1, harrival hholding.2.1, hholding.2.2⟩
    | callback =>
      rcases hholding with ⟨_, _, _, _, hnone, _⟩
      cases hnone

theorem startDma_eq {off : Nat} (total : Nat) (hgot : got.length < maxFrameNum)
    (hf : f.length ≤ maxFrameSize) (hbuff : s.readbuff = got.map filled ++ posted.drop got.length)
    (hwaiting : Waiting s.tempBuff n got.length off (f :: todo)) :
    s.startDma ⟨got.length, got.length, total, off⟩ = { s with
      readbuff := filling got f
      tempBuff := swapOdd n s.tempBuff
      dma := some ⟨got.length, got.length, total, off⟩ } := by
  have hlength : frameLength s.tempBuff got.length = f.length := hwaiting.lengths 0 f rfl
  have hmap : got.length = (got.map filled).length := (length_map _).symm
  have hmin : min f.length blank.length = f.length := Nat.min_eq_left hf
  unfold startDma filling
  simp only [hlength, hwaiting.count, hbuff]
  rw [modify_eq_take_drop, hmap, take_left, drop_left, ← hmap, posted_drop hgot,
    modifyHead_cons, modifyHead_cons, hmin]

theorem Posted.ipcApiReadCallback (hposted : s.Posted done gone)
    (hwritten : s.Written done msg) (hvalid : msg.Valid) (hne : msg.frames ≠ []) (realSize : Nat) :
    ∃ f todo m, msg.frames = f :: todo ∧
      s.ipcApiReadCallback realSize true = { s with
        tempBuff := swapOdd msg.frames.length m
        recvSequenceNumber := UInt8.ofNat (done.length + 1)
        readbuff := filling [] f
        dma := some ⟨0, 0, 0, headerSize msg.frames.length⟩ } ∧
      Waiting m msg.frames.length 0 (headerSize msg.frames.length) (f :: todo) := by
  have hopen := openHeader_encode hvalid hwritten
  rcases exists_cons_of_ne_nil hne with ⟨f, todo, hframes⟩
  have hf : f.length ≤ maxFrameSize := (hvalid.2 f (by rw [hframes]; exact mem_cons_self)).2
  have hcount : nbFrame (openHeader s.tempBuff) = msg.frames.length := hopen.waiting.count
  have hpos : msg.frames.length ≠ 0 := by
    rw [hframes]
    exact Nat.succ_ne_zero _
  have hwaiting := hopen.waiting
  nth_rewrite 3 [hframes] at hwaiting
  refine ⟨f, todo, openHeader s.tempBuff, hframes, ?_, hwaiting⟩
  have hrecv : UInt8.ofNat done.length + 1 = UInt8.ofNat (done.length + 1) := by
    rw [UInt8.ofNat_add]
    rfl
  have hstart := startDma_eq 0 (s := { s with
    tempBuff := openHeader s.tempBuff, recvSequenceNumber := UInt8.ofNat (done.length + 1) })
    (by decide : [].length < maxFrameNum) hf hposted.readbuff hwaiting
  unfold State.ipcApiReadCallback memcpyBuf2node
  simp only [hopen.version, hopen.sequenceNumber, hposted.recv, ne_eq, not_true_eq_false, if_false,
    hcount, hpos, and_false, if_true, hrecv]
  exact hstart

/-- A message is handed to `ipc_api_read_callback` for the read that is posted. -/
theorem Working.ipcApiReadCallback (h : s.Working done gone (some msg) .callback) (realSize : Nat) :
    ({ s with callbacks := 0 }.ipcApiReadCallback realSize true).Working done gone (some msg)
      (.copy ⟨0, 0, 0, headerSize msg.frames.length⟩) := by
  rcases h.holding with ⟨hposted, hmailbox, hrx, _, ⟨⟩, hwritten⟩
  have hposted : Posted { s with callbacks := 0 } done gone := { hposted with }
  rcases h.valid msg rfl with ⟨hvalid, hne⟩
  rcases hposted.ipcApiReadCallback hwritten hvalid hne realSize with
    ⟨f, todo, m, hframes, heq, hwaiting⟩
  rw [heq]
  exact ⟨{ h.stage with dma := rfl, callbacks := rfl }, h.sent, h.valid, h.acks, h.delivered,
    h.alive, hposted.gone, hmailbox, hrx, msg, [], f, todo, rfl, hframes, rfl, rfl, rfl,
    ⟨m, rfl, hwaiting⟩, rfl, hposted.nodeNum, rfl, hposted.copied.trans (append_nil _).symm⟩

/-- A message in the mailbox is the one that is not acknowledged. -/
theorem Arrival.taken {rest : List Nat} (ha : s.Arrival done pending)
    (hmailbox : s.mailbox = n :: rest) :
    ∃ msg, pending = some msg ∧ s.Written done msg ∧ rest = [] ∧ s.rxReadMsg = false := by
  cases pending with
  | none =>
    rw [ha.1] at hmailbox
    cases hmailbox
  | some msg =>
    rcases ha with ⟨hwritten, ⟨⟨k, hk⟩, hrx⟩ | ⟨hnil, _⟩⟩
    · cases hk.symm.trans hmailbox
      exact ⟨msg, rfl, hwritten, rfl, hrx⟩
    · cases hnil.symm.trans hmailbox

/-- The interrupt hands the message over, or keeps it for the next read. -/
theorem Working.mailboxIsr {rest : List Nat} (h : s.Working done gone pending st)
    (hmailbox : s.mailbox = n :: rest) :
    ∃ st', ({ s with mailbox := rest }.mailboxIsr n true).Working done gone pending st' := by
  have hholding := h.holding
  have hen := h.stage.enReadMsg
  cases st with
  | ready =>
    rcases hholding with ⟨hposted, _, ha⟩
    rcases ha.taken hmailbox with ⟨msg, rfl, hwritten, rfl, _⟩
    have hready : s.enReadMsg = true := hen
    have hcallbacks : s.callbacks = 0 := h.stage.callbacks
    have htaken : Working { s with
        mailbox := [], readMsg := n, rxReadMsg := false, enReadMsg := false, callbacks := 1 }
        done gone (some msg) .callback :=
      { h with
        stage := { h.stage with enReadMsg := rfl, callbacks := rfl }
        holding := ⟨{ hposted with }, rfl, rfl, msg, rfl, hwritten⟩ }
    simp only [mailboxIsr, hready, and_self, if_true, hcallbacks]
    exact ⟨_, htaken.ipcApiReadCallback n⟩
  | copy d | callback =>
    rw [hholding.2.1] at hmailbox
    cases hmailbox
  | tasklet =>
    rcases hholding.1.taken hmailbox with ⟨msg, rfl, hwritten, rfl, _⟩
    have hkept : s.enReadMsg = false := hen
    simp only [hkept]
    exact ⟨.tasklet, { h with
      stage := { h.stage with enReadMsg := rfl }
      holding := ⟨⟨hwritten, .inr ⟨rfl, rfl⟩⟩, hholding.2⟩ }⟩
  | post =>
    rcases hholding.2.1.taken hmailbox with ⟨msg, rfl, hwritten, rfl, _⟩
    have hkept : s.enReadMsg = false := hen
    simp only [hkept]
    exact ⟨.post, { h with
      stage := { h.stage with enReadMsg := rfl }
      holding := ⟨hholding.1, ⟨hwritten, .inr ⟨rfl, rfl⟩⟩, hholding.2.2⟩ }⟩

/-- `hw_ctrl_ipc_read_ex2` processes the message that was kept. -/
theorem Working.readCallback (h : s.Working done gone pending .callback) :
    ∃ st', ({ s with callbacks := s.callbacks - 1 }.ipcApiReadCallback s.readMsg true).Working
      done gone pending st' := by
  rcases h.holding with ⟨_, _, _, msg, rfl, _⟩
  rw [h.stage.callbacks]
  exact ⟨_, h.ipcApiReadCallback s.readMsg⟩

theorem filling_get (hgot : got.length < maxFrameNum) :
    (filling got f)[got.length]?
      = some { blank with fin := decide (got.length = 9), length := f.length } := by
  rw [filling_eq hgot, getElem?_append_right (Nat.le_of_eq (length_map _)), length_map,
    Nat.sub_self]
  rfl

theorem filling_set (hgot : got.length < maxFrameNum) (y : Node) :
    (filling got f).set got.length y = got.map filled ++ y :: posted.drop (got.length + 1) := by
  rw [filling_eq hgot, set_append_right _ _ (Nat.le_of_eq (length_map _)), length_map,
    Nat.sub_self, set_cons_zero]

theorem markEnd_append_singleton (nodes : List Node) (x : Node) :
    markEnd (nodes ++ [x]) = nodes ++ [{ x with fin := true }] := by
  induction nodes with
  | nil => rfl
  | cons y nodes ih =>
    cases nodes with
    | nil => rfl
    | cons z nodes => exact congrArg (y :: ·) ih

theorem received_append :
    got.map filled ++ { filled f with fin := true } :: posted.drop (got.length + 1)
      = received (got ++ [f]) := by
  unfold received
  rw [map_append, map_singleton, markEnd_append_singleton, length_append, append_assoc]
  rfl

theorem Copying.got_lt (h : s.Copying done msg d got f todo) (hvalid : msg.Valid) :
    got.length + todo.length < maxFrameNum := by
  have hfew := hvalid.1
  rw [h.frames, length_append, length_cons] at hfew
  omega

/-- What the end of a DMA transfer leaves to do: the last frame ends the read, another one is
followed by the next. -/
theorem Copying.buf2nodeCallback {x : Node} (h : s.Copying done msg d got f todo)
    (hvalid : msg.Valid)
    (hx : s.readbuff[d.nodeIndex]? = some x) :
    ∃ m, Waiting m msg.frames.length (got.length + 1) (d.bufPhy + f.length) todo ∧
      s.buf2nodeCallback d x =
        if todo = [] then usbReadCallback { s with
          tempBuff := m
          copied := s.copied ++ f
          readbuff := received (got ++ [f])
          dma := none } (got ++ [f]).flatten.length
        else startDma { s with
          tempBuff := m
          copied := s.copied ++ f
          readbuff := (got ++ [f]).map filled ++ posted.drop (got ++ [f]).length }
          ⟨(got ++ [f]).length, (got ++ [f]).length, (got ++ [f]).flatten.length,
            d.bufPhy + f.length⟩ := by
  rcases h.waiting with ⟨m, hmem, hwaiting⟩
  have hlt := h.got_lt hvalid
  have hgot : got.length < maxFrameNum := by omega
  have hnode : x = { blank with fin := decide (got.length = 9), length := f.length } := by
    rw [h.readbuff, h.nodeIndex, filling_get hgot] at hx
    exact (some.inj hx).symm
  subst hnode
  have hcount : nbFrame s.tempBuff = msg.frames.length := by
    rw [hmem, nbFrame_swapOdd, hwaiting.count]
  have hbytes : laneBytes s.tempBuff d.bufPhy f.length = f := by
    rw [hmem]
    exact hwaiting.laneBytes
  have hopen : swapOdd msg.frames.length s.tempBuff = m := by rw [hmem, swapOdd_swapOdd]
  have hlength : frameLength m got.length = f.length := hwaiting.lengths 0 f rfl
  have hnext : Waiting (setFrameLength m got.length 0) msg.frames.length (got.length + 1)
      (d.bufPhy + f.length) todo := hwaiting.next
  have hfill : ∀ b, fill { blank with fin := b, length := f.length } f
      = ⟨f.length, false, b, true, f⟩ := by
    intro b
    simp [fill, blank]
  have htotal : (got ++ [f]).flatten.length = got.flatten.length + f.length := by
    rw [flatten_append, length_append, flatten_singleton]
  have hsucc : (got ++ [f]).length = got.length + 1 := length_append
  refine ⟨setFrameLength m got.length 0, hnext, ?_⟩
  unfold State.buf2nodeCallback
  simp only [hbytes, hcount, hopen, h.frameIndex, hlength, Nat.sub_self, if_true, hfill,
    h.nodeIndex, h.totalSize, h.readbuff, filling_set hgot, hnext.count, h.nodeNum, htotal, hsucc]
  by_cases htodo : todo = []
  · have hlast : maxFrameNum ≤ got.length + 1 ∨ msg.frames.length ≤ got.length + 1 := by
      right
      rw [h.frames, htodo, length_append]
      exact Nat.le_refl _
    rw [if_pos hlast, if_pos htodo, ← received_append]
    rfl
  · have hpos := length_pos_iff.mpr htodo
    have hmore : ¬(maxFrameNum ≤ got.length + 1 ∨ msg.frames.length ≤ got.length + 1) := by
      rw [h.frames, length_append, length_cons]
      omega
    have hnine : decide (got.length = 9) = false := by
      unfold maxFrameNum at hlt
      rw [decide_eq_false_iff_not]
      omega
    rw [if_neg hmore, if_neg htodo, hnine, map_append, append_assoc]
    rfl

/-- The DMA transfer of a frame ends; the next frame follows, or the acknowledgement. -/
theorem Working.buf2nodeCallback {x : Node}
    (h : s.Working done gone pending (.copy d)) (hx : s.readbuff[d.nodeIndex]? = some x) :
    ∃ done' pending' st', (s.buf2nodeCallback d x).Working done' gone pending' st' := by
  rcases h.holding with ⟨hgone, hmailbox, hrx, msg, got, f, todo, rfl, hcopy⟩
  rcases h.valid msg rfl with ⟨hvalid, hne⟩
  rcases hcopy.buf2nodeCallback hvalid hx with ⟨m, hwaiting, heq⟩
  have hlt := hcopy.got_lt hvalid
  have hframes : msg.frames = (got ++ [f]) ++ todo := by
    rw [hcopy.frames, append_assoc, singleton_append]
  have hcopied : s.copied ++ f = bytesOf done ++ (got ++ [f]).flatten := by
    rw [hcopy.copied, append_assoc, flatten_append, flatten_singleton]
  rw [heq]
  cases todo with
  | nil =>
    rw [append_nil] at hframes
    have hsent : s.sent = (done ++ [msg]) ++ toList none := by
      rw [h.sent]
      exact (append_nil _).symm
    have hacks : s.acks ++ [(got ++ [f]).flatten.length] = (done ++ [msg]).map Message.size := by
      rw [h.acks, map_append, map_singleton, Message.size, hframes]
    have hbytes : s.copied ++ f = bytesOf (done ++ [msg]) := by
      rw [hcopied, bytesOf_append, bytesOf_singleton, hframes]
    have hrecv : s.recvSequenceNumber = .ofNat (done ++ [msg]).length := by
      rw [hcopy.recv, length_append]
      rfl
    rw [if_pos rfl]
    refine ⟨done ++ [msg], none, .tasklet,
      ⟨rfl, h.stage.enReadMsg, rfl, rfl, h.stage.posts, h.stage.callbacks⟩, hsent, nofun, hacks,
      h.delivered, h.alive, ⟨hmailbox, hrx⟩, hrecv, hbytes, msg, ?_, hvalid, hne, ?_⟩
    · rw [hgone]
    · rw [hframes]
      rfl
  | cons g todo =>
    have hg : g.length ≤ maxFrameSize := by
      refine (hvalid.2 g ?_).2
      rw [hframes]
      exact mem_append_right _ mem_cons_self
    have hgot : (got ++ [f]).length < maxFrameNum := by
      rw [length_cons] at hlt
      rw [length_append, length_singleton]
      omega
    have hindex : (got ++ [f]).length = got.length + 1 := length_append
    rw [← hindex] at hwaiting
    rw [if_neg (cons_ne_nil _ _), startDma_eq _ hgot hg rfl hwaiting]
    exact ⟨done, some msg, .copy ⟨(got ++ [f]).length, (got ++ [f]).length,
        (got ++ [f]).flatten.length, d.bufPhy + f.length⟩,
      { h with
        stage := { h.stage with dma := rfl }
        holding := ⟨hgone, hmailbox, hrx, msg, got ++ [f], g, todo, rfl, hframes, rfl, rfl, rfl,
          ⟨m, rfl, hwaiting⟩, rfl, hcopy.nodeNum, hcopy.recv, hcopied⟩ }⟩

theorem Working.muxReceiveComplete (h : s.Working done gone pending .tasklet) :
    s.muxReceiveComplete.Working done done pending .post := by
  rcases h.holding with ⟨harrival, hrecv, hcopied, msg, hdone, hvalid, hne, hbuff⟩
  have hloop : receiveLoop s.readbuff = some (msg.frames,
      .replicate msg.frames.length blank ++ posted.drop msg.frames.length) := by
    rw [hbuff]
    exact receiveLoop_received _ hne fun f hf => (hvalid.2 f hf).2
  have hposts : s.posts + 1 = 1 := by rw [h.stage.posts]; rfl
  have hdelivered : s.delivered ++ msg.frames = framesOf done := by
    rw [h.delivered, hdone, framesOf_append, framesOf_singleton]
  unfold State.muxReceiveComplete
  simp only [hloop, endLast_posted hvalid.1]
  exact { h with
    stage := { h.stage with readCallback := rfl, posts := hposts }
    delivered := hdelivered
    holding := ⟨rfl, harrival, hrecv, hcopied, rfl⟩ }

theorem Working.readEx2 (h : s.Working done gone pending .post) :
    ∃ st', s.readEx2.Working done gone pending st' := by
  rcases h.holding with ⟨hgone, harrival, hrecv, hcopied, hbuff⟩
  have hflag : s.readFlag = false := h.stage.readFlag
  have hposts : s.posts - 1 = 0 := by rw [h.stage.posts]; rfl
  have hnum : LinkDriver.nodeNum s.readbuff = maxFrameNum := by
    rw [hbuff]
    decide
  unfold State.readEx2
  simp only [hflag, Bool.false_eq_true, if_false, true_and]
  by_cases hrx : s.rxReadMsg = true
  · rw [if_pos hrx]
    cases pending with
    | none =>
      rw [harrival.2] at hrx
      cases hrx
    | some msg =>
      rcases harrival with ⟨hwritten, ⟨_, hfalse⟩ | ⟨hmailbox, _⟩⟩
      · cases hfalse.symm.trans hrx
      · have hcallbacks : s.callbacks + 1 = 1 := by rw [h.stage.callbacks]; rfl
        exact ⟨.callback, { h with
          stage := ⟨rfl, rfl, h.stage.dma, h.stage.readCallback, hposts, hcallbacks⟩
          holding := ⟨⟨hgone, hbuff, hnum, hrecv, hcopied⟩, hmailbox, rfl, msg, rfl, hwritten⟩ }⟩
  · rw [if_neg hrx]
    exact ⟨.ready, { h with
      stage := { h.stage with readFlag := rfl, enReadMsg := rfl, posts := hposts }
      holding := ⟨⟨hgone, hbuff, hnum, hrecv, hcopied⟩, Bool.eq_false_iff.mpr hrx, harrival⟩ }⟩

/-- The messages have frames, and they are copied by DMA. -/
def Regular (_ : State) : Label → Prop
  | .bpSend msg => msg.frames ≠ []
  | .mailboxIsr dmaOk => dmaOk = true
  | .readCallback dmaOk => dmaOk = true
  | _ => True

instance Regular.decidable (s : State) (l : Label) : Decidable (Regular s l) := by
  cases l <;> unfold Regular <;> infer_instance

theorem Working.exec {l : Label} (h : s.Working done gone pending st) (hguard : Regular s l)
    (hstep : s.exec l = some s') :
    ∃ done' gone' pending' st', s'.Working done' gone' pending' st' := by
  unfold State.exec at hstep
  rw [if_neg (by rw [h.alive.1]; decide)] at hstep
  cases l with
  | bpSend msg =>
    rcases ite_none_right_eq_some.mp hstep with ⟨⟨hacks, hvalid⟩, hs'⟩
    cases hs'
    cases h.pending_none hacks
    exact ⟨done, gone, some msg, st, h.bpSend hvalid hguard⟩
  | mailboxIsr dmaOk =>
    cases hguard
    simp only at hstep
    split at hstep
    · cases hstep
    · next n rest hmailbox =>
      cases hstep
      exact ⟨done, gone, pending, h.mailboxIsr hmailbox⟩
  | dmaDone =>
    simp only at hstep
    split at hstep
    · cases hstep
    · next d hdma =>
      rcases map_eq_some_iff.mp hstep with ⟨x, hx, rfl⟩
      rw [h.stage.dma] at hdma
      cases st <;> cases hdma
      rcases h.buf2nodeCallback hx with ⟨done', pending', st', h'⟩
      exact ⟨done', gone, pending', st', h'⟩
  | muxReceiveComplete =>
    rcases ite_none_right_eq_some.mp hstep with ⟨hscheduled, hs'⟩
    cases hs'
    rw [h.stage.readCallback] at hscheduled
    cases st <;> cases hscheduled
    exact ⟨done, done, pending, .post, h.muxReceiveComplete⟩
  | readEx2 =>
    rcases ite_none_right_eq_some.mp hstep with ⟨hpos, hs'⟩
    cases hs'
    rw [h.stage.posts] at hpos
    obtain rfl : st = .post := by cases st <;> first | rfl | cases hpos
    exact ⟨done, gone, pending, h.readEx2⟩
  | readCallback dmaOk =>
    cases hguard
    rcases ite_none_right_eq_some.mp hstep with ⟨hpos, hs'⟩
    cases hs'
    rw [h.stage.callbacks] at hpos
    obtain rfl : st = .callback := by cases st <;> first | rfl | cases hpos
    exact ⟨done, gone, pending, h.readCallback⟩

theorem working_init (m : ByteMem) : (init m).Working [] [] none .ready :=
  ⟨⟨rfl, rfl, rfl, rfl, rfl, rfl⟩, rfl, nofun, rfl, rfl, ⟨rfl, rfl⟩,
    ⟨rfl, rfl, rfl, rfl, rfl⟩, rfl, rfl, rfl⟩

theorem working_of_reachable (hs : system.ReachableUnder Regular s) :
    ∃ done gone pending st, s.Working done gone pending st := by
  apply hs.invariant (P := fun s => ∃ done gone pending st, s.Working done gone pending st)
  · rintro s ⟨m, rfl⟩
    exact ⟨[], [], none, .ready, working_init m⟩
  · rintro s l s' ⟨done, gone, pending, st, h⟩ hguard hstep
    exact h.exec hguard hstep

/-! ## Delivery -/

/-- The messages that are acknowledged. -/
def acked (s : State) : List Message := s.sent.take s.acks.length

/-- Every message is copied, acknowledged and delivered once and in order, and a read is posted or
about to be posted. -/
structure Delivery (s : State) : Prop where
  alive : s.panicked = false ∧ s.freed = false
  acks : s.acks = s.acked.map Message.size ∧ s.sent.length ≤ s.acks.length + 1
  copied : ∃ part, s.copied = bytesOf s.acked ++ part ∧ part <+: bytesOf (s.sent.drop s.acks.length)
  delivered : ∃ gone, s.delivered = framesOf gone ∧
    (gone = s.acked ∨ s.readCallback = true ∧ ∃ msg, s.acked = gone ++ [msg])
  kept : ∀ dmaOk s', s.exec (.mailboxIsr dmaOk) = some s' → s.rxReadMsg = false
  unread : s.acks.length < s.sent.length →
    s.mailbox ≠ [] ∨ s.rxReadMsg = true ∨ 0 < s.callbacks ∨ s.dma ≠ none
  read : s.readFlag = true ∨ s.readCallback = true ∨ 0 < s.posts

section

variable (h : s.Working done gone pending st)
include h

theorem Working.acked_eq : s.acked = done := by
  unfold acked
  rw [h.sent, h.acks, length_map, take_left]

theorem Working.unacked_eq : s.sent.drop s.acks.length = pending.toList := by
  rw [h.sent, h.acks, length_map, drop_left]

/-- A message that is kept is not written over. -/
theorem Working.kept {dmaOk : Bool} (hstep : s.exec (.mailboxIsr dmaOk) = some s') :
    s.rxReadMsg = false := by
  unfold State.exec at hstep
  rw [if_neg (by rw [h.alive.1]; decide)] at hstep
  have harrival : s.Arrival done pending → s.rxReadMsg = false := by
    intro ha
    cases hmailbox : s.mailbox with
    | nil =>
      simp only [hmailbox] at hstep
      cases hstep
    | cons n rest =>
      rcases ha.taken hmailbox with ⟨_, _, _, _, hrx⟩
      exact hrx
  have hholding := h.holding
  cases st with
  | ready => exact hholding.2.1
  | copy d | callback => exact hholding.2.2.1
  | tasklet => exact harrival hholding.1
  | post => exact harrival hholding.2.1

/-- A message that is not acknowledged is on its way. -/
theorem Working.unread (hlt : s.acks.length < s.sent.length) :
    s.mailbox ≠ [] ∨ s.rxReadMsg = true ∨ 0 < s.callbacks ∨ s.dma ≠ none := by
  have harrival : s.Arrival done pending → s.mailbox ≠ [] ∨ s.rxReadMsg = true := by
    intro ha
    cases pending with
    | none =>
      rw [h.acks, h.sent, length_map, toList_none, append_nil] at hlt
      exact absurd hlt (Nat.lt_irrefl _)
    | some msg =>
      rcases ha with ⟨_, ⟨⟨n, hn⟩, _⟩ | ⟨_, hrx⟩⟩
      · left
        rw [hn]
        exact cons_ne_nil _ _
      · exact .inr hrx
  have hholding := h.holding
  cases st with
  | ready => exact (harrival hholding.2.2).imp_right .inl
  | copy d =>
    refine .inr (.inr (.inr ?_))
    rw [h.stage.dma]
    exact some_ne_none d
  | tasklet => exact (harrival hholding.1).imp_right .inl
  | post => exact (harrival hholding.2.1).imp_right .inl
  | callback =>
    refine .inr (.inr (.inl ?_))
    rw [h.stage.callbacks]
    exact Nat.one_pos

theorem Working.read : s.readFlag = true ∨ s.readCallback = true ∨ 0 < s.posts := by
  cases st with
  | ready | copy d | callback => exact .inl h.stage.readFlag
  | tasklet => exact .inr (.inl h.stage.readCallback)
  | post =>
    refine .inr (.inr ?_)
    rw [h.stage.posts]
    exact Nat.one_pos

/-- The bytes of the message that is being copied come behind those of the others. -/
theorem Working.copied :
    ∃ part, s.copied = bytesOf done ++ part ∧ part <+: bytesOf pending.toList := by
  have hnone : s.copied = bytesOf done →
      ∃ part, s.copied = bytesOf done ++ part ∧ part <+: bytesOf pending.toList := by
    intro hcopied
    exact ⟨[], hcopied.trans (append_nil _).symm, nil_prefix⟩
  have hholding := h.holding
  cases st with
  | ready | callback => exact hnone hholding.1.copied
  | copy d =>
    rcases hholding with ⟨_, _, _, msg, got, f, todo, rfl, hcopy⟩
    refine ⟨got.flatten, hcopy.copied, ?_⟩
    rw [toList_some, bytesOf_singleton, hcopy.frames, flatten_append]
    exact prefix_append _ _
  | tasklet => exact hnone hholding.2.2.1
  | post => exact hnone hholding.2.2.2.1

theorem Working.delivered_eq :
    gone = done ∨ s.readCallback = true ∧ ∃ msg, done = gone ++ [msg] := by
  have hholding := h.holding
  cases st with
  | ready | callback => exact .inl hholding.1.gone
  | copy d | post => exact .inl hholding.1
  | tasklet =>
    rcases hholding.2.2.2 with ⟨msg, hdone, _⟩
    exact .inr ⟨h.stage.readCallback, msg, hdone⟩

end

end State

/-- Every message of the BP is copied, acknowledged and passed to NetMUX, in every run whose
messages have frames and are copied by DMA. -/
theorem downlink_delivery {s : State} (hs : system.ReachableUnder State.Regular s) :
    s.Delivery := by
  rcases working_of_reachable hs with ⟨done, gone, pending, st, h⟩
  have hlength : s.sent.length ≤ s.acks.length + 1 := by
    rw [h.sent, h.acks, length_append, length_map]
    cases pending with
    | none => exact Nat.le_succ _
    | some msg => exact Nat.le_refl _
  refine ⟨h.alive, ⟨?_, hlength⟩, ?_, ⟨gone, h.delivered, ?_⟩, fun _ _ => h.kept, h.unread, h.read⟩
  · rw [h.acked_eq]
    exact h.acks
  · rw [h.acked_eq, h.unacked_eq]
    exact h.copied
  · rw [h.acked_eq]
    exact h.delivered_eq

/-- Two messages, the second one before the read for it is posted. -/
theorem downlink_delivery_messages : ∃ s, system.ReachableUnder State.Regular s ∧
    s.delivered = [[1, 2, 3], [4], [5, 6, 7, 8, 9]] ∧ s.Delivery := by
  have hstart : system.ReachableUnder State.Regular (.init fun _ => 0) := .init ⟨_, rfl⟩
  rcases hstart.exists_observed
    (P := fun s : State => s.delivered = [[1, 2, 3], [4], [5, 6, 7, 8, 9]])
      [.bpSend ⟨[[1, 2, 3], [4]], 0, 0⟩, .mailboxIsr true, .dmaDone, .dmaDone,
        .bpSend ⟨[[5, 6, 7, 8, 9]], 0, 0⟩, .mailboxIsr true, .muxReceiveComplete, .readEx2,
        .readCallback true, .dmaDone, .muxReceiveComplete]
      (by decide +kernel) with ⟨s, hs, hobs⟩
  exact ⟨s, hs, hobs, downlink_delivery hs⟩

/-- A message without frames is neither acknowledged nor followed by a read, and nothing can
happen after it; the bytes of a frame that the processor copies are not those of the BP. -/
theorem downlink_dead :
    (∃ s, system.Reachable s ∧ s.sent = [⟨[], 0, 0⟩] ∧ s.acks = [] ∧ s.readFlag = false ∧
      ∀ l, s.exec l = none) ∧
    (∃ s, system.Reachable s ∧ s.sent = [⟨[[1, 2, 3, 4]], 0, 0⟩] ∧
      s.delivered = [[2, 1, 0, 0]]) := by
  have hstart : system.Reachable (.init fun _ => 0) := .start ⟨_, rfl⟩
  constructor
  · rcases hstart.exists_observed
      (P := fun s : State => s.sent = [⟨[], 0, 0⟩] ∧ s.acks = [] ∧ s.readFlag = false ∧
          s.panicked = false ∧ s.mailbox = [] ∧ s.dma = none ∧ s.readCallback = false ∧
          s.posts = 0 ∧ s.callbacks = 0)
        [.bpSend ⟨[], 0, 0⟩, .mailboxIsr true] (by decide +kernel) with
      ⟨s, hs, hsent, hacks, hflag, hpanicked, hmailbox, hdma, hcallback, hposts, hcallbacks⟩
    refine ⟨s, hs, hsent, hacks, hflag, ?_⟩
    intro l
    cases l with
    | bpSend msg => simp [exec, hpanicked, hsent, hacks]
    | mailboxIsr dmaOk => simp [exec, hpanicked, hmailbox]
    | dmaDone => simp [exec, hpanicked, hdma]
    | muxReceiveComplete => simp [exec, hpanicked, hcallback]
    | readEx2 => simp [exec, hpanicked, hposts]
    | readCallback dmaOk => simp [exec, hpanicked, hcallbacks]
  · exact hstart.exists_observed
      [.bpSend ⟨[[1, 2, 3, 4]], 0, 0⟩, .mailboxIsr false, .muxReceiveComplete] (by decide +kernel)

end Downlink
end LteModemKernel.LinkDriver
