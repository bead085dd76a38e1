import LteModemKernel.NetMux.Change

/-!
# The send loop

`ProcessSendQueues` empties the control queue first and then looks for a channel
whose front buffer fits its credit.  The lock is given up between two rounds of its loop
when an interface is informed, so that a step of the model is the start of a run or one
round of the loop.  The result of the link's `Send` is a parameter.

Main definitions:

- `Mux.scan`: one pass through the channels.
- `Mux.sendStep`: the start of a run, or one round of its loop.

Main results:

- Theorem `Mux.sendStep_change`: a step sends nothing, the front control packet, or
  the front buffer of a channel that is allowed to send.
-/

namespace LteModemKernel.NetMux

open Lib UInt32

/-- What the link's `Send` returns; a fatal error ends in a panic. -/
inductive LinkResult where
  | success
  | recoverable
  deriving DecidableEq, Repr

/-- What one pass through the channels ends with. -/
inductive ScanResult where
  | found (chanlNum : Nat) (ch : Channel) (front : DataPacket) (rest : List DataPacket)
      (ignoreAmount : UInt32)
  | nothing (chanlNum : Nat) (ignoreAmount : UInt32)

namespace Mux

/-! ## Definitions -/

/-- The front buffer of a channel fits its send credit, its byte credit and the send
buffers of the MUX. -/
def fits (m : Mux) (chanlNum : Nat) (front : DataPacket) : Prop :=
  let buffLength := ofNat front.size
  let numBuffers := buffersUsed buffLength m.config.remoteRcvBufferSize
  let credit := m.channelcredit chanlNum
  numBuffers ≤ credit.clientSendCredit ∧
    buffLength - ofNat dataPacketHdrSize ≤ credit.clientByteCredit ∧
    numBuffers ≤ m.sendBuffersAvailable

instance (m : Mux) (chanlNum : Nat) (front : DataPacket) : Decidable (m.fits chanlNum front) :=
  inferInstanceAs (Decidable (_ ∧ _ ∧ _))

/-- The loop index with wrap-around. -/
def nextChannel (m : Mux) (chanlNum : Nat) : Nat :=
  if chanlNum + 1 = m.config.maxchannels then 0 else chanlNum + 1

/-- The pass through the channels, from `chanlNum` until `start` is reached
again.  A channel number beyond the array, or a sending channel without a buffer, has no
result. -/
def scan (m : Mux) (start : Nat) : Nat → Nat → UInt32 → Option ScanResult
  | 0, _, _ => none
  | fuel + 1, chanlNum, ignoreAmount =>
    let next := m.nextChannel chanlNum
    let goOn (amount : UInt32) : Option ScanResult :=
      if next = start then some (.nothing next amount) else m.scan start fuel next amount
    if chanlNum < m.config.maxchannels then
      match m.channels chanlNum with
      | none => goOn ignoreAmount
      | some ch =>
        if ch.state ∈ [.sending, .flushing] then
          match ch.sendQueue with
          | [] => none
          | front :: rest =>
            if m.fits chanlNum front then
              some (.found chanlNum ch front rest ignoreAmount)
            else goOn (ignoreAmount + ch.qedTotlAmount)
        else goOn ignoreAmount
    else none

/-- The accounting for a sent data buffer, before the end of the queue is looked at. -/
def chargeSent (m : Mux) (chanlNum : Nat) (front : DataPacket) : Mux :=
  let buffLength := ofNat front.size
  let dataLength := buffLength - ofNat dataPacketHdrSize
  let numBuffers := buffersUsed buffLength m.config.remoteRcvBufferSize
  let credit := m.channelcredit chanlNum
  { m with
    totalQueuedAmount := m.totalQueuedAmount - buffLength
    channelcredit := Function.update m.channelcredit chanlNum
      { credit with
        clientByteCredit := credit.clientByteCredit - dataLength
        clientSendCredit := credit.clientSendCredit - numBuffers }
    sendBuffersAvailable := m.sendBuffersAvailable - numBuffers
    chanlNum := chanlNum + 1 }

/-- The channel object once its front buffer is sent. -/
def afterFront (ch : Channel) (front : DataPacket) (rest : List DataPacket) : Channel :=
  let buffLength := ofNat front.size
  { ch with
    sendQueue := rest
    qedDataAmount := ch.qedDataAmount - (buffLength - ofNat dataPacketHdrSize)
    qedTotlAmount := ch.qedTotlAmount - buffLength }

/-- A data buffer was sent: account for it, and end the sending of a channel that has no
data left. -/
def sentData (m : Mux) (chanlNum : Nat) (ch : Channel) (front : DataPacket)
    (rest : List DataPacket) : Mux :=
  let ch := afterFront ch front rest
  let m := (m.chargeSent chanlNum front).setChannel chanlNum ch
  if ch.qedDataAmount = 0 then (m.executeStateTransition .sendComplete chanlNum ch).1 else m

/-- Send the front control packet, unless there are no send buffers.  A packet that the
link defers goes back in front of its queue. -/
def sendControl (m : Mux) (p : ControlPacket) (rest : List ControlPacket)
    (result : LinkResult) : Mux × Option Message × List Inform :=
  if m.sendBuffersAvailable = 0 then ({ m with sendRun := none }, none, [])
  else match result with
  | .recoverable => ({ m with sendRun := none }, none, [])
  | .success =>
    ({ m with
      sendQueue := rest
      totalQueuedAmount := m.totalQueuedAmount - ofNat p.size }, some (.control p), [])

/-- What is done after a pass through the channels.  A buffer that the link defers goes
back in front of its queue. -/
def sendScanned (m : Mux) (result : LinkResult) : ScanResult → Mux × Option Message × List Inform
  | .nothing chanlNum amount =>
    ({ m with chanlNum := chanlNum, sendRun := some ⟨chanlNum, amount⟩ }, none, [])
  | .found chanlNum ch front rest amount =>
    match result with
    | .recoverable => ({ m with chanlNum := chanlNum, sendRun := none }, none, [])
    | .success =>
      ({ m with sendRun := some ⟨chanlNum, amount⟩ }.sentData chanlNum ch front rest,
        some (.data front),
        if (afterFront ch front rest).qedDataAmount = 0 then
          [.data ch.connectedInterface chanlNum]
        else [])

/-- One round of the loop of `ProcessSendQueues`: the new state, the message given
to the link, and the informs.  Leaving the loop ends the run. -/
def sendRound (m : Mux) (cursor : SendCursor) (result : LinkResult) :
    Option (Mux × Option Message × List Inform) :=
  if cursor.ignoreAmount < m.totalQueuedAmount then
    match m.sendQueue with
    | p :: rest => some (m.sendControl p rest result)
    | [] =>
      (m.scan cursor.startChanlNum (m.config.maxchannels + 1) m.chanlNum 0).map
        (m.sendScanned result)
  else some ({ m with sendRun := none }, none, [])

/-- A step of the send task: the start of a run of `ProcessSendQueues`, or one
round of its loop. -/
def sendStep (m : Mux) (result : LinkResult) : Option (Mux × Option Message × List Inform) :=
  match m.sendRun with
  | none => some ({ m with sendRun := some ⟨m.chanlNum, 0⟩ }, none, [])
  | some cursor => m.sendRound cursor result

end Mux

theorem dataLength_eq (d : DataPacket) :
    ofNat d.size - ofNat dataPacketHdrSize = ofNat d.payload.length := by
  have hle : dataPacketHdrSize ≤ d.size := Nat.le_add_right _ _
  rw [← ofNat_sub hle]
  congr 1
  simp only [DataPacket.size]
  omega

/-! ## What a step can do -/

/-- How the sending of a channel goes on after one of its buffers: nothing changes while
data is left, otherwise it is open again, or closes after a flush. -/
inductive Finishes (c : Nat) (ch : Channel) : ChannelState → List ControlPacket → Prop where
  | more (h : ch.qedDataAmount ≠ 0) : Finishes c ch ch.state []
  | sending (h : ch.qedDataAmount = 0) (hst : ch.state = .sending) : Finishes c ch .opened []
  | flushing (h : ch.qedDataAmount = 0) (hst : ch.state = .flushing) :
      Finishes c ch .localClosing
        [.disableChannel (.clientEnd .command) (UInt8.ofNat c) ch.hostInterface
          ch.clientInterface]

/-- The effects of a step of the send task. -/
inductive SendChange (m : Mux) : Mux → Option Message → Prop where
  | idle (chanlNum : Nat) (run : Option SendCursor) :
      SendChange m { m with chanlNum := chanlNum, sendRun := run } none
  | control {p rest} (hqueue : m.sendQueue = p :: rest) :
      SendChange m
        { m with
          sendQueue := rest
          totalQueuedAmount := m.totalQueuedAmount - ofNat p.size }
        (some (.control p))
  | data {c ch front rest s ps} (run : Option SendCursor)
      (hc : c < m.config.maxchannels) (hch : m.channels c = some ch)
      (hst : ch.state = .sending ∨ ch.state = .flushing) (hqueue : ch.sendQueue = front :: rest)
      (hfits : m.fits c front) (hfinish : Finishes c (Mux.afterFront ch front rest) s ps) :
      SendChange m
        ((({ m with sendRun := run }.chargeSent c front).transmitAll ps).setChannel c
          { Mux.afterFront ch front rest with state := s })
        (some (.data front))

variable {sent : Option Message} {m' : Mux}

namespace Mux

variable {m : Mux} {start fuel chanlNum : Nat} {amount : UInt32} {ch : Channel}
  {result : LinkResult} {informs : List Inform}

/-- A pass that finds a buffer found the front one of a channel that may send it. -/
theorem scan_found {n : Nat} {amount' : UInt32} {front : DataPacket} {rest : List DataPacket}
    (h : m.scan start fuel chanlNum amount = some (.found n ch front rest amount')) :
    n < m.config.maxchannels ∧ m.channels n = some ch ∧
      (ch.state = .sending ∨ ch.state = .flushing) ∧ ch.sendQueue = front :: rest ∧
      m.fits n front := by
  induction fuel generalizing chanlNum amount with
  | zero => cases h
  | succ fuel ih =>
    -- every branch that goes on either stops at the start or is a shorter pass
    have hgo : ∀ a, (if m.nextChannel chanlNum = start
          then some (.nothing (m.nextChannel chanlNum) a)
          else m.scan start fuel (m.nextChannel chanlNum) a) =
        some (.found n ch front rest amount') →
        n < m.config.maxchannels ∧ m.channels n = some ch ∧
          (ch.state = .sending ∨ ch.state = .flushing) ∧ ch.sendQueue = front :: rest ∧
          m.fits n front := by
      intro a ha
      split at ha
      · cases ha
      · exact ih ha
    simp only [scan] at h
    split at h
    · next hlt =>
      cases hch : m.channels chanlNum with
      | none =>
        simp only [hch] at h
        exact hgo _ h
      | some ch0 =>
        simp only [hch] at h
        split at h
        · next hst =>
          cases hqueue : ch0.sendQueue with
          | nil =>
            simp only [hqueue] at h
            cases h
          | cons front0 rest0 =>
            simp only [hqueue] at h
            split at h
            · next hfits =>
              cases h
              exact ⟨hlt, hch, by simpa using hst, hqueue, hfits⟩
            · exact hgo _ h
        · exact hgo _ h
    · cases h

theorem sentData_eq (m : Mux) (c : Nat) (front : DataPacket) (rest : List DataPacket)
    (hst : ch.state = .sending ∨ ch.state = .flushing) :
    ∃ s ps, Finishes c (afterFront ch front rest) s ps ∧
      m.sentData c ch front rest =
        ((m.chargeSent c front).transmitAll ps).setChannel c
          { afterFront ch front rest with state := s } := by
  by_cases hqed : (afterFront ch front rest).qedDataAmount = 0
  · rcases hst with hst | hst
    · refine ⟨.opened, [], .sending hqed hst, ?_⟩
      have hst' : (afterFront ch front rest).state = .sending := hst
      simp only [sentData, if_pos hqed, executeStateTransition, hst']
      simp
    · refine ⟨.localClosing, _, .flushing hqed hst, ?_⟩
      have hst' : (afterFront ch front rest).state = .flushing := hst
      simp only [sentData, if_pos hqed, executeStateTransition, hst']
      simp [transmitDisableChannel]
  · refine ⟨(afterFront ch front rest).state, [], .more hqed, ?_⟩
    simp [sentData, if_neg hqed, transmitAll_nil]

theorem sendControl_change {p : ControlPacket} {rest : List ControlPacket}
    (result : LinkResult) (hqueue : m.sendQueue = p :: rest) :
    SendChange m (m.sendControl p rest result).1 (m.sendControl p rest result).2.1 := by
  simp only [sendControl]
  split
  · exact .idle m.chanlNum none
  · cases result with
    | recoverable => exact .idle m.chanlNum none
    | success => exact .control hqueue

theorem sendScanned_change {r : ScanResult} (result : LinkResult)
    (hscan : m.scan start fuel chanlNum amount = some r) :
    SendChange m (m.sendScanned result r).1 (m.sendScanned result r).2.1 := by
  cases r with
  | nothing n amount => exact .idle n _
  | found n ch front rest amount =>
    rcases scan_found hscan with ⟨hc, hch, hst, hqueue, hfits⟩
    cases result with
    | recoverable => exact .idle n none
    | success =>
      rcases sentData_eq { m with sendRun := some ⟨n, amount⟩ } n front rest hst with
        ⟨s, ps, hfinish, heq⟩
      simp only [sendScanned, heq]
      exact .data _ hc hch hst hqueue hfits hfinish

theorem sendRound_change {cursor : SendCursor}
    (h : m.sendRound cursor result = some (m', sent, informs)) : SendChange m m' sent := by
  simp only [sendRound] at h
  split at h
  · cases hqueue : m.sendQueue with
    | cons p rest =>
      simp only [hqueue, Option.some.injEq] at h
      have hchange := sendControl_change result hqueue
      rwa [h] at hchange
    | nil =>
      simp only [hqueue] at h
      rcases Option.map_eq_some_iff.mp h with ⟨r, hscan, heq⟩
      have hchange := sendScanned_change result hscan
      rwa [heq] at hchange
  · cases h
    exact .idle m.chanlNum none

/-- A step of the send task sends nothing, the front control packet, or the front buffer
of a channel that may send. -/
theorem sendStep_change (h : m.sendStep result = some (m', sent, informs)) :
    SendChange m m' sent := by
  cases hrun : m.sendRun with
  | none =>
    simp only [sendStep, hrun] at h
    cases h
    exact .idle m.chanlNum _
  | some cursor =>
    simp only [sendStep, hrun] at h
    exact sendRound_change h

end Mux

theorem SendChange.queueEffect {m : Mux} (h : SendChange m m' sent) {c : Nat} {ch' : Channel}
    (hch' : m'.channels c = some ch') :
    ∃ ch, m.channels c = some ch ∧ ch'.receiveQueue = ch.receiveQueue ∧
      (ch'.sendQueue = ch.sendQueue ∨
        ∃ front, sent = some (.data front) ∧ ch.sendQueue = front :: ch'.sendQueue) := by
  cases h with
  | idle _ _ | control _ => exact ⟨ch', hch', rfl, .inl rfl⟩
  | @data i ch front rest s ps run hc hch hst hqueue hfits hfinish =>
    rw [Mux.setChannel_channels, Mux.transmitAll_channels] at hch'
    by_cases hi : c = i
    · subst hi
      rw [Function.update_self] at hch'
      cases hch'
      exact ⟨ch, hch, rfl, .inr ⟨front, rfl, hqueue⟩⟩
    · rw [Function.update_of_ne hi] at hch'
      exact ⟨ch', hch', rfl, .inl rfl⟩

theorem SendChange.config_eq {m : Mux} (h : SendChange m m' sent) : m'.config = m.config := by
  cases h with
  | idle _ _ | control _ => rfl
  | data run _ _ _ _ _ _ =>
    rw [Mux.setChannel_config, Mux.transmitAll_config]
    rfl

end LteModemKernel.NetMux
