import LteModemKernel.NetMux.Termination

/-!
# The scan of the send loop

`ProcessSendQueues` goes around the channels from a static position and leaves its loop by
comparing two amounts of bytes.  The amounts tell that nothing more can be sent, but the position
is not wrapped around behind a buffer of the last channel.

Main results:

- Theorem `send_scan_work_conserving`: in a run without data for the last channel, every channel
  number inspected is one of the array, and a call that the link does not defer leaves nothing
  that could be sent.
- Theorem `send_scan_out_of_bounds`: after a buffer of the last channel the next pass starts
  behind the array.
-/

namespace LteModemKernel.NetMux

open Lib Function Finset Mux TransitionSystem UInt32 Nat

variable {m m' : Mux} {passed : Finset Nat} {ch : Channel}

namespace Mux

/-- A pass stops at a channel that is sending or flushing, unless its front buffer does not
fit. -/
def stopsAt (m : Mux) (c : Nat) : Bool :=
  (m.channels c).any fun ch => ch.state ∈ [.sending, .flushing] &&
    ch.sendQueue.head?.all fun front => m.fits c front

/-- The channel numbers that a pass inspects. -/
def scanned (m : Mux) (start : Nat) : Nat → Nat → List Nat
  | 0, _ => []
  | fuel + 1, c =>
    c :: if c < m.config.maxchannels ∧ m.stopsAt c = false ∧ m.nextChannel c ≠ start then
      m.scanned start fuel (m.nextChannel c) else []

/-- The channel numbers that the next round of a call inspects. -/
def inspected (m : Mux) : List Nat :=
  match m.sendRun with
  | none => []
  | some cursor =>
    if cursor.ignoreAmount < m.totalQueuedAmount ∧ m.sendQueue.isEmpty then
      m.scanned cursor.startChanlNum (m.config.maxchannels + 1) m.chanlNum
    else []

/-- The bytes of all queues. -/
def queuedBytes (m : Mux) : Nat := controlBytes m.sendQueue + channelsBytes m

/-- Nothing more can be sent. -/
structure Exhausted (m : Mux) : Prop where
  control : m.sendQueue = [] ∨ m.sendBuffersAvailable = 0
  channel : ∀ c, ¬m.CanSend c

theorem scanned_lt {start fuel c : Nat} (hc : c < m.config.maxchannels) :
    ∀ i ∈ m.scanned start fuel c, i < m.config.maxchannels := by
  induction fuel generalizing c with
  | zero => exact nofun
  | succ fuel ih =>
    have hnext : m.nextChannel c < m.config.maxchannels := by
      unfold nextChannel
      split_ifs <;> omega
    rw [scanned, List.forall_mem_cons]
    refine ⟨hc, ?_⟩
    split_ifs
    · exact ih hnext
    · exact nofun

end Mux

theorem buffersUsed_ne_zero {length size : UInt32} (hlength : length ≠ 0) (hsize : 0 < size) :
    buffersUsed length size ≠ 0 := by
  intro hzero
  replace hzero := congrArg toNat hzero
  have hpos : 0 < size.toNat := hsize
  have hlt := length.toNat_lt
  unfold buffersUsed at hzero
  split_ifs at hzero with hmod
  · have hmod' : length.toNat % size.toNat = 0 := by
      rw [← UInt32.toNat_mod, hmod]
      rfl
    have hdecomp := div_add_mod length.toNat size.toNat
    rw [hmod', ← UInt32.toNat_div, hzero] at hdecomp
    exact hlength (UInt32.toNat_inj.mp hdecomp.symm)
  · have hone : size.toNat ≠ 1 := by
      intro hone
      apply hmod
      rw [← UInt32.toNat_inj, UInt32.toNat_mod, hone, mod_one]
      rfl
    have hhalf : length.toNat / size.toNat ≤ length.toNat / 2 :=
      div_le_div_left (by omega) (by decide)
    change (length.toNat / size.toNat + 1) % 2 ^ 32 = 0 at hzero
    rw [mod_eq_of_lt (by omega)] at hzero
    exact succ_ne_zero _ hzero

theorem queueBytes_pos (front : DataPacket) (rest : List DataPacket) :
    front.size ≤ queueBytes (front :: rest) ∧ 0 < front.size := by
  rw [queueBytes_cons, DataPacket.size, dataPacketHdrSize]
  omega

namespace Orderly

/-- The bytes of a channel that can send are counted. -/
theorem size_le (h : Orderly m) {c : Nat} (hch : m.channels c = some ch) :
    queueBytes ch.sendQueue ≤ m.queuedBytes := by
  have hmem : c ∈ range m.config.maxchannels := mem_range.mpr (h.accounted.lt_of_some hch)
  have hle := single_le_sum (f := fun i => channelBytes (m.channels i))
    (fun _ _ => zero_le _) hmem
  simp only [hch] at hle
  exact hle.trans (le_add_left _ _)

theorem exhausted_of_no_buffers (h : Orderly m) (hbytes : m.queuedBytes < 2 ^ 32)
    (hzero : m.sendBuffersAvailable = 0) : m.Exhausted := by
  refine ⟨.inr hzero, ?_⟩
  rintro c ⟨ch, front, rest, hch, -, hqueue, -, -, hfits⟩
  have hle := h.size_le hch
  rw [hqueue] at hle
  have hsize := queueBytes_pos front rest
  rw [hzero, UInt32.le_zero_iff] at hfits
  refine buffersUsed_ne_zero (fun heq => ?_) m.config.remoteRcvBufferSize_pos hfits
  have hnat := congrArg toNat heq
  rw [toNat_ofNat', mod_eq_of_lt (by omega)] at hnat
  exact hsize.2.ne' hnat

/-- The loop is left with nothing to send: the bytes that are counted are those of channels that
cannot send. -/
theorem exhausted_of_total (h : Orderly m) (hbytes : m.queuedBytes < 2 ^ 32)
    (hsub : passed ⊆ range m.config.maxchannels) (hcannot : ∀ c ∈ passed, ¬m.CanSend c)
    (hle : m.totalQueuedAmount ≤ ofNat (∑ c ∈ passed, queueBytes (m.sendQueueOf c))) :
    m.Exhausted := by
  have hchannels : channelsBytes m =
      ∑ c ∈ range m.config.maxchannels \ passed, queueBytes (m.sendQueueOf c) +
        ∑ c ∈ passed, queueBytes (m.sendQueueOf c) := by
    rw [sum_sdiff hsub]
    exact sum_congr rfl fun c _ => channelBytes_eq m c
  rw [h.accounted.total, le_iff_toNat_le, toNat_ofNat', toNat_ofNat'] at hle
  unfold queuedBytes at hbytes
  rw [mod_eq_of_lt hbytes, mod_eq_of_lt (by omega)] at hle
  constructor
  · left
    cases hqueue : m.sendQueue with
    | nil => rfl
    | cons p rest =>
      have hp : 0 < p.size := by cases p <;> exact succ_pos _
      rw [hqueue, controlBytes_cons] at hle
      omega
  · intro c hcan
    by_cases hpassed : c ∈ passed
    · exact hcannot c hpassed hcan
    obtain ⟨ch, front, rest, hch, -, hqueue, -⟩ := hcan
    have hmem : c ∈ range m.config.maxchannels \ passed :=
      mem_sdiff.mpr ⟨mem_range.mpr (h.accounted.lt_of_some hch), hpassed⟩
    have hone := single_le_sum (f := fun i => queueBytes (m.sendQueueOf i))
      (fun _ _ => zero_le _) hmem
    simp only [sendQueueOf_of_some hch, hqueue] at hone
    have hsize := queueBytes_pos front rest
    omega

end Orderly

/-- The state of a call: it has passed channels that cannot send and counted their bytes, or has
returned with nothing left to send. -/
def CallInv (m : Mux) : Prop :=
  match m.sendRun with
  | some cursor => ∃ passed ⊆ range m.config.maxchannels, (∀ c ∈ passed, ¬m.CanSend c) ∧
    cursor.ignoreAmount = ofNat (∑ c ∈ passed, queueBytes (m.sendQueueOf c))
  | none => m.queuedBytes < 2 ^ 32 → m.Exhausted

/-- A buffer is sent on another channel: one that could not send before cannot send now. -/
theorem CallInv.sentData {n : Nat} {front : DataPacket} {rest : List DataPacket}
    (hst : ch.state = .sending ∨ ch.state = .flushing) (hfits : m.fits n front)
    (hsub : passed ⊆ range m.config.maxchannels) (hcannot : ∀ c ∈ passed, ¬m.CanSend c)
    (hn : n ∉ passed) {amount : UInt32}
    (hamount : amount = ofNat (∑ c ∈ passed, queueBytes (m.sendQueueOf c))) :
    CallInv ({ m with sendRun := some ⟨n, amount⟩ }.sentData n ch front rest) := by
  obtain ⟨s, ps, -, heq⟩ := sentData_eq { m with sendRun := some ⟨n, amount⟩ } n front rest hst
  rw [heq, transmitAll_eq]
  have hother : ∀ c ∈ passed, c ≠ n := fun c hc hcn => hn (hcn ▸ hc)
  refine ⟨passed, hsub, ?_, ?_⟩
  · rintro c hc ⟨ch', front', rest', hch', hst', hqueue', hsend, hbyte, hbuffers⟩
    refine hcannot c hc ⟨ch', front', rest', ?_, hst', hqueue', ?_, ?_, ?_⟩
    · exact (update_of_ne (hother c hc) _ _).symm.trans hch'
    · simpa [chargeSent, hother c hc] using hsend
    · simpa [chargeSent, hother c hc] using hbyte
    · refine UInt32.le_trans hbuffers ?_
      change m.sendBuffersAvailable - _ ≤ _
      rw [UInt32.le_iff_toNat_le, UInt32.toNat_sub_of_le _ _ hfits.2.2]
      exact sub_le _ _
  · refine hamount.trans (congrArg ofNat (sum_congr rfl fun c hc => ?_))
    simp [sendQueueOf, chargeSent, hother c hc]

/-- At its start a call has passed no channel. -/
theorem CallInv.entered (hidle : m.sendRun = none) (hstep : m.act (.send .success) = some m') :
    CallInv m' := by
  simp only [act, sendStep, hidle, Option.map_some] at hstep
  cases hstep
  exact ⟨∅, empty_subset _, fun c hc => absurd hc (notMem_empty c), rfl⟩

/-- Every round of a call that is not deferred keeps the invariant. -/
theorem CallInv.sendStep (h : Orderly m) (hinv : CallInv m)
    (hstep : m.act (.send .success) = some m') : CallInv m' := by
  cases hrun : m.sendRun with
  | none => exact .entered hrun hstep
  | some cursor =>
    obtain ⟨⟨_, sent, informs⟩, hout, rfl⟩ := Option.map_eq_some_iff.mp hstep
    simp only [sendStep, hrun, sendRound] at hout
    simp only [CallInv, hrun] at hinv
    obtain ⟨passed, hsub, hcannot, hignore⟩ := hinv
    by_cases hbusy : cursor.ignoreAmount < m.totalQueuedAmount
    · rw [if_pos hbusy] at hout
      cases hqueue : m.sendQueue with
      | cons p rest =>
        simp only [hqueue, sendControl, Option.some.injEq] at hout
        by_cases hzero : m.sendBuffersAvailable = 0
        · rw [if_pos hzero] at hout
          cases hout
          intro hbytes
          rw [← hqueue] at hbytes
          exact ⟨.inr hzero, (h.exhausted_of_no_buffers hbytes hzero).channel⟩
        · rw [if_neg hzero] at hout
          cases hout
          simp only [CallInv, hrun]
          exact ⟨passed, hsub, hcannot, hignore⟩
      | nil =>
        simp only [hqueue] at hout
        obtain ⟨r, hscan, hr⟩ := Option.map_eq_some_iff.mp hout
        have hstart := h.start cursor hrun
        obtain ⟨r', visited, hscan', hvisited⟩ := scan_spec
          (fun c ch hch => ⟨h.accounted.channel c ch hch, h.channel c ch hch⟩) 0 hstart h.position
          (le_succ_of_le (passSpan_card_le hstart))
        cases hscan.symm.trans hscan'
        have hrange : visited ⊆ range m.config.maxchannels :=
          hvisited.subset.trans (passSpan_subset hstart)
        cases r with
        | nothing n amount =>
          cases hr
          obtain ⟨-, -, hamount⟩ := hvisited.nothing n amount rfl
          exact ⟨visited, hrange, hvisited.cannot, by rw [hamount, zero_add]; rfl⟩
        | found n ch front rest amount =>
          obtain ⟨-, -, hst, -, hfits⟩ := scan_found hscan
          obtain ⟨-, hn, hamount⟩ := hvisited.found n ch front rest amount rfl
          cases hr
          exact .sentData hst hfits hrange hvisited.cannot hn
            (by rw [hamount, zero_add])
    · rw [if_neg hbusy] at hout
      cases hout
      intro hbytes
      have hle := UInt32.not_lt.mp hbusy
      rw [hignore] at hle
      obtain ⟨hcontrol, hchannel⟩ := h.exhausted_of_total hbytes hsub hcannot hle
      exact ⟨hcontrol, hchannel⟩

/-- The bytes queued on a channel, and those of the packet that a flush is to send. -/
def flushBytes : Option Channel → Nat
  | none => 0
  | some ch => queueBytes ch.sendQueue + if ch.state = .flushing then 8 else 0

/-- The bytes of all queues after the flushes, at most. -/
def Mux.flushedBytes (m : Mux) : Nat :=
  controlBytes m.sendQueue + ∑ c ∈ range m.config.maxchannels, flushBytes (m.channels c)

theorem SendChange.flushedBytes_le {sent : Option Message} (h : SendChange m m' sent) :
    m'.flushedBytes ≤ m.flushedBytes := by
  cases h with
  | idle => exact le_rfl
  | control hqueue => simp [flushedBytes, hqueue, controlBytes_cons]
  | @data c ch front rest s ps run hc hch hst hqueue hfits hfinish =>
    have hchannel :
        controlBytes ps + flushBytes (some { afterFront ch front rest with state := s }) ≤
        flushBytes (m.channels c) := by
      simp only [hch, flushBytes, hqueue, queueBytes_cons, afterFront]
      cases hfinish with
      | more => exact (Nat.zero_add _).trans_le (Nat.add_le_add_right (Nat.le_add_left _ _) _)
      | sending => exact (zero_add _).trans_le (by simp; omega)
      | flushing _ hst =>
        rw [if_pos (show ch.state = .flushing from hst)]
        exact (Nat.add_comm _ _).trans_le (Nat.add_le_add_right (Nat.le_add_left _ _) 8)
    obtain ⟨others, hold, hnew⟩ := exists_sum_range hc
      (g := fun i => flushBytes (update m.channels c
        (some { afterFront ch front rest with state := s }) i)) fun i hi => by rw [update_of_ne hi]
    rw [transmitAll_eq]
    change controlBytes (m.sendQueue ++ ps) + ∑ i ∈ range m.config.maxchannels,
      flushBytes (update m.channels c _ i) ≤ _
    rw [flushedBytes, controlBytes_append, hold, hnew, update_self]
    omega

theorem queuedBytes_le_flushedBytes (m : Mux) : m.queuedBytes ≤ m.flushedBytes ∧
    m.flushedBytes ≤ m.queuedBytes + 8 * m.config.maxchannels := by
  have hbytes : ∀ x, channelBytes x ≤ flushBytes x ∧ flushBytes x ≤ channelBytes x + 8 := by
    intro x
    cases x with
    | none => simp [flushBytes, channelBytes]
    | some ch =>
      simp only [flushBytes, channelBytes]
      split_ifs <;> omega
  have hle := sum_le_sum (s := range m.config.maxchannels) fun c _ => (hbytes (m.channels c)).1
  have hge := sum_le_sum (s := range m.config.maxchannels) fun c _ => (hbytes (m.channels c)).2
  rw [sum_add_distrib, sum_const, card_range, smul_eq_mul] at hge
  simp only [queuedBytes, flushedBytes, channelsBytes]
  omega

theorem CallInv.runLabels {k : Nat} (h : Orderly m) (hinv : CallInv m)
    (hrun : runLabels act m (List.replicate k (.send .success)) = some m') :
    CallInv m' ∧ m'.flushedBytes ≤ m.flushedBytes := by
  induction k generalizing m with
  | zero =>
    cases hrun
    exact ⟨hinv, le_rfl⟩
  | succ k ih =>
    obtain ⟨m₁, hstep, hrest⟩ := Option.bind_eq_some_iff.mp hrun
    obtain ⟨m₂, hstep', horderly, -⟩ := h.sendStep .success
    cases hstep.symm.trans hstep'
    obtain ⟨hcall, hbytes⟩ := ih horderly (hinv.sendStep h hstep) hrest
    obtain ⟨_, hout, rfl⟩ := Option.map_eq_some_iff.mp hstep
    exact ⟨hcall, hbytes.trans (sendStep_change hout).flushedBytes_le⟩

/-- In every run of safe steps every channel number that a round inspects is one of the array.
After a call on its own that the link does not defer the control queue is empty or there are no
send buffers, and no channel can send, if the queues held less than 4 GB, with 8 bytes for each
channel. -/
theorem send_scan_work_conserving {m : Mux} (hm : muxSystem.ReachableUnder SendSafe m) :
    (∀ c ∈ m.inspected, c < m.config.maxchannels) ∧
      (m.sendRun = none → ∀ n m', runLabels act m (callLabels (fun _ => .success) n) = some m' →
        m'.sendRun = none → m.queuedBytes + 8 * m.config.maxchannels < 2 ^ 32 → m'.Exhausted) := by
  have horderly := orderly_of_reachable hm
  constructor
  · unfold inspected
    split
    · exact nofun
    · split_ifs
      · exact scanned_lt horderly.position
      · exact nofun
  · intro hidle n m' hcall hreturned hbytes
    have hlabels : callLabels (fun _ => .success) n = .replicate (n + 1) (.send .success) := by
      simp [callLabels]
    rw [hlabels] at hcall
    obtain ⟨m₁, hstep, hrest⟩ := Option.bind_eq_some_iff.mp hcall
    obtain ⟨m₂, hstep', horderly₁, -⟩ := horderly.sendStep .success
    cases hstep.symm.trans hstep'
    obtain ⟨hinv, hle⟩ := CallInv.runLabels horderly₁ (CallInv.entered hidle hstep) hrest
    rw [CallInv, hreturned] at hinv
    obtain ⟨_, hout, rfl⟩ := Option.map_eq_some_iff.mp hstep
    have hfirst := (sendStep_change hout).flushedBytes_le
    have hbefore := (queuedBytes_le_flushedBytes m).2
    have hafter := (queuedBytes_le_flushedBytes m').1
    exact hinv (by omega)

/-- The condition is met by a run that queues data on a channel before the last one. -/
theorem send_scan_work_conserving_sending : ∃ m n m', muxSystem.ReachableUnder SendSafe m ∧
    m.totalQueuedAmount = 23 ∧
      runLabels act m (callLabels (fun _ => .success) n) = some m' ∧ m'.Exhausted := by
  have hm := reachable_sendingRun rfl
  exact ⟨_, 3, _, hm, rfl, rfl, (send_scan_work_conserving hm).2 rfl 3 _ rfl rfl (by decide)⟩

/-- Two pieces of data for the last channel: the pass for the second one starts behind the
array. -/
theorem send_scan_out_of_bounds : ∃ m : Mux,
    muxSystem.Reachable m ∧ m.config.maxchannels ∈ m.inspected := by
  have hm : ∀ m, runLabels act (createMux .small 4)
      [.op (.enableChannel (.clientEnd .command) 1 8 8 0 0 100 4 100 4),
        .op (.sendData 1 [1, 2, 3] false), .op (.sendData 1 [4] false), .send .success,
        .send .success, .send .success] = some m → muxSystem.Reachable m := fun m hrun =>
    .runLabels (fun _ _ _ h => h) (.start ⟨.small, 4, rfl⟩) hrun
  exact ⟨_, hm _ rfl, by decide⟩

end LteModemKernel.NetMux
