import LteModemKernel.LinkDriver.Model

/-!
# Packets, frames and transfers

What `USBTransmit` puts in `write_buff`, and what the loops of the IPC driver make of it.
A `Transfer` is a list of nodes that the IPC driver copies as a whole: every node is a frame,
and only the last node has the END bit.

Main results:
- Theorem `carries_gather`: the nodes of `USBTransmit` carry packets from the head of
  the queue.
- Theorem `transfer_gather`: these nodes are a transfer.
- Theorem `usbTransmit_batch_bounds`: they fit in `write_buff`.
- Theorem `scanNodes_transfer`: the loops of `ipc_dma_memcpy_node2buf` find every frame of
  a transfer.
-/

namespace LteModemKernel.LinkDriver

open List Nat Node

variable {nodes t : List Node} {x : Node} {data : List UInt8} {p : Packet} {fuel : Nat}

/-! ## What a transfer is -/

/-- The packets whose frames fit in `write_buff`. -/
def Sendable (p : Packet) : Prop := 1 ≤ p.length ∧ p.length ≤ 15520

instance (p : Packet) : Decidable (Sendable p) := inferInstanceAs (Decidable (_ ∧ _))

/-- Only the last node has the END bit. -/
def Ended (t : List Node) : Prop := ∀ i x, t[i]? = some x → (x.fin = true ↔ i + 1 = t.length)

/-- Every node is a frame, within its buffer. -/
def Framed (t : List Node) : Prop :=
  ∀ x ∈ t, x.last = true ∧ 0 < x.length ∧ x.length ≤ maxFrameSize ∧ x.length ≤ x.dataPtr.length

/-- A list of nodes for one transfer. -/
structure Transfer (t : List Node) : Prop where
  framed : Framed t
  ended : Ended t
  pos : 0 < t.length
  few : t.length ≤ maxFrameNum

/-- Consecutive pieces of a packet. -/
def Pieces (p : Packet) (pieces : List (List UInt8)) : Prop :=
  pieces.flatten = p ∧ ∀ f ∈ pieces, f.length ≤ maxFrameSize

/-- The nodes are pieces of the packets, in their order. -/
def Carries (packets : List Packet) (t : List Node) : Prop :=
  ∃ pieces, List.Forall₂ Pieces packets pieces ∧ pieces.flatten = t.map bytes

theorem ended_cons : Ended (x :: t) ↔ (x.fin = true ↔ t = []) ∧ Ended t := by
  unfold Ended
  rw [length_cons, ← length_eq_zero_iff]
  constructor
  · intro h
    exact ⟨(h 0 x rfl).trans (by omega), fun i y hy => (h (i + 1) y hy).trans (by omega)⟩
  · rintro ⟨hx, ht⟩ (_ | i) y hy
    · cases hy
      exact hx.trans (by omega)
    · exact (ht i y hy).trans (by omega)

theorem Framed.head (h : Framed (x :: t)) :
    x.last = true ∧ 0 < x.length ∧ x.length ≤ maxFrameSize ∧ x.length ≤ x.dataPtr.length :=
  h x mem_cons_self

theorem Framed.tail (h : Framed (x :: t)) : Framed t :=
  fun y hy => h y (mem_cons_of_mem _ hy)

theorem map_undone_set {i : Nat} (hx : nodes[i]? = some x) :
    (nodes.set i { x with done := true }).map undone = nodes.map undone := by
  rcases List.getElem?_eq_some_iff.mp hx with ⟨hlt, rfl⟩
  rw [map_set]
  apply ext_getElem?
  intro j
  by_cases hij : i = j
  · subst hij
    rw [getElem?_set_self (by rw [length_map]; exact hlt), getElem?_map, hx]
    rfl
  · rw [getElem?_set_ne hij]

/-- A transfer stays one when nodes are done. -/
theorem Transfer.congr (h : Transfer t) (hsame : nodes.map undone = t.map undone) :
    Transfer nodes := by
  have hlength : nodes.length = t.length := by
    rw [← length_map undone, hsame, length_map]
  have hnode (i : Nat) (y : Node) (hy : nodes[i]? = some y) :
      ∃ d, t[i]? = some { y with done := d } := by
    have hi := congrArg (·[i]?) hsame
    simp only [getElem?_map, hy] at hi
    rcases Option.map_eq_some_iff.mp hi.symm with ⟨x, hx, hxy⟩
    cases y
    cases hxy
    exact ⟨x.done, hx⟩
  constructor
  · intro y hy
    rcases getElem?_of_mem hy with ⟨i, hi⟩
    rcases hnode i y hi with ⟨d, hx⟩
    have hframed := h.framed _ (mem_of_getElem? hx)
    exact hframed
  · intro i y hy
    rcases hnode i y hy with ⟨d, hx⟩
    have hended := h.ended i _ hx
    rwa [← hlength] at hended
  · exact hlength ▸ h.pos
  · exact hlength ▸ h.few

/-! ## Cutting a packet -/

/-- What `cutLoop` makes of the rest of a packet. -/
structure CutSpec (data : List UInt8) (nodes : List Node) : Prop where
  bytes : (nodes.map bytes).flatten = data
  framed : Framed nodes
  open_ : ∀ x ∈ nodes, x.fin = false
  count : nodes.length = (data.length - 1) / maxFrameSize + 1
  head : nodes.head?.map dataPtr = some data

/-- The last piece of a packet. -/
theorem cutSpec_last (hpos : 0 < data.length)
    (hle : data.length ≤ maxFrameSize) : CutSpec data [.frame data.length data] := by
  constructor
  · simp [bytes, frame]
  · exact forall_mem_singleton.mpr ⟨rfl, hpos, hle, le_refl _⟩
  · exact forall_mem_singleton.mpr rfl
  · rw [div_eq_of_lt (by omega)]
    rfl
  · rfl

/-- A piece of full size before the others. -/
theorem CutSpec.cons (hlt : maxFrameSize < data.length)
    (h : CutSpec (data.drop maxFrameSize) nodes) :
    CutSpec data (.frame maxFrameSize data :: nodes) := by
  constructor
  · rw [map_cons, flatten_cons, h.bytes]
    exact take_append_drop maxFrameSize data
  · exact forall_mem_cons.mpr
      ⟨⟨rfl, succ_pos _, le_refl _, le_of_lt hlt⟩, h.framed⟩
  · exact forall_mem_cons.mpr ⟨rfl, h.open_⟩
  · rw [length_cons, h.count, length_drop]
    have hsub : data.length - 1 = (data.length - maxFrameSize - 1) + maxFrameSize := by omega
    rw [hsub, add_div_right _ (by decide)]
  · rfl

theorem cutLoop_spec (hpos : 0 < data.length) (hfuel : data.length ≤ maxFrameSize + fuel) :
    CutSpec data (cutLoop fuel data) := by
  induction fuel generalizing data with
  | zero => exact cutSpec_last hpos hfuel
  | succ fuel ih =>
    unfold cutLoop
    by_cases hlt : maxFrameSize < data.length
    · rw [if_pos hlt]
      apply CutSpec.cons hlt
      have hsize : 0 < maxFrameSize := by decide
      apply ih <;> rw [length_drop] <;> omega
    · rw [if_neg hlt]
      exact cutSpec_last hpos (Nat.le_of_not_lt hlt)

theorem cut_spec (hp : Sendable p) : CutSpec p (cut p) :=
  cutLoop_spec hp.1 (le_add_left _ _)

theorem Sendable.frameNum (hp : Sendable p) :
    frameNum p.length = (cut p).length ∧ frameNum p.length ≤ sendQueueMaxSize := by
  have hcount := (cut_spec hp).count
  rcases hp with ⟨h1, h2⟩
  have hmod : (p.length + 2 ^ 32 - 1) % 2 ^ 32 = p.length - 1 := by omega
  have hle : (p.length - 1) / maxFrameSize ≤ 9 := by
    unfold maxFrameSize
    omega
  unfold LinkDriver.frameNum sendQueueMaxSize
  rw [hmod, hcount]
  omega

/-- The nodes of a packet are pieces of it. -/
theorem CutSpec.pieces (h : CutSpec p nodes) : Pieces p (nodes.map Node.bytes) := by
  refine ⟨h.bytes, ?_⟩
  intro f hf
  rcases mem_map.mp hf with ⟨x, hx, rfl⟩
  calc x.bytes.length
      ≤ x.length := length_take_le _ _
    _ ≤ maxFrameSize := (h.framed x hx).2.2.1

/-! ## The nodes of a transfer -/

/-- The packets that find no room are left in the queue, and no packet that is taken has more
than ten pieces or is empty while all entries are filled. -/
def Within : Nat → List Packet → Prop
  | _, [] => True
  | buffIndex, p :: rest =>
    if Sendable p then
      buffIndex + (p.length - 1) / maxFrameSize + 1 ≤ sendQueueMaxSize →
        Within (buffIndex + (p.length - 1) / maxFrameSize + 1) rest
    else p = [] ∧ buffIndex < sendQueueMaxSize ∧ Within (buffIndex + 1) rest

theorem Within.of_sendable {buffIndex : Nat} {queue : List Packet}
    (hqueue : ∀ p ∈ queue, Sendable p) : Within buffIndex queue := by
  induction queue generalizing buffIndex with
  | nil => trivial
  | cons p rest ih =>
    rw [Within, if_pos (hqueue p mem_cons_self)]
    exact fun _ => ih fun q hq => hqueue q (mem_cons_of_mem _ hq)

/-- What `gather` takes from the queue. -/
theorem gather_spec (buffIndex : Nat) (queue : List Packet) :
    (gather buffIndex queue).2 ≤ queue.length ∧
      (gather buffIndex queue).1 = (queue.take (gather buffIndex queue).2).flatMap cut := by
  fun_induction gather buffIndex queue with
  | case1 => exact ⟨le_refl _, rfl⟩
  | case2 => exact ⟨zero_le _, rfl⟩
  | case3 buffIndex p rest _ r ih =>
    refine ⟨succ_le_succ ih.1, ?_⟩
    rw [take_succ_cons, flatMap_cons, ← ih.2]

/-- The packets that are neither left in the queue nor fit in `write_buff`. -/
theorem length_cut (hp : ¬Sendable p) (hlen : p.length < 2 ^ 32) :
    sendQueueMaxSize < frameNum p.length ∧
      ((cut p).length = 1 ∧ p = [] ∨ sendQueueMaxSize < (cut p).length ∧ p ≠ []) := by
  cases p with
  | nil => exact ⟨by decide, .inl ⟨rfl, rfl⟩⟩
  | cons x p =>
    have hlong : 15520 < (x :: p).length := by
      by_contra hle
      exact hp ⟨succ_pos _, Nat.le_of_not_lt hle⟩
    have hcut : CutSpec (x :: p) (cut (x :: p)) := cutLoop_spec (succ_pos _) (le_add_left _ _)
    have hcount := hcut.count
    have hmod : ((x :: p).length + 2 ^ 32 - 1) % 2 ^ 32 = (x :: p).length - 1 := by omega
    have hmany : sendQueueMaxSize ≤ ((x :: p).length - 1) / maxFrameSize := by
      unfold sendQueueMaxSize maxFrameSize
      omega
    rw [frameNum, hmod, hcount]
    exact ⟨lt_succ_of_le hmany, .inr ⟨lt_succ_of_le hmany, nofun⟩⟩

theorem gather_within {buffIndex : Nat} {queue : List Packet} (hi : buffIndex ≤ sendQueueMaxSize)
    (hlen : ∀ p ∈ queue, p.length < 2 ^ 32) :
    buffIndex + (gather buffIndex queue).1.length ≤ sendQueueMaxSize ↔ Within buffIndex queue := by
  induction queue generalizing buffIndex with
  | nil => exact iff_of_true hi trivial
  | cons p rest ih =>
    have hrest (q) (hq : q ∈ rest) := hlen q (mem_cons_of_mem _ hq)
    by_cases hp : Sendable p
    · rcases hp.frameNum with ⟨hnum, hle⟩
      rw [Within, if_pos hp, add_assoc, ← (cut_spec hp).count, gather, hnum]
      by_cases hfit : buffIndex + (cut p).length ≤ sendQueueMaxSize
      · rw [if_neg (by omega), ← ih hfit hrest, length_append]
        omega
      · rw [if_pos (by omega)]
        exact iff_of_true hi fun h => absurd h hfit
    · rcases length_cut hp (hlen p mem_cons_self) with ⟨hnum, ⟨hone, hnil⟩ | ⟨hmany, hne⟩⟩
      · rw [Within, if_neg hp, gather, if_neg (by omega), length_append, hone]
        constructor
        · intro h
          exact ⟨hnil, by omega, (ih (by omega) hrest).mp (by omega)⟩
        · rintro ⟨_, hlt, h⟩
          have hroom : buffIndex + 1 ≤ sendQueueMaxSize := hlt
          have := (ih hroom hrest).mpr h
          omega
      · rw [Within, if_neg hp, gather, if_neg (by omega), length_append]
        exact iff_of_false (by omega) fun h => hne h.1

theorem gather_pos (p : Packet) (rest : List Packet) : 0 < (gather 0 (p :: rest)).2 := by
  unfold gather
  rw [if_neg (by omega)]
  exact succ_pos _

@[simp]
theorem length_markEnd (nodes : List Node) : (markEnd nodes).length = nodes.length := by
  fun_induction markEnd nodes with
  | case1 => rfl
  | case2 x => rfl
  | case3 x y rest ih => exact congrArg (· + 1) ih

@[simp]
theorem map_bytes_markEnd (nodes : List Node) :
    (markEnd nodes).map bytes = nodes.map bytes := by
  fun_induction markEnd nodes with
  | case1 => rfl
  | case2 x => rfl
  | case3 x y rest ih => exact congrArg (x.bytes :: ·) ih

@[simp]
theorem head_markEnd (nodes : List Node) :
    (markEnd nodes).head?.map dataPtr = nodes.head?.map dataPtr := by
  fun_induction markEnd nodes with
  | case1 => rfl
  | case2 x => rfl
  | case3 x y rest ih => rfl

theorem framed_markEnd (h : Framed nodes) : Framed (markEnd nodes) := by
  fun_induction markEnd nodes with
  | case1 => exact h
  | case2 x => exact forall_mem_singleton.mpr h.head
  | case3 x y rest ih => exact forall_mem_cons.mpr ⟨h.head, ih h.tail⟩

/-- Nodes without an END bit get it at their end. -/
theorem ended_markEnd (h : ∀ x ∈ nodes, x.fin = false) : Ended (markEnd nodes) := by
  fun_induction markEnd nodes with
  | case1 => exact nofun
  | case2 x => exact ended_cons.mpr ⟨by simp, nofun⟩
  | case3 x y rest ih =>
    rw [ended_cons]
    constructor
    · have hx := h x mem_cons_self
      have hne : markEnd (y :: rest) ≠ [] := by
        intro hnil
        have hlen := length_markEnd (y :: rest)
        rw [hnil] at hlen
        cases hlen
      simp [hx, hne]
    · exact ih fun z hz => h z (mem_cons_of_mem _ hz)

section Gathered

variable {queue : List Packet}

/-- `USBTransmit` makes a transfer. -/
theorem transfer_gather (hqueue : ∀ p ∈ queue, Sendable p) (hne : queue ≠ []) :
    Transfer (markEnd (gather 0 queue).1) := by
  have hnodes := (gather_spec 0 queue).2
  have hcut (x) (hx : x ∈ (gather 0 queue).1) : ∃ p, Sendable p ∧ x ∈ cut p := by
    rw [hnodes] at hx
    rcases mem_flatMap.mp hx with ⟨p, hp, hx⟩
    exact ⟨p, hqueue p (mem_of_mem_take hp), hx⟩
  constructor
  · apply framed_markEnd
    intro x hx
    rcases hcut x hx with ⟨p, hp, hx⟩
    exact (cut_spec hp).framed x hx
  · apply ended_markEnd
    intro x hx
    rcases hcut x hx with ⟨p, hp, hx⟩
    exact (cut_spec hp).open_ x hx
  · rw [length_markEnd, hnodes]
    cases queue with
    | nil => exact absurd rfl hne
    | cons p rest =>
      have hp := hqueue p mem_cons_self
      have hcount := (cut_spec hp).count
      rcases exists_eq_succ_of_ne_zero (ne_of_gt (gather_pos p rest))
        with ⟨k, hk⟩
      rw [hk, succ_eq_add_one, take_succ_cons, flatMap_cons, length_append,
        hcount, add_right_comm]
      exact succ_pos _
  · have hlen (p) (hp : p ∈ queue) : p.length < 2 ^ 32 :=
      lt_of_le_of_lt (hqueue p hp).2 (by decide)
    have hfits := (gather_within (zero_le _) hlen).mpr (.of_sendable hqueue)
    rw [length_markEnd]
    unfold maxFrameNum
    unfold sendQueueMaxSize at hfits
    omega

theorem head_gather (hqueue : ∀ p ∈ queue, Sendable p) :
    (markEnd (gather 0 queue).1).head?.map dataPtr = queue.head? := by
  rw [head_markEnd, (gather_spec 0 queue).2]
  cases queue with
  | nil => rw [take_nil]; rfl
  | cons p rest =>
    have hp := hqueue p mem_cons_self
    have hhead := (cut_spec hp).head
    rcases exists_eq_succ_of_ne_zero (ne_of_gt (gather_pos p rest))
      with ⟨k, hk⟩
    rw [hk, succ_eq_add_one, take_succ_cons, flatMap_cons]
    cases hcut : cut p with
    | nil =>
      rw [hcut] at hhead
      cases hhead
    | cons x nodes =>
      rwa [hcut] at hhead

theorem forall₂_pieces {packets : List Packet} (h : ∀ p ∈ packets, Sendable p) :
    List.Forall₂ Pieces packets (packets.map fun p => (cut p).map Node.bytes) := by
  rw [forall₂_map_right_iff, forall₂_same]
  intro p hp
  exact (cut_spec (h p hp)).pieces

theorem carries_gather (hqueue : ∀ p ∈ queue, Sendable p) :
    Carries (queue.take (gather 0 queue).2) (markEnd (gather 0 queue).1) := by
  refine ⟨_, forall₂_pieces fun p hp => hqueue p (mem_of_mem_take hp), ?_⟩
  rw [map_bytes_markEnd, (gather_spec 0 queue).2, map_flatMap, flatMap_def]

end Gathered

/-! ## Bounds of a batch -/

/-- One more pass than the packet needs changes nothing. -/
theorem cutLoop_succ (hfuel : data.length ≤ maxFrameSize + fuel) :
    cutLoop (fuel + 1) data = cutLoop fuel data := by
  induction fuel generalizing data with
  | zero => exact if_neg (not_lt.mpr hfuel)
  | succ fuel ih =>
    have hsize : 0 < maxFrameSize := by decide
    have hdrop : (data.drop maxFrameSize).length ≤ maxFrameSize + fuel := by
      rw [length_drop]
      omega
    rw [cutLoop, ih hdrop]
    rfl

theorem cutLoop_eq_cut (hfuel : p.length ≤ fuel) : cutLoop fuel p = cut p := by
  induction hfuel with
  | refl => rfl
  | step hle ih => exact (cutLoop_succ (le_add_left_of_le hle)).trans ih

/-- What `USBTransmit` may do with the queue: its inner loop ends, at most ten entries of
`write_buff` are filled, one of them gets the END bit, and they hold packets of at most ten
pieces. -/
structure BatchBounds (queue : List Packet) : Prop where
  ends : ∀ p ∈ queue, ∀ fuel, p.length ≤ fuel → cutLoop fuel p = cut p
  within : (gather 0 queue).1.length ≤ sendQueueMaxSize
  marked : ∃ x ∈ markEnd (gather 0 queue).1, x.fin = true
  dropped : (gather 0 queue).1 = ((queue.take (gather 0 queue).2).filter fun p =>
    decide ((cut p).length ≤ sendQueueMaxSize)).flatMap cut

theorem cut_ne_nil (p : Packet) : cut p ≠ [] := by
  unfold cut
  cases p.length with
  | zero => exact nofun
  | succ n =>
    unfold cutLoop
    split <;> exact nofun

theorem exists_fin_markEnd (h : nodes ≠ []) : ∃ x ∈ markEnd nodes, x.fin = true := by
  fun_induction markEnd nodes with
  | case1 => exact absurd rfl h
  | case2 x => exact ⟨_, mem_cons_self, rfl⟩
  | case3 x y rest ih =>
    rcases ih nofun with ⟨z, hz, hfin⟩
    exact ⟨z, mem_cons_of_mem _ hz, hfin⟩

/-- The bounds hold for the queues that are not empty and whose packets stay within
`write_buff`, and for no others. -/
theorem usbTransmit_batch_bounds {queue : List Packet} (hlen : ∀ p ∈ queue, p.length < 2 ^ 32) :
    BatchBounds queue ↔ queue ≠ [] ∧ Within 0 queue := by
  have hwithin := gather_within (zero_le _) hlen
  rw [zero_add] at hwithin
  constructor
  · intro h
    refine ⟨?_, hwithin.mp h.within⟩
    rintro rfl
    rcases h.marked with ⟨x, hx, _⟩
    cases hx
  · rintro ⟨hne, h⟩
    have hfits := hwithin.mpr h
    have hnodes := (gather_spec 0 queue).2
    refine ⟨fun p _ fuel => cutLoop_eq_cut, hfits, exists_fin_markEnd ?_, ?_⟩
    · cases queue with
      | nil => exact absurd rfl hne
      | cons p rest =>
        rw [gather, if_neg (by omega)]
        exact append_ne_nil_of_left_ne_nil (cut_ne_nil p) _
    · have hpieces (p) (hp : p ∈ queue.take (gather 0 queue).2) :
          decide ((cut p).length ≤ sendQueueMaxSize) = true := by
        have hsub : cut p <+ _ := sublist_flatten_of_mem (mem_map_of_mem hp)
        rw [← flatMap_def, ← hnodes] at hsub
        exact decide_eq_true (le_trans hsub.length_le hfits)
      rwa [filter_eq_self.mpr hpieces]

/-- A packet that is too long does no harm behind one that is left in the queue. -/
theorem usbTransmit_batch_bounds_full :
    BatchBounds [.replicate 15520 0, [0x2A], .replicate 15521 0] := by
  refine (usbTransmit_batch_bounds ?_).mpr ⟨nofun, ?_⟩
  · simp [-reduceReplicate, length_replicate]
  · simp [-reduceReplicate, Within, Sendable, length_replicate, maxFrameSize, sendQueueMaxSize]

/-- A packet of 15521 bytes is put in eleven entries of `write_buff`. -/
theorem oversize_packet_overruns_write_buff :
    (gather 0 [replicate 15521 0]).1.length = 11 ∧ ¬BatchBounds [replicate 15521 0] := by
  have hlength : (replicate 15521 (0 : UInt8)).length = 15521 := length_replicate
  have hcut : CutSpec (.replicate 15521 0) (cutLoop 15521 (replicate 15521 0)) :=
    cutLoop_spec (by rw [hlength]; omega) (by rw [hlength]; omega)
  have hcount := hcut.count
  have heleven : (gather 0 [replicate 15521 0]).1.length = 11 := by
    rw [gather, if_neg (by rw [hlength]; decide)]
    simp only [gather, append_nil, cut, hlength, hcount]
    rfl
  refine ⟨heleven, fun h => ?_⟩
  have hwithin := h.within
  rw [heleven] at hwithin
  exact absurd hwithin (by decide)

/-! ## The loops of the IPC driver -/

variable {stale : List Node} {check : Node → Bool}

/-- The first END bit is that of the transfer. -/
theorem findIdx_ended (ht : Ended t) (hne : t ≠ []) :
    (t ++ stale).findIdx fin + 1 = t.length := by
  induction t with
  | nil => exact absurd rfl hne
  | cons x t ih =>
    rcases ended_cons.mp ht with ⟨hx, ht⟩
    rw [cons_append, findIdx_cons]
    cases hfin : x.fin with
    | true =>
      rw [hx.mp hfin]
      rfl
    | false =>
      have hne' : t ≠ [] := fun hnil => nomatch hfin.symm.trans (hx.mpr hnil)
      rw [cond_false, ih ht hne']
      rfl

theorem Transfer.nodeNum (ht : Transfer t) : nodeNum (t ++ stale) = t.length := by
  have hfew : t.length ≤ maxNodeNum := le_trans ht.few (by decide)
  unfold LinkDriver.nodeNum
  rw [take_append, take_of_length_le hfew]
  exact findIdx_ended ht.ended (length_pos_iff.mp ht.pos)

theorem Transfer.take_nodeNum (ht : Transfer t) :
    (t ++ stale).take (LinkDriver.nodeNum (t ++ stale)) = t := by
  rw [ht.nodeNum, take_left]

theorem Transfer.countFrames (ht : Transfer t) : countFrames (t ++ stale) = t.length := by
  have hlast : t.countP last = t.length := countP_eq_length.mpr fun x hx => (ht.framed x hx).1
  unfold LinkDriver.countFrames
  rw [ht.take_nodeNum, hlast, min_eq_right ht.few]

/-- The loops of `ipc_dma_memcpy_node2buf` take all nodes of a transfer that fits. -/
theorem scanNodes_transfer (hcheck : ∀ x, lengthOk x = true → check x = true) {len : Nat}
    (hframed : Framed t) (hended : Ended t) (hne : t ≠ []) (hfuel : t.length ≤ fuel)
    (hlen : len + maxFrameSize * t.length ≤ maxTempBuffSize) :
    scanNodes check fuel (t ++ stale) len 0 = (t.map Node.length, t.length) := by
  induction t generalizing fuel len with
  | nil => exact absurd rfl hne
  | cons x t ih =>
    rcases hframed.head with ⟨hlast, hpos, hle, _⟩
    rcases ended_cons.mp hended with ⟨hx, hended⟩
    rw [length_cons] at hfuel
    rw [length_cons, mul_succ] at hlen
    have hok : check x = true := hcheck x (decide_eq_true ⟨hpos, hle⟩)
    rcases Nat.exists_eq_add_of_le' (Nat.le_trans (Nat.succ_le_succ (Nat.zero_le _)) hfuel)
      with ⟨fuel, rfl⟩
    have hfit : ¬(maxTempBuffSize < len + x.length ∨ check x = false) := by
      rw [hok]
      simp only [Bool.true_eq_false, or_false, Nat.not_lt]
      omega
    rw [cons_append, scanNodes, if_neg hfit]
    simp only [hlast, if_true, Nat.zero_add]
    cases hfin : x.fin with
    | true =>
      rw [hx.mp hfin]
      rfl
    | false =>
      have hne' : t ≠ [] := fun hnil => nomatch hfin.symm.trans (hx.mpr hnil)
      rw [if_neg (by decide), ih hframed.tail hended hne' (by omega) (by omega)]
      rfl

theorem Transfer.scanNodes (ht : Transfer t) (stale : List Node)
    (hcheck : ∀ x, lengthOk x = true → check x = true) :
    scanNodes check maxNodeNum (t ++ stale) (headerSize t.length) 0
      = (t.map Node.length, t.length) := by
  have hfew := ht.few
  apply scanNodes_transfer hcheck ht.framed ht.ended (length_pos_iff.mp ht.pos)
  · exact le_trans hfew (by decide)
  · unfold headerSize maxTempBuffSize headerSize maxFrameSize maxFrameNum
    unfold maxFrameNum at hfew
    omega

end LteModemKernel.LinkDriver
