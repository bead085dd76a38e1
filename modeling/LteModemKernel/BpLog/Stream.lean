import LteModemKernel.BpLog.Model
import LteModemKernel.Lib.Align

/-!
# The log stream

The bytes that the BP sends come out of `mb_ipc_log_read` in their order: what was read, what
is in the full buffers and the chunk that waits make up what was sent.  The invariant
`Held` describes the list of buffers, full ones first.

A message of the BP has sixteen bits for the length of a chunk, and a buffer has 51200 bytes.
`mb_ipc_readtasklet_function` does not compare the two.

Main results:
- Theorem `Held.fillLoop`: the reading loop takes the first bytes of the full buffers.
- Theorem `Held.readtaskletFunction`: the tasklet puts a chunk behind the others.
- Theorem `log_stream`: the stream in every run whose chunks fit in a buffer.
- Theorem `chunk_overruns_buffer`: a chunk of more than 51200 bytes is written past the end.
- Theorem `chunks_acknowledged`: no chunk is forgotten if there is memory for its buffers.
- Theorem `chunk_never_acknowledged`: a chunk is forgotten where there is none.
-/

namespace LteModemKernel.BpLog

open Lib Function List Nat State

/-! ## Byte order -/

/-- The bytes of a chunk, with the bytes of every 32-bit word reversed. -/
def chunkBytes (shared : Nat → UInt8) (addr len : Nat) : List UInt8 :=
  ((List.range ((len + 3) / 4)).flatMap fun k =>
    [shared (addr + (4 * k + 3)), shared (addr + (4 * k + 2)), shared (addr + (4 * k + 1)),
      shared (addr + 4 * k)]).take len

/-- The index within the words. -/
theorem invIndex_eq {i : Nat} (hi : i < 2 ^ 32) : invIndex i = 4 * (i / 4) + (3 - i % 4) := by
  have hmod : i &&& 3 = i % 4 := and_two_pow_sub_one_eq_mod i 2
  have hmask : i &&& 0xfffffffc = (i / 4) <<< 2 := by
    rw [shiftLeft_eq]
    exact and_clearLow (w := 32) (k := 2) hi
  unfold invIndex
  rw [hmod, hmask, ← shiftLeft_add_eq_or_of_lt (by omega), shiftLeft_eq]
  omega

theorem flatMap_words (f : Nat → UInt8) (n : Nat) :
    ((List.range n).flatMap fun k => [f (4 * k + 3), f (4 * k + 2), f (4 * k + 1), f (4 * k)])
      = (List.range (4 * n)).map fun i => f (4 * (i / 4) + (3 - i % 4)) := by
  induction n with
  | zero => rfl
  | succ n ih =>
    have hrange : .range (4 * (n + 1))
        = .range (4 * n) ++ [4 * n, 4 * n + 1, 4 * n + 2, 4 * n + 3] := by
      simp only [mul_add, mul_one, range_succ, append_assoc]
      rfl
    rw [range_succ, flatMap_append, ih, hrange, map_append]
    have h0 : 4 * (4 * n / 4) + (3 - 4 * n % 4) = 4 * n + 3 := by omega
    have h1 : 4 * ((4 * n + 1) / 4) + (3 - (4 * n + 1) % 4) = 4 * n + 2 := by omega
    have h2 : 4 * ((4 * n + 2) / 4) + (3 - (4 * n + 2) % 4) = 4 * n + 1 := by omega
    have h3 : 4 * ((4 * n + 3) / 4) + (3 - (4 * n + 3) % 4) = 4 * n := by omega
    simp only [flatMap_cons, flatMap_nil, append_nil, map_cons, map_nil, h0, h1, h2, h3]

theorem slice_memcpyWEndianessInv {dst shared : Nat → UInt8} {addr len : Nat}
    (hlen : len < 2 ^ 32) :
    slice (memcpyWEndianessInv dst (fun i => shared (addr + i)) len) 0 len
      = chunkBytes shared addr len := by
  have hwords := flatMap_words (fun i => shared (addr + i)) ((len + 3) / 4)
  unfold chunkBytes slice
  rw [hwords, ← map_take, take_range, min_eq_left (by omega)]
  apply map_congr_left
  intro i hi
  have hlt := mem_range.mp hi
  rw [memcpyWEndianessInv, zero_add, if_pos hlt, invIndex_eq (by omega)]

/-! ## The list of buffers -/

namespace State

/-- The buffers with data and the others, in the order of the list. -/
structure Held (s : State) (fulls frees : List BufId) : Prop where
  nodup : (fulls ++ frees).Nodup
  linked : Linked (fun b => (s.buf b).next) (fulls ++ frees)
  read : (fulls ++ frees).head? = some s.readBuf
  last : (fulls ++ frees).getLast? = some s.endBuf
  write : s.writeBuf = frees.head?
  count : (fulls ++ frees).length = s.bufNum
  le : s.bufNum ≤ maxLogBufNum
  ids : ∀ b ∈ fulls ++ frees, b < s.bufNum
  full : ∀ b ∈ fulls, (s.buf b).readNum < (s.buf b).dataNum ∧ (s.buf b).dataNum ≤ maxLogBufSize
  free : ∀ b ∈ frees, (s.buf b).readNum = 0 ∧ (s.buf b).dataNum = 0

/-- The bytes of a buffer that are not read yet. -/
def left (s : State) (b : BufId) : List UInt8 :=
  slice (s.buf b).ptr (s.buf b).readNum ((s.buf b).dataNum - (s.buf b).readNum)

variable {s s' : State} {fulls frees fulls' frees' : List BufId} {b : BufId} {out : List UInt8}

/-! ## Reading -/

theorem Held.readBuf_eq {rest : List BufId} (h : Held s (b :: rest) frees) : s.readBuf = b := by
  have hread := h.read
  simpa using hread.symm

theorem Held.readBuf_ne {rest : List BufId} (h : Held s (b :: rest) frees) :
    some s.readBuf ≠ s.writeBuf := by
  rw [h.readBuf_eq, h.write]
  intro heq
  have hmem : b ∈ frees := mem_of_head? heq.symm
  have hnot := (nodup_cons.mp h.nodup).1
  exact hnot (mem_append_right rest hmem)

theorem Held.readBuf_eq_writeBuf (h : Held s [] frees) : some s.readBuf = s.writeBuf := by
  rw [h.write]
  exact h.read.symm

theorem Held.advance {rest : List BufId} (h : Held s (b :: rest) frees) {num : Nat}
    (hnum : (s.buf b).readNum + num < (s.buf b).dataNum) :
    Held (s.setBuf b { s.buf b with readNum := (s.buf b).readNum + num }) (b :: rest) frees := by
  have hne : ∀ c ∈ rest ++ frees, c ≠ b := by
    rintro c hc rfl
    exact (nodup_cons.mp h.nodup).1 hc
  refine { h with linked := h.linked.congr ?_, full := ?_, free := ?_ }
  · intro c _
    by_cases hc : c = b <;> simp [setBuf, hc]
  · intro c hc
    rcases mem_cons.mp hc with rfl | hc
    · simpa [setBuf] using ⟨hnum, (h.full c mem_cons_self).2⟩
    · simpa [setBuf, hne c (mem_append_left frees hc)]
        using h.full c (mem_cons_of_mem b hc)
  · intro c hc
    simpa [setBuf, hne c (mem_append_right rest hc)] using h.free c hc

/-- The fields of a buffer that reading other buffers leaves alone. -/
structure SameData (x y : Buf) : Prop where
  ptr : x.ptr = y.ptr
  readNum : x.readNum = y.readNum
  dataNum : x.dataNum = y.dataNum

theorem left_congr (h : SameData (s'.buf b) (s.buf b)) : s'.left b = s.left b := by
  unfold left
  rw [h.ptr, h.readNum, h.dataNum]

/-- A buffer that is read to its end becomes the last of the empty ones. -/
theorem Held.moveToTail {rest : List BufId} (h : Held s (b :: rest) frees) :
    Held s.moveToTail rest (frees ++ [b]) ∧
      ∀ c, c ≠ b → SameData (s.moveToTail.buf c) (s.buf c) := by
  have hlinked : Linked (fun b => (s.buf b).next) (b :: (rest ++ frees)) := h.linked
  have hnodup : (b :: (rest ++ frees)).Nodup := h.nodup
  have hlast : (b :: (rest ++ frees)).getLast? = some s.endBuf := h.last
  obtain ⟨hbnot, hrest⟩ := nodup_cons.mp hnodup
  have hb := h.readBuf_eq
  have hend (e) (he : e ∈ (rest ++ frees).getLast?) : e = s.endBuf := by
    rw [getLast?_cons, he] at hlast
    exact Option.some.inj hlast
  obtain ⟨c, hc, hmove⟩ : ∃ c, (rest ++ frees ++ [b]).head? = some c ∧ s.moveToTail = { s with
      buf := update (update s.buf s.endBuf { s.buf s.endBuf with next := some b }) b
        { s.buf b with readNum := 0, dataNum := 0, next := none }
      readBuf := c
      endBuf := b
      writeBuf := if s.writeBuf = none then some b else s.writeBuf } := by
    unfold State.moveToTail
    cases hmany : rest ++ frees with
    | nil =>
      rw [hmany] at hlast hlinked
      have hself : b = s.endBuf := Option.some.inj hlast
      have hnext : (s.buf b).next = none := hlinked.1
      refine ⟨b, rfl, ?_⟩
      simp only [hb, setBuf, ← hself, ne_eq, not_true_eq_false, if_false, update_idem, hnext]
      split <;> rfl
    | cons c tl =>
      rw [hmany] at hlinked hbnot hend
      have hnext : (s.buf b).next = some c := hlinked.1
      have hne : b ≠ s.endBuf := by
        rw [← hend _ (getLast?_eq_some_getLast (cons_ne_nil c tl))]
        exact fun heq => hbnot (heq ▸ getLast_mem _)
      have hbuf (x y z : Buf) : update (update (update s.buf b x) s.endBuf y) b z = update
          (update s.buf s.endBuf y) b z := by
        rw [update_comm hne, update_idem]
      refine ⟨c, rfl, ?_⟩
      simp only [hb, setBuf, ne_eq, hne, not_false_eq_true, if_true, update_self, hnext,
        update_of_ne (Ne.symm hne), update_of_ne hne, hbuf]
      split <;> rfl
  have hsame (k) (hk : k ≠ b) : SameData (s.moveToTail.buf k) (s.buf k) := by
    rw [hmove]
    by_cases hke : k = s.endBuf
    · subst hke
      simp only [update_of_ne hk, update_self]
      exact ⟨rfl, rfl, rfl⟩
    · simp only [update_of_ne hk, update_of_ne hke]
      exact ⟨rfl, rfl, rfl⟩
  have hkept (k) (hk : k ∈ rest ++ frees) : SameData (s.moveToTail.buf k) (s.buf k) :=
    hsame k fun heq => hbnot (heq ▸ hk)
  have horder : rest ++ (frees ++ [b]) = (rest ++ frees) ++ [b] := (append_assoc _ _ _).symm
  refine ⟨?_, hsame⟩
  constructor
  · rw [horder]
    exact nodup_append_comm.mp hnodup
  · rw [horder, hmove]
    simp only [apply_update fun _ => Buf.next]
    exact hlinked.2.snoc hrest hbnot hend
  · rw [horder, hc, hmove]
  · rw [horder, hmove, getLast?_append, getLast?_singleton]
    rfl
  · rw [hmove]
    simp only [h.write]
    cases frees with
    | nil | cons f frees => rfl
  · have hcount := h.count
    rw [hmove, horder]
    simp only [cons_append, length_cons, length_append, length_nil] at hcount ⊢
    omega
  · rw [hmove]
    exact h.le
  · intro k hk
    rw [hmove]
    refine h.ids k ?_
    simpa [or_comm, or_assoc] using hk
  · intro k hk
    have hdata := hkept k (mem_append_left frees hk)
    rw [hdata.readNum, hdata.dataNum]
    exact h.full k (mem_cons_of_mem b hk)
  · intro k hk
    rcases mem_append.mp hk with hfree | hlast
    · have hdata := hkept k (mem_append_right rest hfree)
      rw [hdata.readNum, hdata.dataNum]
      exact h.free k hfree
    · rw [mem_singleton.mp hlast, hmove]
      simp

/-- Everything but the list of buffers. -/
structure Rest where
  bufNum : Nat
  isopen : Bool
  buffAvlEvent : Bool
  readtasklet : Bool
  buffVirtAddr : Nat
  buffLength : Nat
  shared : Nat → UInt8
  acked : Bool
  overrun : Bool
  sent : List (BitVec 32 × (Nat → UInt8))
  got : List UInt8

def rest (s : State) : Rest :=
  ⟨s.bufNum, s.isopen, s.buffAvlEvent, s.readtasklet, s.buffVirtAddr, s.buffLength, s.shared,
    s.acked, s.overrun, s.sent, s.got⟩

theorem moveToTail_rest : s.moveToTail.rest = s.rest := by
  unfold moveToTail
  dsimp only
  split <;> split <;> first | rfl | (split <;> rfl)

theorem slice_append (ptr : Nat → UInt8) (off a b : Nat) :
    slice ptr off (a + b) = slice ptr off a ++ slice ptr (off + a) b := by
  simp only [slice, range_add, map_append, map_map]
  congr 1
  apply map_congr_left
  intro i _
  simp [add_assoc]

theorem moveToTail_setBuf (hb : s.readBuf = b) (n : Nat) :
    (s.setBuf b { s.buf b with readNum := n }).moveToTail = s.moveToTail := by
  simp [moveToTail, setBuf, hb]

/-- The number of bytes of one pass of the reading loop. -/
def passNum (s : State) (count : Nat) : Nat :=
  let x := s.buf s.readBuf
  if count > x.dataNum - x.readNum then x.dataNum - x.readNum else count

/-- One pass of the reading loop. -/
def readPass (s : State) (count : Nat) : State × List UInt8 :=
  let x := s.buf s.readBuf
  let num := s.passNum count
  let s' := s.setBuf s.readBuf { x with readNum := x.readNum + num }
  (if x.dataNum ≤ x.readNum + num then s'.moveToTail else s', slice x.ptr x.readNum num)

theorem fillLoop_succ {i count : Nat} (hgo : ¬ (some s.readBuf = s.writeBuf ∨ count = 0)) :
    fillLoop (i + 1) s count out = fillLoop i (s.readPass count).1
      (count - s.passNum count) (out ++ (s.readPass count).2) := by
  rw [fillLoop, if_neg hgo]
  rfl

/-- A pass takes bytes of the first full buffer. -/
theorem Held.readPass {rest : List BufId} (h : Held s (b :: rest) frees) (count : Nat) :
    ∃ fulls' frees', Held (s.readPass count).1 fulls' frees' ∧
      (b :: rest).flatMap s.left =
          (s.readPass count).2 ++ fulls'.flatMap (s.readPass count).1.left ∧
      (s.readPass count).1.rest = s.rest := by
  have hb := h.readBuf_eq
  have hne : ∀ c ∈ rest, c ≠ b := by
    rintro c hc rfl
    exact (nodup_cons.mp h.nodup).1 (mem_append_left frees hc)
  unfold State.readPass State.passNum
  dsimp only
  rw [hb]
  by_cases hcount : count ≥ (s.buf b).dataNum - (s.buf b).readNum
  · have hnum : (if count > (s.buf b).dataNum - (s.buf b).readNum
        then (s.buf b).dataNum - (s.buf b).readNum else count)
        = (s.buf b).dataNum - (s.buf b).readNum := by
      split
      · rfl
      · omega
    rw [hnum, if_pos (by omega), moveToTail_setBuf hb]
    obtain ⟨hheld, hsame⟩ := h.moveToTail
    refine ⟨rest, frees ++ [b], hheld, ?_, moveToTail_rest⟩
    have hrest : rest.flatMap s.moveToTail.left = rest.flatMap s.left :=
      flatMap_congr fun c hc => left_congr (hsame c (hne c hc))
    rw [hrest, flatMap_cons]
    rfl
  · rw [if_neg (by omega : ¬ count > (s.buf b).dataNum - (s.buf b).readNum), if_neg (by omega)]
    refine ⟨b :: rest, frees, h.advance (by omega), ?_, rfl⟩
    have hrest : rest.flatMap (s.setBuf b { s.buf b with
        readNum := (s.buf b).readNum + count }).left = rest.flatMap s.left := by
      refine flatMap_congr fun c hc => left_congr ?_
      simp only [setBuf, update_of_ne (hne c hc)]
      exact ⟨rfl, rfl, rfl⟩
    have hleft : s.left b = slice (s.buf b).ptr (s.buf b).readNum count ++
        (s.setBuf b { s.buf b with readNum := (s.buf b).readNum + count }).left b := by
      simp only [left, setBuf, update_self]
      rw [← slice_append]
      congr 1
      omega
    rw [flatMap_cons, flatMap_cons, hrest, hleft, append_assoc]

/-- The reading loop takes the first bytes of the full buffers. -/
theorem Held.fillLoop (i count : Nat) (out : List UInt8) (h : Held s fulls frees) :
    ∃ fulls' frees' taken, Held (fillLoop i s count out).1 fulls' frees' ∧
      (fillLoop i s count out).2 = out ++ taken ∧
      fulls.flatMap s.left = taken ++ fulls'.flatMap (fillLoop i s count out).1.left ∧
      (fillLoop i s count out).1.rest = s.rest := by
  induction i generalizing s count out fulls frees with
  | zero => exact ⟨fulls, frees, [], h, by simp [fillLoop], rfl, rfl⟩
  | succ i ih =>
    by_cases hstop : some s.readBuf = s.writeBuf ∨ count = 0
    · rw [fillLoop, if_pos hstop]
      exact ⟨fulls, frees, [], h, by simp, rfl, rfl⟩
    · rw [fillLoop_succ hstop]
      cases fulls with
      | nil => exact absurd (.inl h.readBuf_eq_writeBuf) hstop
      | cons b rest =>
        obtain ⟨fulls', frees', hheld, hleft, hrest⟩ := h.readPass count
        obtain ⟨fulls'', frees'', taken, hheld', hout, hleft', hrest'⟩ :=
          ih (count - s.passNum count) (out ++ (s.readPass count).2) hheld
        refine ⟨fulls'', frees'', (s.readPass count).2 ++ taken, hheld', ?_, ?_, hrest'.trans hrest⟩
        · rw [hout, append_assoc]
        · rw [hleft, hleft', append_assoc]

/-! ## The tasklet -/

theorem Held.copyChunk {w : BufId} (h : Held s fulls (w :: frees)) (hpos : s.buffLength ≠ 0)
    (hlen : s.buffLength ≤ maxLogBufSize) :
    Held (s.copyChunk w) (fulls ++ [w]) frees ∧
    (fulls ++ [w]).flatMap (s.copyChunk w).left
      = fulls.flatMap s.left ++ chunkBytes s.shared s.buffVirtAddr s.buffLength := by
  have horder : fulls ++ [w] ++ frees = fulls ++ w :: frees := by simp
  have hne : ∀ c ∈ fulls ++ frees, c ≠ w := by
    rintro c hc rfl
    have hnodup := nodup_middle.mp h.nodup
    exact (nodup_cons.mp hnodup).1 hc
  have hbuf (c) (hc : c ≠ w) : (s.copyChunk w).buf c = s.buf c := by
    simp [State.copyChunk, setBuf, hc]
  have hnext (c) : ((s.copyChunk w).buf c).next = (s.buf c).next := by
    by_cases hc : c = w
    · subst hc
      simp [State.copyChunk, setBuf]
    · rw [hbuf c hc]
  have hw : (s.copyChunk w).buf w = { s.buf w with
      ptr := memcpyWEndianessInv (s.buf w).ptr (fun i => s.shared (s.buffVirtAddr + i)) s.buffLength
      readNum := 0
      dataNum := s.buffLength } := by
    simp [State.copyChunk, setBuf]
  obtain ⟨hnodup, hlinked, hread, hlast, hwrite, hcount, hle, hids, hfull, hfree⟩ := h
  have hw' := hlinked.next_of_append
  rw [← horder] at hnodup hlinked hread hlast hcount hids
  refine ⟨?_, ?_⟩
  · refine ⟨hnodup, hlinked.congr fun c _ => hnext c, hread, hlast, hw', hcount, hle, hids, ?_, ?_⟩
    · intro c hc
      rcases mem_append.mp hc with hc | hc
      · rw [hbuf c (hne c (mem_append_left frees hc))]
        exact hfull c hc
      · rw [mem_singleton.mp hc, hw]
        exact ⟨Nat.pos_of_ne_zero hpos, hlen⟩
    · intro c hc
      rw [hbuf c (hne c (mem_append_right fulls hc))]
      exact hfree c (mem_cons_of_mem w hc)
  · have hfulls : fulls.flatMap (s.copyChunk w).left = fulls.flatMap s.left := by
      refine flatMap_congr fun c hc => left_congr ?_
      rw [hbuf c (hne c (mem_append_left frees hc))]
      exact ⟨rfl, rfl, rfl⟩
    have hleft : (s.copyChunk w).left w = chunkBytes s.shared s.buffVirtAddr s.buffLength := by
      unfold left
      rw [hw]
      simp only [Nat.sub_zero]
      refine slice_memcpyWEndianessInv ?_
      simp only [maxLogBufSize] at hlen
      omega
    rw [flatMap_append, hfulls, flatMap_singleton, hleft]

/-- A new buffer is linked behind the last full one. -/
theorem Held.addBuf (h : Held s fulls []) (hnum : s.bufNum < maxLogBufNum) :
    Held s.addBuf fulls [s.bufNum] ∧ fulls.flatMap s.addBuf.left = fulls.flatMap s.left := by
  have hids := h.ids
  have hlast := h.last
  have hlinked := h.linked
  have hnodup := h.nodup
  have hread := h.read
  have hcount := h.count
  rw [append_nil] at hids hlast hlinked hnodup hread hcount
  have hnew : s.bufNum ∉ fulls := fun hmem => lt_irrefl _ (hids _ hmem)
  have hend : s.endBuf ≠ s.bufNum := by
    intro heq
    exact hnew (heq ▸ mem_of_getLast? hlast)
  have hbuf : s.addBuf.buf = update (update s.buf s.bufNum .fresh) s.endBuf
      { s.buf s.endBuf with next := some s.bufNum } := by
    simp [State.addBuf, setBuf, hend]
  have hsame (c) (hc : c ∈ fulls) : SameData (s.addBuf.buf c) (s.buf c) := by
    have hcn : c ≠ s.bufNum := fun heq => hnew (heq ▸ hc)
    rw [hbuf]
    by_cases hce : c = s.endBuf
    · subst hce
      rw [update_self]
      exact ⟨rfl, rfl, rfl⟩
    · rw [update_of_ne hce, update_of_ne hcn]
      exact ⟨rfl, rfl, rfl⟩
  refine ⟨?_, flatMap_congr fun c hc => left_congr (hsame c hc)⟩
  constructor
  · exact nodup_append_comm.mp (nodup_cons.mpr ⟨hnew, hnodup⟩)
  · rw [hbuf, update_comm hend.symm]
    simp only [apply_update fun _ => Buf.next]
    exact hlinked.snoc hnodup hnew fun e he => Option.some.inj (he.symm.trans hlast)
  · have hhead : (fulls ++ [s.bufNum]).head? = fulls.head? := by
      cases fulls with
      | nil => cases hread
      | cons b fulls => rfl
    rw [hhead]
    exact hread
  · simp [State.addBuf]
  · rfl
  · rw [length_append, hcount]
    rfl
  · exact hnum
  · intro c hc
    rcases mem_append.mp hc with hc | hc
    · exact lt_succ_of_lt (hids c hc)
    · rw [mem_singleton.mp hc]
      exact lt_succ_self _
  · intro c hc
    rw [(hsame c hc).readNum, (hsame c hc).dataNum]
    exact h.full c hc
  · intro c hc
    rw [mem_singleton.mp hc, hbuf, update_of_ne (Ne.symm hend), update_self]
    exact ⟨rfl, rfl⟩

/-! ## The stream -/

/-- The bytes of all chunks so far, with the bytes of every word reversed. -/
def sentBytes (s : State) : List UInt8 :=
  s.sent.flatMap fun m => chunkBytes m.2 (chunkAddr m.1) (dataSize m.1)

/-- The chunk that the tasklet has not copied yet. -/
def waiting (s : State) : List UInt8 :=
  if s.readtasklet ∨ s.buffAvlEvent then chunkBytes s.shared s.buffVirtAddr s.buffLength else []

/-- What was read, what is in the buffers and what waits is what was sent. -/
structure Stream (s : State) : Prop where
  held : ∃ fulls frees, Held s fulls frees ∧
    s.sentBytes = s.got ++ fulls.flatMap s.left ++ s.waiting
  fits : s.readtasklet = true ∨ s.buffAvlEvent = true → s.buffLength ≤ maxLogBufSize
  once : s.buffAvlEvent = true → s.readtasklet = false
  idle : s.acked = true → s.readtasklet = false ∧ s.buffAvlEvent = false
  inside : s.overrun = false

theorem stream_init (shared : Nat → UInt8) : Stream (init shared) := by
  refine ⟨⟨[], [0], ?_, rfl⟩, ?_, ?_, ?_, rfl⟩
  · exact ⟨by simp, ⟨rfl, trivial⟩, rfl, rfl, rfl, rfl, by simp [init, maxLogBufNum],
      by simp [init], by simp, by simp [init, Buf.fresh]⟩
  · intro h
    cases h with
    | inl h | inr h => cases h
  · exact nofun
  · intro _
    exact ⟨rfl, rfl⟩

theorem Stream.notify (h : Stream s) (hacked : s.acked = true) (msg : BitVec 32)
    (shared : Nat → UInt8) (hfits : dataSize msg ≤ maxLogBufSize) :
    Stream ({ s with
      acked := false
      shared := shared
      sent := s.sent ++ [(msg, shared)] }.dlogReadCallback msg) := by
  obtain ⟨hnot, hevent⟩ := h.idle hacked
  obtain ⟨fulls, frees, hheld, hsent⟩ := h.held
  refine ⟨⟨fulls, frees, { hheld with }, ?_⟩, fun _ => hfits, ?_, ?_, h.inside⟩
  · have hwaiting : s.waiting = [] := by simp [waiting, hnot, hevent]
    rw [hwaiting, append_nil] at hsent
    simp only [sentBytes, dlogReadCallback, flatMap_append, flatMap_singleton, waiting,
      true_or, if_true]
    have hsent' : s.sent.flatMap (fun m => chunkBytes m.2 (chunkAddr m.1) (dataSize m.1))
        = s.got ++ fulls.flatMap s.left := hsent
    rw [hsent']
    rfl
  · intro hev
    rw [show s.buffAvlEvent = true from hev] at hevent
    cases hevent
  · exact nofun

theorem Stream.of_held (hheld : Held s' fulls' frees')
    (hsent : s'.sentBytes = s'.got ++ fulls'.flatMap s'.left) (htasklet : s'.readtasklet = false)
    (hevent : s'.buffAvlEvent = false) (hinside : s'.overrun = false) : Stream s' := by
  have hwaiting : s'.waiting = [] := by simp [waiting, htasklet, hevent]
  refine ⟨⟨fulls', frees', hheld, ?_⟩, ?_, ?_, fun _ => ⟨htasklet, hevent⟩, hinside⟩
  · rw [hwaiting, append_nil]
    exact hsent
  · rw [htasklet, hevent]
    intro h
    cases h with
    | inl h | inr h => cases h
  · exact fun _ => htasklet

theorem Stream.tasklet (h : Stream s) (hrun : s.readtasklet = true) (alloc : Bool) :
    Stream ({ s with readtasklet := false }.readtaskletFunction alloc) := by
  have hevent : s.buffAvlEvent = false := by
    by_contra hev
    have := h.once (by simpa using hev)
    cases hrun.symm.trans this
  have hacked : s.acked ≠ true := by
    intro hack
    rw [(h.idle hack).1] at hrun
    cases hrun
  have hfits := h.fits (.inl hrun)
  obtain ⟨fulls, frees, hheld, hsent⟩ := h.held
  have hwaiting : s.waiting = chunkBytes s.shared s.buffVirtAddr s.buffLength := by
    simp [waiting, hrun]
  rw [hwaiting] at hsent
  unfold readtaskletFunction
  dsimp only
  split
  · -- no empty buffer: the chunk waits on
    refine ⟨⟨fulls, frees, { hheld with }, ?_⟩, fun _ => hfits, fun _ => rfl,
      fun hack => absurd hack hacked, h.inside⟩
    simp only [waiting, or_true, if_true]
    exact hsent
  · rename_i w hwrite
    obtain ⟨frees', rfl⟩ : ∃ frees', frees = w :: frees' := by
      rw [hheld.write] at hwrite
      cases frees with
      | nil => cases hwrite
      | cons c frees' =>
        cases hwrite
        exact ⟨frees', rfl⟩
    split
    · rename_i hpos
      have hheld' : Held { s with readtasklet := false } fulls (w :: frees') := { hheld with }
      obtain ⟨hcopied, hleft⟩ := hheld'.copyChunk hpos hfits
      have hinside : (copyChunk { s with readtasklet := false } w).overrun = false := by
        simp only [copyChunk, setBuf, h.inside, Bool.false_or, decide_eq_false_iff_not]
        omega
      have hsent' : s.sentBytes = s.got ++ (fulls ++ [w]).flatMap
          (copyChunk { s with readtasklet := false } w).left := by
        rw [hleft, ← append_assoc]
        exact hsent
      split
      · rename_i hfull
        cases alloc with
        | true =>
          have hnone : frees' = [] := by
            have hhead := hcopied.write.symm.trans hfull.1
            exact head?_eq_none_iff.mp hhead
          subst hnone
          obtain ⟨hadded, hadded'⟩ := hcopied.addBuf hfull.2
          refine .of_held { hadded with } ?_ rfl hevent hinside
          show s.sentBytes = s.got ++ (fulls ++ [w]).flatMap _
          rw [hsent', ← hadded']
          rfl
        | false => exact .of_held hcopied hsent' rfl hevent hinside
      · exact .of_held { hcopied with } hsent' rfl hevent hinside
    · rename_i hzero
      have hzero : s.buffLength = 0 := by simpa using hzero
      rw [hzero] at hsent
      have hsent' : s.sentBytes = s.got ++ fulls.flatMap s.left := by
        simpa [chunkBytes] using hsent
      exact .of_held { hheld with } hsent' rfl hevent h.inside

theorem Stream.take (h : Stream s)
    (hstream : s.sentBytes = s.got ++ fulls.flatMap s.left ++ s.waiting)
    (hheld' : Held s' fulls' frees') (hleft : fulls.flatMap s.left = out ++ fulls'.flatMap s'.left)
    (hrest : s'.rest = s.rest) : Stream { s' with got := s.got ++ out } := by
  simp only [rest, Rest.mk.injEq] at hrest
  obtain ⟨-, -, hevent, htasklet, haddr, hlength, hshared, hacked, hoverrun, hsent, -⟩ := hrest
  refine ⟨⟨fulls', frees', { hheld' with }, ?_⟩, ?_, ?_, ?_, ?_⟩
  · have hwaiting : waiting { s' with got := s.got ++ out } = s.waiting := by
      simp [waiting, htasklet, hevent, haddr, hlength, hshared]
    have hsentBytes : sentBytes { s' with got := s.got ++ out } = s.sentBytes := by
      simp [sentBytes, hsent]
    rw [hwaiting, hsentBytes, hstream, hleft, ← append_assoc]
    rfl
  · rw [htasklet, hevent, hlength]
    exact h.fits
  · rw [htasklet, hevent]
    exact h.once
  · rw [hacked, htasklet, hevent]
    exact h.idle
  · exact hoverrun.trans h.inside

/-- The tasklet is scheduled for the chunk that waits. -/
theorem Stream.reschedule (h : Stream s) (hevent : s.buffAvlEvent = true) :
    Stream { s with buffAvlEvent := false, readtasklet := true } := by
  obtain ⟨fulls, frees, hheld, hsent⟩ := h.held
  refine ⟨⟨fulls, frees, { hheld with }, ?_⟩, fun _ => h.fits (.inr hevent), ?_, ?_, h.inside⟩
  · have hwaiting : s.waiting = chunkBytes s.shared s.buffVirtAddr s.buffLength := by
      simp [waiting, hevent]
    rw [hwaiting] at hsent
    simp only [waiting, true_or, if_true]
    exact hsent
  · exact nofun
  · intro hack
    rw [(h.idle hack).2] at hevent
    cases hevent

theorem Stream.read (h : Stream s) (count : BitVec 32) :
    Stream { (s.logRead count).1 with got := s.got ++ (s.logRead count).2 } := by
  obtain ⟨fulls, frees, hheld, hsent⟩ := h.held
  have hnothing : Stream { s with got := s.got ++ [] } := h.take hsent hheld rfl rfl
  unfold logRead
  split
  · exact hnothing
  · split
    · exact hnothing
    · obtain ⟨fulls', frees', taken, hheld', hout, hleft, hrest⟩ :=
        hheld.fillLoop s.bufNum count.toInt.toNat []
      rw [nil_append] at hout
      rw [← hout] at hleft
      have hloop := h.take hsent hheld' hleft hrest
      unfold fillUserBuf
      dsimp only
      split
      · rename_i hevent
        exact hloop.reschedule hevent
      · exact hloop

end State

/-! ## Runs -/

/-- The chunks fit in a buffer. -/
def fitsGuard (_ : State) : Label → Prop
  | .notify msg _ => dataSize msg ≤ maxLogBufSize
  | _ => True

instance (s : State) (l : Label) : Decidable (fitsGuard s l) := by
  cases l <;> unfold fitsGuard <;> infer_instance

variable {s : State}

theorem stream_of_reachable (hs : system.ReachableUnder fitsGuard s) : s.Stream := by
  refine hs.invariant ?_ ?_
  · rintro s ⟨shared, rfl⟩
    exact stream_init shared
  · intro s l s' h hguard hexec
    cases l with
    | notify msg shared =>
      obtain ⟨hacked, ⟨⟩⟩ := Option.ite_none_right_eq_some.mp hexec
      exact h.notify hacked msg shared hguard
    | tasklet alloc =>
      obtain ⟨hrun, ⟨⟩⟩ := Option.ite_none_right_eq_some.mp hexec
      exact h.tasklet hrun alloc
    | read count =>
      cases hexec
      exact h.read count
    | «open» | release =>
      cases hexec
      obtain ⟨fulls, frees, hheld, hsent⟩ := h.held
      exact ⟨⟨fulls, frees, { hheld with }, hsent⟩, h.fits, h.once, h.idle, h.inside⟩

/-- In every run whose chunks fit in a buffer, the bytes returned by reads are the first bytes of
the chunks, with the bytes of every word reversed.  They are all of them once there is nothing to
read and no chunk waits.  No byte is written outside its buffer, and the buffers form a list with
the full ones first. -/
theorem log_stream {s : State} (hs : system.ReachableUnder fitsGuard s) :
    s.got <+: s.sentBytes ∧
    (some s.readBuf = s.writeBuf → s.readtasklet = false → s.buffAvlEvent = false →
      s.got = s.sentBytes) ∧
    s.overrun = false ∧ ∃ fulls frees, s.Held fulls frees := by
  have h := stream_of_reachable hs
  obtain ⟨fulls, frees, hheld, hsent⟩ := h.held
  refine ⟨?_, ?_, h.inside, fulls, frees, hheld⟩
  · rw [hsent, append_assoc]
    exact prefix_append _ _
  · intro hempty htasklet hevent
    have hwaiting : s.waiting = [] := by simp [waiting, htasklet, hevent]
    cases fulls with
    | nil =>
      rw [hsent, hwaiting]
      simp
    | cons b rest => exact absurd hempty hheld.readBuf_ne

/-- Three bytes of a chunk of six are read. -/
theorem log_stream_read : ∃ s : State, s.got = [3, 2, 1] ∧ s.sentBytes = [3, 2, 1, 0, 7, 6] ∧
    s.got <+: s.sentBytes := by
  have hstart : system.ReachableUnder fitsGuard (.init fun _ => 0) := .init ⟨_, rfl⟩
  rcases hstart.exists_observed (P := fun s => s.got = [3, 2, 1] ∧ s.sentBytes = [3, 2, 1, 0, 7, 6])
    [.notify 6 (fun i => UInt8.ofNat i), .tasklet true, .open, .read 3]
    (by decide +kernel) with ⟨s, hs, hgot, hsent⟩
  exact ⟨s, hgot, hsent, (log_stream hs).1⟩

/-- A chunk of 51201 bytes is written past the end of its buffer. -/
theorem chunk_overruns_buffer : ∃ s : State, system.Reachable s ∧ s.overrun = true := by
  have hstart : system.Reachable (.init fun _ => 0) := .init ⟨_, rfl⟩
  exact hstart.exists_observed [.notify 51201 (fun _ => 0), .tasklet true]
    (by decide +kernel)

/-! ## Acknowledgements -/

/-- There is memory when the tasklet needs it, and the chunks fit in a buffer. -/
def memoryGuard (s : State) : Label → Prop
  | .tasklet alloc => alloc = true
  | l => fitsGuard s l

instance (s : State) (l : Label) : Decidable (memoryGuard s l) := by
  cases l <;> unfold memoryGuard <;> infer_instance

/-- The tasklet runs only for a chunk without acknowledgement, so that no chunk gets two; an
acknowledged chunk is stored; and a chunk without acknowledgement has its tasklet scheduled, or
there is something to read. -/
structure Acknowledges (s : State) : Prop where
  once : ∀ alloc s', s.exec (.tasklet alloc) = some s' → s.acked = false
  stored : s.acked = true → ∃ fulls frees, s.Held fulls frees ∧
    s.sentBytes = s.got ++ fulls.flatMap s.left
  served : s.acked = false → s.readtasklet = false → some s.readBuf ≠ s.writeBuf

namespace State

variable {s' : State}

/-- A chunk without acknowledgement has left one of the two marks, and with `buff_avl_event` there
is no empty buffer. -/
structure Pending (s : State) : Prop where
  marked : s.acked = false → s.readtasklet = true ∨ s.buffAvlEvent = true
  blocked : s.buffAvlEvent = true → s.writeBuf = none

theorem Pending.tasklet (h : s.Stream) (hrun : s.readtasklet = true) :
    Pending ({ s with readtasklet := false }.readtaskletFunction true) := by
  have hevent (hev : s.buffAvlEvent = true) : False :=
    Bool.false_ne_true ((h.once hev).symm.trans hrun)
  have hdone (s' : State) (hacked : s'.acked = true) (hev : s'.buffAvlEvent = s.buffAvlEvent) :
      Pending s' :=
    ⟨fun hack => absurd (hack.symm.trans hacked) Bool.false_ne_true,
      fun hev' => (hevent (hev.symm.trans hev')).elim⟩
  unfold readtaskletFunction
  dsimp only
  split
  · exact ⟨fun _ => .inr rfl, fun _ => by assumption⟩
  · split
    · split <;> exact hdone _ rfl rfl
    · exact hdone _ rfl rfl

theorem Pending.read (h : Pending s) (hs : s.Stream) (count : BitVec 32) :
    Pending { (s.logRead count).1 with got := s.got ++ (s.logRead count).2 } := by
  obtain ⟨fulls, frees, hheld, -⟩ := hs.held
  obtain ⟨-, -, -, -, -, -, hrest⟩ := hheld.fillLoop s.bufNum count.toInt.toNat []
  simp only [rest, Rest.mk.injEq] at hrest
  obtain ⟨-, -, hevent, htasklet, -, -, -, hacked, -⟩ := hrest
  unfold logRead
  split
  · exact ⟨h.marked, h.blocked⟩
  split
  · exact ⟨h.marked, h.blocked⟩
  unfold fillUserBuf
  dsimp only
  split
  · exact ⟨fun _ => .inl rfl, nofun⟩
  · rename_i hnone
    refine ⟨?_, fun hev => absurd hev hnone⟩
    simp only [hacked, htasklet, hevent]
    exact h.marked

end State

theorem stream_of_memoryGuard (hs : system.ReachableUnder memoryGuard s) : s.Stream :=
  stream_of_reachable (hs.mono fun _ l hguard => by cases l <;> first | exact hguard | trivial)

theorem pending_of_reachable (hs : system.ReachableUnder memoryGuard s) : s.Pending := by
  refine hs.invariant_along ?_ ?_
  · rintro s ⟨shared, rfl⟩
    exact ⟨nofun, nofun⟩
  · intro s l s' hs h hguard hexec
    have hstream := stream_of_memoryGuard hs
    cases l with
    | notify msg shared =>
      obtain ⟨-, ⟨⟩⟩ := Option.ite_none_right_eq_some.mp hexec
      exact ⟨fun _ => .inl rfl, h.blocked⟩
    | tasklet alloc =>
      obtain ⟨hrun, ⟨⟩⟩ := Option.ite_none_right_eq_some.mp hexec
      cases hguard
      exact .tasklet hstream hrun
    | read count =>
      cases hexec
      exact h.read hstream count
    | «open» | release =>
      cases hexec
      exact ⟨h.marked, h.blocked⟩

/-- In every run whose chunks fit in a buffer and whose allocations succeed, every chunk is
acknowledged at most once and after it is stored, and none is forgotten. -/
theorem chunks_acknowledged {s : State} (hs : system.ReachableUnder memoryGuard s) :
    Acknowledges s := by
  have h := stream_of_memoryGuard hs
  have hpending := pending_of_reachable hs
  refine ⟨fun alloc s' hexec => ?_, fun hacked => ?_, fun hacked htasklet heq => ?_⟩
  · simp only [exec, Option.ite_none_right_eq_some] at hexec
    rw [← Bool.not_eq_true]
    exact fun hacked => Bool.false_ne_true ((h.idle hacked).1.symm.trans hexec.1)
  · obtain ⟨fulls, frees, hheld, hsent⟩ := h.held
    have hwaiting : s.waiting = [] := by simp [waiting, h.idle hacked]
    refine ⟨fulls, frees, hheld, ?_⟩
    rwa [hwaiting, append_nil] at hsent
  · rcases hpending.marked hacked with hmark | hmark
    · exact Bool.false_ne_true (htasklet.symm.trans hmark)
    · rw [hpending.blocked hmark] at heq
      cases heq

/-- A chunk of three bytes is acknowledged. -/
theorem chunks_acknowledged_one : ∃ s : State, s.acked = true ∧ s.sent.length = 1 ∧
    Acknowledges s := by
  have hstart : system.ReachableUnder memoryGuard (.init fun _ => 0) := .init ⟨_, rfl⟩
  rcases hstart.exists_observed (P := fun s => s.acked = true ∧ s.sent.length = 1)
    [.notify 3 (fun i => UInt8.ofNat i), .tasklet true] (by decide +kernel) with
    ⟨s, hs, hacked, hlength⟩
  exact ⟨s, hacked, hlength, chunks_acknowledged hs⟩

/-- Without memory for another buffer the chunk is stored and read, and never acknowledged. -/
theorem chunk_never_acknowledged : ∃ s : State, system.Reachable s ∧
    (s.got = [3, 2, 1] ∧ s.acked = false ∧ s.readtasklet = false ∧ s.buffAvlEvent = false) ∧
      ¬Acknowledges s := by
  have hstart : system.Reachable (.init fun _ => 0) := .init ⟨_, rfl⟩
  rcases hstart.exists_observed (P := fun s => (s.got = [3, 2, 1] ∧ s.acked = false ∧
      s.readtasklet = false ∧ s.buffAvlEvent = false) ∧ some s.readBuf = s.writeBuf)
    [.notify 3 (fun i => UInt8.ofNat i), .tasklet false, .open, .read 3]
    (by decide +kernel) with ⟨s, hs, hseen, hempty⟩
  exact ⟨s, hs, hseen, fun h => h.served hseen.2.1 hseen.2.2.1 hempty⟩

end LteModemKernel.BpLog
