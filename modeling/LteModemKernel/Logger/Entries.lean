import LteModemKernel.Logger.Model

/-!
# Whole entries

The offsets of the logger are offsets of entries.  For each of them the entries from there up to
the write offset lie one behind the other in the ring, and fill less than all of it.

Main results:
- Theorem `Log.Sees.fixUp`: what `fix_up_readers` leaves of the entries at an offset.
- Theorem `Log.writeLocked_spec`: a write appends its entry or changes only what no offset
  needs.
-/

namespace LteModemKernel.Logger

open Lib List Nat

/-! ## Entries -/

/-- An entry: its first two bytes hold the length of its payload, which is not empty. -/
structure Framed (e : List UInt8) : Prop where
  lt : headerSize < e.length
  le : e.length ≤ headerSize + entryMaxPayload
  length : e.length = headerSize + ofLeBytes (e.take 2)

namespace Write

variable {w : Write}

@[simp]
theorem length_header : w.header.length = headerSize := by
  simp [header, headerSize]

@[simp]
theorem length_payload : w.payload.length = w.len := by
  simp only [payload, length_take, len, kiLeft]
  omega

@[simp]
theorem length_entry : w.entry.length = headerSize + w.len := by
  simp [entry]

theorem len_le : w.len ≤ entryMaxPayload := min_le_right _ _

/-- A write leaves an entry. -/
theorem framed_entry (h : w.len ≠ 0) : Framed w.entry := by
  have hle := w.len_le
  refine ⟨by rw [length_entry]; omega, by rw [length_entry]; omega, ?_⟩
  have htake : w.entry.take 2 = leBytes 2 w.len := by
    exact take_left' (leBytes_length 2 w.len)
  have hlt : w.len < 256 ^ 2 := by
    simp only [entryMaxPayload, headerSize] at hle
    omega
  rw [length_entry, htake, ofLeBytes_leBytes_of_lt hlt]

end Write

variable {count : Nat} {xs ys : List UInt8}

namespace Log

variable {log : Log} {off : Nat} {e : List UInt8} {es : List (List UInt8)}

/-! ## Offsets -/

/-- The size of a log is a power of two with room for two entries of any size, and the write
offset lies in it. -/
structure Sized (log : Log) : Prop where
  pow : ∃ m, log.size = 2 ^ m
  large : 2 * (headerSize + entryMaxPayload) ≤ log.size
  wOff_lt : log.wOff < log.size

theorem Sized.pos (h : Sized log) : 0 < log.size := lt_of_le_of_lt (zero_le _) h.wOff_lt

theorem Sized.loggerOffset (h : Sized log) (n : Nat) : log.loggerOffset n = n % log.size := by
  obtain ⟨m, hm⟩ := h.pow
  rw [Log.loggerOffset, hm, and_two_pow_sub_one_eq_mod]

/-- The length of an entry is read around the end of the buffer. -/
theorem getEntryLen_eq (hoff : off < log.size) :
    log.getEntryLen off = headerSize + ofLeBytes (window log.size log.buffer off 2) := by
  have hwindow : window log.size log.buffer off 2
      = [log.buffer off, log.buffer ((off + 1) % log.size)] := by
    simp [window, range_succ, mod_eq_of_lt hoff]
  rw [hwindow, getEntryLen]
  split
  · rename_i hlast
    have hwrap : (off + 1) % log.size = 0 := by
      have : off + 1 = log.size := by omega
      rw [this, mod_self]
    rw [hwrap]
  · rename_i hnext
    rw [mod_eq_of_lt (by omega)]

theorem slice_eq {n : Nat} {buffer : Nat → UInt8} {len : Nat} (h : off + len ≤ n) :
    slice buffer off len = window n buffer off len := by
  apply map_congr_left
  intro i hi
  rw [mod_eq_of_lt (by have := mem_range.mp hi; omega)]

theorem doReadLogToUser_eq (hoff : off < log.size) (hcount : count ≤ log.size) :
    log.doReadLogToUser off count = window log.size log.buffer off count := by
  unfold doReadLogToUser
  dsimp only
  rcases le_total count (log.size - off) with hle | hle
  · rw [min_eq_left hle, if_neg (by simp), append_nil]
    exact slice_eq (by omega)
  · rw [min_eq_right hle, slice_eq (n := log.size) (by omega)]
    have hsplit : count = (log.size - off) + (count - (log.size - off)) := by omega
    have hwrap : (off + (log.size - off)) % log.size = 0 := by
      have : off + (log.size - off) = log.size := by omega
      rw [this, mod_self]
    conv_rhs => rw [hsplit, window_append, hwrap]
    congr 1
    split
    · exact slice_eq (by omega)
    · rename_i heq
      have : count - (log.size - off) = 0 := by omega
      rw [this]
      rfl

/-! ## The entries from an offset on -/

/-- From an offset on, the given entries lie one behind the other up to the write offset. -/
structure Sees (log : Log) (off : Nat) (es : List (List UInt8)) : Prop where
  off_lt : off < log.size
  lt : es.flatten.length < log.size
  bytes : window log.size log.buffer off es.flatten.length = es.flatten
  stop : (off + es.flatten.length) % log.size = log.wOff
  framed : ∀ e ∈ es, Framed e

theorem Sees.nil (h : log.wOff < log.size) : Sees log log.wOff [] :=
  ⟨h, by simpa using lt_of_le_of_lt (zero_le _) h, rfl, by simp [mod_eq_of_lt h], by simp⟩

section

variable (h : Sees log off (e :: es))
include h

/-- The length of the entry at an offset. -/
theorem Sees.getEntryLen : log.getEntryLen off = e.length := by
  have hframed := h.framed e mem_cons_self
  have hlen := hframed.lt
  have hlt := h.lt
  have hbytes := h.bytes
  simp only [flatten_cons, length_append] at hlt hbytes
  have hsplit : e.length + es.flatten.length = 2 + (e.length - 2 + es.flatten.length) := by
    simp only [headerSize] at hlen
    omega
  rw [hsplit, window_append] at hbytes
  have htwo : window log.size log.buffer off 2 = e.take 2 := by
    have htake := congrArg (take 2) hbytes
    rw [take_left' (length_window _ _ _ _), take_append_of_le_length (by
      simp only [headerSize] at hlen
      omega)] at htake
    exact htake
  rw [getEntryLen_eq h.off_lt, htwo, ← hframed.length]

theorem Sees.window_head : window log.size log.buffer off e.length = e := by
  have hbytes := h.bytes
  simp only [flatten_cons, length_append, window_append] at hbytes
  exact (append_inj hbytes (length_window _ _ _ _)).1

/-- The offset behind an entry. -/
theorem Sees.tail : Sees log ((off + e.length) % log.size) es := by
  have hlt := h.lt
  have hbytes := h.bytes
  have hstop := h.stop
  simp only [flatten_cons, length_append, window_append] at hlt hbytes hstop
  have hpos : 0 < log.size := by omega
  refine ⟨mod_lt _ hpos, by omega, ?_, ?_, fun e' he' => h.framed e' (mem_cons_of_mem e he')⟩
  · exact (append_inj hbytes (length_window _ _ _ _)).2
  · rw [mod_add_mod, add_assoc]
    exact hstop

/-- Where there is an entry, the offset is not the write offset. -/
theorem Sees.ne_wOff : off ≠ log.wOff := by
  have hframed := (h.framed e mem_cons_self).lt
  have hlt := h.lt
  have hstop := h.stop
  have hoff := h.off_lt
  simp only [flatten_cons, length_append] at hlt hstop
  have hmod := mod_cases (a := off + (e.length + es.flatten.length)) (n := log.size) (by omega)
  omega

end

/-! ## Making room -/

/-- What is left of the entries when at least `len` bytes of them go, and at least one
entry. -/
def dropEntries : Nat → List (List UInt8) → List (List UInt8)
  | _, [] => []
  | len, e :: es => if e.length < len then dropEntries (len - e.length) es else es

/-- What is left of the entries before a write of `len` bytes, in a log of the given size. -/
def pull (size len : Nat) (es : List (List UInt8)) : List (List UInt8) :=
  if size ≤ es.flatten.length + len then dropEntries len es else es

/-- As many bytes go as are asked for. -/
theorem length_dropEntries (len : Nat) (es : List (List UInt8)) (h : len ≤ es.flatten.length) :
    (dropEntries len es).flatten.length + len ≤ es.flatten.length := by
  induction es generalizing len with
  | nil => simpa [dropEntries] using h
  | cons e es ih =>
    simp only [flatten_cons, length_append] at h ⊢
    unfold dropEntries
    split
    · have := ih (len - e.length) (by omega)
      omega
    · omega

theorem dropEntries_suffix (len : Nat) (es : List (List UInt8)) : dropEntries len es <:+ es := by
  induction es generalizing len with
  | nil => exact suffix_refl _
  | cons e es ih =>
    unfold dropEntries
    split
    · exact (ih _).trans (suffix_cons e es)
    · exact suffix_cons e es

theorem pull_suffix (size len : Nat) (es : List (List UInt8)) : pull size len es <:+ es := by
  unfold pull
  split
  · exact dropEntries_suffix len es
  · exact suffix_refl es

theorem Sees.getNextEntryLoop (hs : Sized log) {len passes : Nat} (h : Sees log off es)
    (hcount : count < len) (hlen : len - count ≤ es.flatten.length)
    (hpasses : len - count < passes) :
    Sees log (log.getNextEntryLoop len passes off count) (dropEntries (len - count) es) := by
  induction es generalizing off passes count with
  | nil =>
    simp only [flatten_nil, length_nil] at hlen
    omega
  | cons e es ih =>
    obtain ⟨passes, rfl⟩ : ∃ p, passes = p + 1 := ⟨passes - 1, by omega⟩
    have hframed := (h.framed e mem_cons_self).lt
    simp only [flatten_cons, length_append] at hlen
    unfold getNextEntryLoop dropEntries
    dsimp only
    rw [h.getEntryLen, hs.loggerOffset]
    by_cases hmore : count + e.length < len
    · rw [if_pos hmore, if_pos (by omega), Nat.sub_sub]
      exact ih h.tail hmore (by omega) (by omega)
    · rw [if_neg hmore, if_neg (by omega)]
      exact h.tail

/-- `clock_interval` asks whether a write reaches an offset. -/
theorem clockInterval_iff {size used : Nat} (len : Nat) (hoff : off < size) (hused : used < size)
    (hlen : 0 < len) (hlt : len < size) :
    clockInterval ((off + used) % size) (((off + used) % size + len) % size) off = true
      ↔ size ≤ used + len := by
  have hold := mod_cases (a := off + used) (n := size) (by omega)
  have hnew := mod_cases (a := (off + used) % size + len) (n := size) (by
    have := mod_lt (off + used) (y := size) (by omega)
    omega)
  unfold clockInterval
  split
  · simp only [Bool.or_eq_true, decide_eq_true_eq]
    omega
  · simp only [Bool.and_eq_true, decide_eq_true_eq]
    omega

/-- An offset is moved exactly if the write reaches it. -/
theorem Sees.fixUp_eq (hs : Sized log) (h : Sees log off es) (len : Nat) (hpos : 0 < len)
    (hlen : len ≤ headerSize + entryMaxPayload) :
    log.fixUp len off
      = if log.size ≤ es.flatten.length + len then log.getNextEntry off len else off := by
  have hlarge := hs.large
  have hinterval := clockInterval_iff len h.off_lt h.lt hpos (by omega)
  rw [h.stop] at hinterval
  unfold fixUp
  rw [hs.loggerOffset]
  by_cases hreach : log.size ≤ es.flatten.length + len
  · rw [if_pos (hinterval.mpr hreach), if_pos hreach]
  · rw [if_neg (fun h => hreach (hinterval.mp h)), if_neg hreach]

/-- What `fix_up_readers` leaves of the entries at an offset. -/
theorem Sees.fixUp (hs : Sized log) (h : Sees log off es) (len : Nat) (hpos : 0 < len)
    (hlen : len ≤ headerSize + entryMaxPayload) :
    Sees log (log.fixUp len off) (pull log.size len es) := by
  have hlarge := hs.large
  have hlt := h.lt
  rw [h.fixUp_eq hs len hpos hlen]
  unfold pull
  split
  · exact .getNextEntryLoop hs h hpos (by omega) (by omega)
  · exact h

theorem length_pull (size len : Nat) (es : List (List UInt8)) (hlen : 2 * len ≤ size)
    (hlt : es.flatten.length < size) :
    (pull size len es).flatten.length + len < size := by
  unfold pull
  split
  · have := length_dropEntries len es (by omega)
    omega
  · omega

/-! ## Writing -/

/-- Bytes are put at the write offset, which moves on. -/
def put (log : Log) (bytes : List UInt8) : Log :=
  { log with
    buffer := ringWrite log.size log.buffer log.wOff bytes
    wOff := (log.wOff + bytes.length) % log.size }

theorem Sized.put (h : Sized log) (bytes : List UInt8) : Sized (log.put bytes) :=
  ⟨h.pow, h.large, mod_lt _ h.pos⟩

theorem put_put (h : Sized log) (hlen : xs.length + ys.length ≤ log.size) :
    (log.put xs).put ys = log.put (xs ++ ys) := by
  simp [put, ringWrite_append log.buffer h.wOff_lt hlen, mod_add_mod, add_assoc]

/-- Bytes put beyond the entries of an offset do not change them. -/
theorem Sees.put (h : Sees log off es) (bytes : List UInt8)
    (hlen : es.flatten.length + bytes.length ≤ log.size) :
    Sees { log.put bytes with wOff := log.wOff } off es := by
  refine { h with bytes := ?_ }
  show window log.size (ringWrite log.size log.buffer log.wOff bytes) off es.flatten.length
    = es.flatten
  rw [← h.stop, window_ringWrite_of_disjoint log.buffer h.off_lt hlen]
  exact h.bytes

/-- An entry put at the write offset comes behind the others. -/
theorem Sees.append (h : Sees log off es) (he : Framed e)
    (hlen : es.flatten.length + e.length < log.size) : Sees (log.put e) off (es ++ [e]) := by
  have hbefore := (h.put e (by omega)).bytes
  have hwOff : log.wOff < log.size := by
    rw [← h.stop]
    exact mod_lt _ (by omega)
  have hlt : (es ++ [e]).flatten.length < log.size := by simpa using hlen
  refine ⟨h.off_lt, hlt, ?_, ?_, ?_⟩
  · have hnew : window log.size (ringWrite log.size log.buffer log.wOff e) log.wOff e.length = e :=
      window_ringWrite log.buffer hwOff (by omega)
    simp only [flatten_append, flatten_singleton, length_append]
    show window log.size (ringWrite log.size log.buffer log.wOff e) off _ = _
    rw [window_append, h.stop, hnew]
    exact congrArg (· ++ e) hbefore
  · simp only [flatten_append, flatten_singleton, length_append]
    show (off + (es.flatten.length + e.length)) % log.size = (log.wOff + e.length) % log.size
    rw [← h.stop, mod_add_mod, add_assoc]
  · intro e' he'
    rcases mem_append.mp he' with he' | he'
    · exact h.framed e' he'
    · rw [mem_singleton.mp he']
      exact he

theorem doWriteLog_eq (h : Sized log) {buf : List UInt8} (hlen : buf.length ≤ log.size) :
    log.doWriteLog buf = log.put buf := by
  have hwOff := h.wOff_lt
  unfold doWriteLog put
  dsimp only
  rw [h.loggerOffset]
  rcases lt_or_ge (log.size - log.wOff) buf.length with hlt | hle
  · rw [min_eq_right (le_of_lt hlt), if_pos (by omega)]
    have htake : (buf.take (log.size - log.wOff)).length = log.size - log.wOff :=
      length_take_of_le (le_of_lt hlt)
    rw [blit_blit log.buffer hwOff (by omega) (by rw [htake, length_drop]; omega), take_append_drop]
  · rw [min_eq_left hle, if_neg (by simp), take_length,
      blit_eq_ringWrite log.buffer hwOff (by omega)]

/-! ## Writing from user space -/

end Log

theorem Seg.copyFromUser_ok {seg : Seg} {first : Nat}
    (h : (seg.copyFromUser first count).2 = true) :
    (seg.copyFromUser first count).1 = (seg.bytes.drop first).take count := by
  unfold Seg.copyFromUser at h ⊢
  dsimp only at h ⊢
  split at h
  · rename_i hle
    rw [if_pos hle]
  · cases h

/-- A copy fills its destination, as far as the segment reaches. -/
theorem Seg.length_copyFromUser (seg : Seg) (first count : Nat) :
    (seg.copyFromUser first count).1.length ≤ count := by
  unfold Seg.copyFromUser
  dsimp only
  split
  · exact length_take_le _ _
  · simp only [length_append, length_replicate, length_take, length_drop]
    omega

namespace Log

variable {log : Log}

/-- `do_write_log_from_user` puts the bytes of the segment, or some bytes and leaves the
write offset. -/
inductive UserWrite (log : Log) (bytes : List UInt8) (count : Nat) : Log × Bool → Prop where
  | ok : UserWrite log bytes count (log.put bytes, true)
  | fault (zs : List UInt8) (wOff : Nat) (hzs : zs.length ≤ count) :
      UserWrite log bytes count ({ log.put zs with wOff := wOff }, false)

theorem doWriteLogFromUser_spec (h : Sized log) (seg : Seg) (count : Nat)
    (hcount : count ≤ seg.bytes.length) (hlen : count ≤ log.size) :
    UserWrite log (seg.bytes.take count) count (log.doWriteLogFromUser seg count) := by
  have hwOff := h.wOff_lt
  have hput : UserWrite log (seg.bytes.take count) count (log.put (seg.bytes.take count), true) :=
    .ok
  rw [put, length_take_of_le hcount] at hput
  unfold doWriteLogFromUser
  dsimp only
  rw [h.loggerOffset]
  rcases lt_or_ge (log.size - log.wOff) count with hlt | hle
  · -- the segment reaches round the end of the buffer
    have hfirst := seg.length_copyFromUser 0 (log.size - log.wOff)
    have hsecond := seg.length_copyFromUser (log.size - log.wOff)
      (count - (log.size - log.wOff))
    have hne : log.size - log.wOff ≠ 0 := by omega
    have hne' : count ≠ log.size - log.wOff := by omega
    rw [min_eq_right (le_of_lt hlt), if_pos hne, if_pos hne']
    split
    · rw [blit_eq_ringWrite log.buffer hwOff (by omega)]
      exact .fault _ log.wOff (by omega)
    · rename_i hok
      have hok : (seg.copyFromUser 0 (log.size - log.wOff)).2 = true := by
        simpa [hne] using hok
      have hbytes := Seg.copyFromUser_ok hok
      rw [drop_zero] at hbytes
      have hlength : (seg.copyFromUser 0 (log.size - log.wOff)).1.length = log.size - log.wOff := by
        rw [hbytes]
        exact length_take_of_le (by omega)
      rw [blit_blit log.buffer hwOff (by omega) (by omega)]
      split
      · exact .fault _ log.wOff (by rw [length_append]; omega)
      · rename_i hok'
        have hok' : (seg.copyFromUser (log.size - log.wOff)
            (count - (log.size - log.wOff))).2 = true := by
          simpa [hne'] using hok'
        have hall : (seg.copyFromUser 0 (log.size - log.wOff)).1 ++
            (seg.copyFromUser (log.size - log.wOff) (count - (log.size - log.wOff))).1
            = seg.bytes.take count := by
          rw [hbytes, Seg.copyFromUser_ok hok', ← take_add]
          congr 1
          omega
        rw [hall]
        exact hput
  · have hfirst := seg.length_copyFromUser 0 count
    rw [min_eq_left hle, if_neg (show ¬ count ≠ count by simp)]
    split
    · rename_i hfault
      rw [if_pos hfault.1, blit_eq_ringWrite log.buffer hwOff (by omega)]
      exact .fault _ log.wOff hfirst
    · rename_i hok
      rw [if_neg (by simp)]
      split
      · rename_i hne
        have hok : (seg.copyFromUser 0 count).2 = true := by simpa [hne] using hok
        have hbytes := Seg.copyFromUser_ok hok
        rw [drop_zero] at hbytes
        rw [hbytes] at hfirst ⊢
        rw [blit_eq_ringWrite log.buffer hwOff (by omega)]
        exact hput
      · rename_i hzero
        have hzero : count = 0 := by simpa using hzero
        subst hzero
        rwa [take_zero, ringWrite_nil] at hput

/-- What is put behind other bytes is put together with them. -/
theorem UserWrite.after (h : Sized log) {n : Nat} {r : Log × Bool}
    (hr : UserWrite (log.put xs) ys n r) (hys : ys.length ≤ n) (hlen : xs.length + n ≤ log.size) :
    UserWrite log (xs ++ ys) (xs.length + n) r := by
  cases hr with
  | ok =>
    rw [put_put h (by omega)]
    exact .ok
  | fault zs wOff hzs =>
    rw [put_put h (by omega)]
    exact .fault _ wOff (by rw [length_append]; omega)

/-- The loop over the segments. -/
theorem writeSegs_spec (h : Sized log) (left : Nat) (iov : List Seg) (hleft : left ≤ log.size) :
    UserWrite log ((iov.flatMap Seg.bytes).take left) left (log.writeSegs left iov) := by
  induction iov generalizing log left with
  | nil =>
    have hok : UserWrite log [] left (log.put [], true) := .ok
    have hsame : log.put [] = log := by
      simp [put, ringWrite_nil, mod_eq_of_lt h.wOff_lt]
    rw [hsame] at hok
    simpa [writeSegs] using hok
  | cons seg iov ih =>
    have hseg := doWriteLogFromUser_spec h seg
      (min seg.bytes.length left) (min_le_left _ _) (by omega)
    unfold writeSegs
    dsimp only
    generalize log.doWriteLogFromUser seg (min seg.bytes.length left) = r at hseg ⊢
    cases hseg with
    | fault zs wOff hzs => exact .fault zs wOff (by omega)
    | ok =>
      have hlength : (seg.bytes.take (min seg.bytes.length left)).length
          = min seg.bytes.length left :=
        length_take_of_le (min_le_left _ _)
      have hrest := ih (h.put (seg.bytes.take (min seg.bytes.length left)))
        (left - min seg.bytes.length left) (show _ ≤ log.size by omega)
      have hall := hrest.after h (length_take_le _ _) (by omega)
      have hbytes : seg.bytes.take (min seg.bytes.length left) ++
          (iov.flatMap Seg.bytes).take (left - min seg.bytes.length left)
          = ((seg :: iov).flatMap Seg.bytes).take left := by
        rw [flatMap_cons, take_append]
        congr 1
        · rw [take_eq_take_iff]
          omega
        · congr 1
          omega
      rw [hbytes, hlength] at hall
      have hcount : min seg.bytes.length left + (left - min seg.bytes.length left) = left := by
        omega
      rwa [hcount] at hall

/-! ## The whole write -/

theorem Sized.fixUpReaders (h : Sized log) (len : Nat) : Sized (log.fixUpReaders len) :=
  { h with }

theorem writeSegs_entry (h : Sized log) (w : Write) :
    UserWrite log w.entry (headerSize + w.len)
      ((log.doWriteLog w.header).writeSegs w.len w.iov) := by
  have hlarge := h.large
  have hlen := w.len_le
  have hheader : w.header.length = headerSize := Write.length_header
  have hsegs := writeSegs_spec (h.put w.header) w.len w.iov (show _ ≤ log.size by omega)
  rw [doWriteLog_eq h (by omega), ← hheader]
  exact hsegs.after h (length_take_le _ _) (by omega)

/-- A write puts its entry, or it puts some bytes and sets the write offset back. -/
theorem writeLocked_spec (h : Sized log) (filter : Bool) {w : Write} :
    let log' := log.fixUpReaders (headerSize + w.len)
    log.writeLocked filter log.wOff w = (log'.put w.entry, .written) ∨
    ∃ zs res, zs.length ≤ headerSize + w.len ∧ res ≠ .written ∧
      log.writeLocked filter log.wOff w = ({ log'.put zs with wOff := log.wOff }, res) := by
  intro log'
  have hsegs := writeSegs_entry (h.fixUpReaders (headerSize + w.len)) w
  unfold writeLocked
  dsimp only
  generalize ((log.fixUpReaders (headerSize + w.len)).doWriteLog w.header).writeSegs w.len w.iov
    = r at hsegs ⊢
  cases hsegs with
  | fault zs wOff hzs => exact .inr ⟨zs, .fault, hzs, by simp, rfl⟩
  | ok =>
    rw [if_neg (by simp)]
    split
    · exact .inr ⟨w.entry, .dropped, by rw [Write.length_entry], by simp, rfl⟩
    · exact .inl rfl

/-! ## Writes that succeed -/

/-- A copy of accessible bytes succeeds. -/
theorem doWriteLogFromUser_ok {seg : Seg} (hcount : count ≤ seg.accessible) :
    (log.doWriteLogFromUser seg count).2 = true := by
  have hfirst : (seg.copyFromUser 0 (min count (log.size - log.wOff))).2 = true := by
    unfold Seg.copyFromUser
    dsimp only
    rw [if_pos (by omega)]
  have hsecond : (seg.copyFromUser (min count (log.size - log.wOff))
      (count - min count (log.size - log.wOff))).2 = true := by
    unfold Seg.copyFromUser
    dsimp only
    rw [if_pos (by omega)]
  unfold doWriteLogFromUser
  dsimp only
  rw [hfirst, if_neg (by simp), hsecond, if_neg (by simp)]

end Log

/-- All bytes of a write can be read. -/
def Write.Accessible (w : Write) : Prop := ∀ seg ∈ w.iov, seg.bytes.length ≤ seg.accessible

instance (w : Write) : Decidable w.Accessible :=
  inferInstanceAs (Decidable (∀ seg ∈ w.iov, seg.bytes.length ≤ seg.accessible))

namespace Log

variable {log : Log}

theorem writeSegs_ok {left : Nat} {iov : List Seg}
    (h : ∀ seg ∈ iov, seg.bytes.length ≤ seg.accessible) : (log.writeSegs left iov).2 = true := by
  induction iov generalizing log left with
  | nil => rfl
  | cons seg iov ih =>
    have hseg := h seg mem_cons_self
    unfold writeSegs
    dsimp only
    rw [doWriteLogFromUser_ok (by omega), if_neg (by simp)]
    exact ih fun seg' h' => h seg' (mem_cons_of_mem seg h')

theorem writeLocked_ok {orig : Nat} {w : Write} (hw : w.Accessible) :
    (log.writeLocked false orig w).2 = .written := by
  unfold writeLocked
  dsimp only
  rw [writeSegs_ok hw, if_neg (by simp), Bool.false_and, if_neg (by simp)]

end Log
end LteModemKernel.Logger
