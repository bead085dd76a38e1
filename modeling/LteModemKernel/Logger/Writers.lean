import LteModemKernel.Logger.Readers

/-!
# Concurrent writers

`logger_aio_write` reads `w_off` before it takes the mutex.  When the call fails or is
dropped, it sets `w_off` back to this value, and the test for `MOT_` looks at the entry
that would begin there.  Between the two another writer can complete.

Where no other write has completed in between, a call is an operation of the sequential log.

Main results:
- Theorem `Log.isMot_put`: the test looks at the payload of an entry that was put at the
  offset it is given, and at what lies behind a short one.
- Theorem `writers_do_not_interfere`: calls that meet the condition do not disturb others.
- Theorem `entry_lost_to_failed_write`: a failed call takes back the entry of another writer.
- Theorem `filter_depends_on_entry`: when the filter drops an entry for its own bytes.
-/

namespace LteModemKernel.Logger

open Lib List Log

/-! ## The filter -/

/-- The bytes `MOT_`. -/
def motTag : List UInt8 := [77, 79, 84, 95]

namespace Log

variable {log : Log} {w : Write}

/-- The bytes of the ring behind the place of an entry. -/
def behind (log : Log) (w : Write) : List UInt8 :=
  window log.size log.buffer (log.wOff + (headerSize + w.len)) (headerSize + 5)

/-- The test looks at the payload of the entry at the offset that it is given, and at what
lies behind a short one. -/
theorem isMot_put (hs : Sized log) : (log.put w.entry).isMot log.wOff = true ↔
    ((w.payload ++ log.behind w).drop 1).take 4 = motTag := by
  have hlarge := hs.large
  have hlength : w.entry.length = headerSize + w.len := Write.length_entry
  have hwindow : (window log.size (log.put w.entry).buffer log.wOff (headerSize + 5)).drop
      (headerSize + 1) = ((w.payload ++ log.behind w).drop 1).take 4 := by
    have hcount : headerSize + 5 ≤ log.size := by
      unfold headerSize entryMaxPayload at *
      omega
    refine (congrArg _ (window_ringWrite_append log.buffer hs.wOff_lt hcount)).trans ?_
    rw [hlength, drop_take, Write.entry, append_assoc, ← Write.length_header (w := w),
      drop_length_add_append, Nat.add_sub_add_left]
    rfl
  rw [← hwindow]
  have hoffset (i) : (log.put w.entry).loggerOffset i = i % log.size :=
    (hs.put w.entry).loggerOffset i
  simp [isMot, motTag, hoffset, window, headerSize, range_succ, and_assoc, Nat.add_assoc]

/-- A tag within the entry does not reach behind it. -/
theorem tag_append {stale : List UInt8} (hlen : 5 ≤ w.len) :
    ((w.payload ++ stale).drop 1).take 4 = (w.payload.drop 1).take 4 := by
  have hlength : w.payload.length = w.len := Write.length_payload
  rw [drop_append_of_le_length (by omega), take_append_of_le_length (by rw [length_drop]; omega)]

theorem writeLocked_dropped (hs : Sized log) (hw : w.Accessible) :
    (log.writeLocked true log.wOff w).2 = .dropped ↔
      ((w.payload ++ log.behind w).drop 1).take 4 = motTag := by
  have hmot := isMot_put (w := w) (hs.fixUpReaders (headerSize + w.len))
  refine Iff.trans ?_ hmot
  have hsegs := writeSegs_entry (hs.fixUpReaders (headerSize + w.len)) w
  have hok : (((log.fixUpReaders (headerSize + w.len)).doWriteLog w.header).writeSegs
      w.len w.iov).2 = true := writeSegs_ok hw
  unfold writeLocked
  dsimp only
  generalize ((log.fixUpReaders (headerSize + w.len)).doWriteLog w.header).writeSegs w.len w.iov
    = r at hsegs hok ⊢
  cases hsegs with
  | fault zs wOff hzs => cases hok
  | ok =>
    rw [if_neg (by simp), Bool.true_and]
    split
    · rename_i hmot
      exact ⟨fun _ => hmot, fun _ => rfl⟩
    · rename_i hmot
      constructor
      · exact nofun
      · intro h
        exact absurd h hmot

theorem writeLocked_orig {orig : Nat} (hw : w.Accessible) :
    log.writeLocked false orig w = log.writeLocked false log.wOff w := by
  unfold writeLocked
  dsimp only
  rw [writeSegs_ok hw]
  rfl

end Log
/-! ## The system -/

/-- A caller of `logger_aio_write`. -/
abbrev WriterId := Nat

/-- A call that has read `w_off` and waits for the mutex. -/
structure Call where
  orig : Nat
  args : Write
  deriving DecidableEq

/-- A log with the calls that wait for its mutex. -/
structure Writers where
  state : State
  calls : WriterId → Option Call

namespace Writers

/-- A step of the log with its writers. -/
inductive Label where
  /-- A call reads `w_off`. -/
  | sample (k : WriterId) (w : Write)
  /-- A call takes the mutex and goes on to its end. -/
  | locked (k : WriterId)
  /-- Any other operation. -/
  | other (l : Logger.Label)
  deriving DecidableEq

/-- The effect of a step. -/
def exec (s : Writers) : Label → Option Writers
  | .sample k w =>
    if s.calls k = none then
      some { s with calls := Function.update s.calls k (some ⟨s.state.log.wOff, w⟩) }
    else none
  | .locked k =>
    match s.calls k with
    | none => none
    | some c => some ⟨s.state.write c.orig c.args, Function.update s.calls k none⟩
  | .other (.write _) => none
  | .other l => (s.state.exec l).map fun state => { s with state := state }

/-- A log at the start, without calls. -/
def init (dev : Device) : Writers := ⟨State.init dev, fun _ => none⟩

end Writers

/-- One log with any number of writers. -/
def writersSystem (dev : Device) : TransitionSystem Writers Writers.Label where
  init s := s = Writers.init dev
  step s l s' := s.exec l = some s'

/-! ## Calls that are not disturbed -/

/-- No other write has completed since the call has read `w_off`, or the call has no use for
the value; and a payload that the filter looks at has at least the five bytes of the test. -/
def Writers.Undisturbed (s : Writers) (c : Call) : Prop :=
  (c.orig = s.state.log.wOff ∨ s.state.filter = false ∧ c.args.Accessible) ∧
  (s.state.filter = true → c.args.Accessible → c.args.len = 0 ∨ 5 ≤ c.args.len)

instance (s : Writers) (c : Call) : Decidable (s.Undisturbed c) :=
  inferInstanceAs (Decidable ((_ ∨ _) ∧ (_ → _ → _)))

/-- Calls take the mutex undisturbed. -/
def writersGuard (s : Writers) : Writers.Label → Prop
  | .locked k => ∀ c ∈ s.calls k, s.Undisturbed c
  | _ => True

instance (s : Writers) (l : Writers.Label) : Decidable (writersGuard s l) := by
  cases l <;> unfold writersGuard <;> infer_instance

namespace Writers

variable {s s' : Writers} {c : Call} {k : WriterId}

theorem Undisturbed.write (h : s.Undisturbed c) :
    s.state.log.loggerAioWrite s.state.filter c.orig c.args
      = s.state.log.loggerAioWrite s.state.filter s.state.log.wOff c.args := by
  rcases h.1 with horig | ⟨hfilter, hw⟩
  · rw [horig]
  · unfold loggerAioWrite
    rw [hfilter, writeLocked_orig hw]

/-- A step of the writers is one of the sequential log, or none. -/
theorem exec_sequential {l : Label} (hguard : writersGuard s l) (hexec : s.exec l = some s') :
    s'.state = s.state ∨ ∃ l', s.state.exec l' = some s'.state := by
  cases l with
  | sample k w =>
    simp only [exec, Option.ite_none_right_eq_some, Option.some.injEq] at hexec
    obtain ⟨_, rfl⟩ := hexec
    exact .inl rfl
  | locked k =>
    simp only [exec] at hexec
    split at hexec
    · cases hexec
    · rename_i c hc
      cases hexec
      refine .inr ⟨.write c.args, ?_⟩
      simp [State.exec, State.write, (hguard c hc).write]
  | other l =>
    cases l with
    | write w => cases hexec
    | _ =>
      simp only [exec, Option.map_eq_some_iff] at hexec
      obtain ⟨state, hstate, rfl⟩ := hexec
      exact .inr ⟨_, hstate⟩

end Writers

/-- Where calls are not disturbed, the log runs through states of the sequential one. -/
theorem sequential_of_reachable {dev : Device} {s : Writers}
    (hs : (writersSystem dev).ReachableUnder writersGuard s) : (system dev).Reachable s.state := by
  refine TransitionSystem.ReachableUnder.invariant
    (P := fun s : Writers => (system dev).Reachable s.state) ?_ ?_ hs
  · rintro s rfl
    exact .init rfl
  · intro s l s' h hguard hexec
    rcases Writers.exec_sequential hguard hexec with hsame | ⟨l', hl'⟩
    · rw [hsame]
      exact h
    · exact h.next hl'

variable {log : Log} {filter : Bool} {w : Write}

theorem Log.wOff_of_not_written (hs : log.Sized)
    (h : (log.loggerAioWrite filter log.wOff w).2 ≠ .written) :
    (log.loggerAioWrite filter log.wOff w).1.wOff = log.wOff := by
  unfold loggerAioWrite at h ⊢
  split at h
  · rename_i hw
    rw [if_pos hw]
  · rename_i hw
    rw [if_neg hw]
    rcases writeLocked_spec hs filter (w := w) with hr | ⟨zs, res, _, _, hr⟩
    · exact absurd (congrArg Prod.snd hr) h
    · rw [hr]

theorem Log.Sees.readers_far (hs : log.Sized) {off : Nat} {es : List (List UInt8)}
    (h : log.Sees off es) {r : ReaderId} (hr : log.readers r = some off)
    (hfar : es.flatten.length + (headerSize + w.len) < log.size) :
    (log.loggerAioWrite filter log.wOff w).1.readers r = some off := by
  have hlen := w.len_le
  unfold loggerAioWrite
  split
  · exact hr
  · rename_i hw
    rw [(writeLocked_offsets hs filter (w := w)).2.2.2, hr, Option.map_some,
      h.fixUp_eq hs (headerSize + w.len) (by omega) (by omega), if_neg (by omega)]

/-- In every run in which calls are not disturbed, a call that takes the mutex undisturbed leaves
`w_off` as it found it if it fails or is dropped.  A reader that the call does not lap keeps
its offset and all its unread entries.  With the filter on, a call that does not fail is dropped
exactly if its own payload has the tag `MOT_`. -/
theorem writers_do_not_interfere {dev : Device} {s s' : Writers} {k : WriterId} {c : Call}
    (hs : (writersSystem dev).ReachableUnder writersGuard s) (hc : s.calls k = some c)
    (hundisturbed : s.Undisturbed c) (hexec : s.exec (.locked k) = some s') :
    let res := (s.state.log.loggerAioWrite s.state.filter c.orig c.args).2
    (res = .fault ∨ res = .dropped → s'.state.log.wOff = s.state.log.wOff) ∧
    (∀ r off es, s.state.log.readers r = some off → s.state.Unread off es →
      es.flatten.length + (headerSize + c.args.len) < s.state.log.size →
      s'.state.log.readers r = some off ∧
      s'.state.Unread off (es ++ if res = .written then [c.args.entry] else [])) ∧
    (s.state.filter = true → c.args.Accessible → c.args.len ≠ 0 →
      (res = .dropped ↔ (c.args.payload.drop 1).take 4 = motTag)) := by
  intro res
  have hgood := good_of_reachable (sequential_of_reachable hs)
  have hres : res = (s.state.log.loggerAioWrite s.state.filter s.state.log.wOff c.args).2 :=
    congrArg Prod.snd hundisturbed.write
  have hstate : s'.state = s.state.write s.state.log.wOff c.args := by
    simp only [Writers.exec, hc, Option.some.injEq] at hexec
    subst hexec
    simp [State.write, hundisturbed.write]
  have hlog : s'.state.log
      = (s.state.log.loggerAioWrite s.state.filter s.state.log.wOff c.args).1 := by
    rw [hstate]
    rfl
  refine ⟨?_, ?_, ?_⟩
  · intro hnot
    rw [hlog]
    refine wOff_of_not_written hgood.sized ?_
    rw [← hres]
    rcases hnot with h | h <;> rw [h] <;> decide
  · intro r off es hr hun hfar
    have hr' : s'.state.log.readers r = some off := by
      rw [hlog]
      exact (hgood.sees_of_chain hr hun.chain).readers_far hgood.sized hr hfar
    have hun' := hgood.unread_exec (l := .write c.args) (congrArg some hstate.symm) hr hr' hun
    refine ⟨hr', ?_⟩
    simp only [State.unreadAfter, ← hres] at hun'
    by_cases hw : c.args.len = 0
    · have hempty : res = .empty := by
        rw [hres, loggerAioWrite, if_pos hw]
      rw [if_pos hw] at hun'
      rw [hempty, if_neg (by decide), append_nil]
      exact hun'
    · rwa [if_neg hw, pull, if_neg (by omega)] at hun'
  · intro hfilter haccessible hw
    have hlen : 5 ≤ c.args.len := by
      rcases hundisturbed.2 hfilter haccessible with h | h
      · exact absurd h hw
      · exact h
    rw [hres, loggerAioWrite, if_neg hw, hfilter, writeLocked_dropped hgood.sized haccessible,
      tag_append hlen]

/-- A write of `XMOT_` in two segments. -/
def motWrite : Write := ⟨⟨0, 0, 0, 0, 0⟩, [⟨[88, 77], 2⟩, ⟨[79, 84, 95], 3⟩]⟩

/-- A write with the tag is dropped, and the entry written before stays. -/
theorem writers_do_not_interfere_mot : ∃ s s' : Writers, s.exec (.locked 1) = some s' ∧
    (s.state.log.loggerAioWrite s.state.filter s.state.log.wOff motWrite).2 = .dropped ∧
    s.state.log.wOff = 25 ∧ s'.state.log.wOff = 25 := by
  have hstart : (writersSystem .main).ReachableUnder writersGuard (.init .main) := .init rfl
  rcases hstart.exists_observed
    (P := fun s => s.calls 1 = some ⟨25, motWrite⟩ ∧ s.state.filter = true ∧ s.state.log.wOff = 25)
    [.sample 0 (blanks 5), .locked 0, .sample 1 motWrite]
    (by decide +kernel) with ⟨s, hs, hc, hfilter, hwOff⟩
  have hundisturbed : s.Undisturbed ⟨25, motWrite⟩ := ⟨.inl hwOff.symm, fun _ _ => .inr (by decide)⟩
  have hexec : s.exec (.locked 1)
      = some ⟨s.state.write 25 motWrite, Function.update s.calls 1 none⟩ := by
    simp [Writers.exec, hc]
  obtain ⟨hback, _, htag⟩ := writers_do_not_interfere hs hc hundisturbed hexec
  have hdropped := (htag hfilter (by decide) (by decide)).mpr (by decide)
  have hwOff' := hback (.inr hdropped)
  rw [hwOff] at hwOff'
  refine ⟨s, _, hexec, ?_, hwOff, hwOff'⟩
  rw [hwOff]
  exact hdropped

/-- A write whose bytes cannot be read. -/
def faultWrite : Write := ⟨⟨0, 0, 0, 0, 0⟩, [⟨[88, 88, 88, 88, 88], 0⟩]⟩

/-- Writer 0 reads `w_off`, writer 1 completes an entry, and the call of writer 0 fails: it
sets `w_off` back to the value it has read, and the entry of writer 1 is gone for a reader
that has not been lapped. -/
theorem entry_lost_to_failed_write : ∃ s s' : Writers, (writersSystem .main).Reachable s ∧
    s.exec (.locked 0) = some s' ∧ s.calls 0 = some ⟨0, faultWrite⟩ ∧
    (s.state.log.loggerAioWrite s.state.filter 0 faultWrite).2 = .fault ∧
    s.state.written = [(blanks 5).entry] ∧ s.state.log.wOff = 25 ∧ s'.state.log.wOff = 0 ∧
    s.state.log.readers 0 = some 0 ∧ s'.state.log.readers 0 = some 0 ∧
    (s.state.log.loggerRead 0 4096 true).2 = .data (blanks 5).entry ∧
    (s'.state.log.loggerRead 0 4096 true).2 = .empty := by
  have hstart : (writersSystem .main).Reachable (.init .main) := .init rfl
  rcases hstart.exists_observed (P := fun s => s.calls 0 = some ⟨0, faultWrite⟩ ∧
      (s.state.log.loggerAioWrite s.state.filter 0 faultWrite).2 = .fault ∧
      s.state.written = [(blanks 5).entry] ∧ s.state.log.wOff = 25 ∧
      (s.state.write 0 faultWrite).log.wOff = 0 ∧
      s.state.log.readers 0 = some 0 ∧ (s.state.write 0 faultWrite).log.readers 0 = some 0 ∧
      (s.state.log.loggerRead 0 4096 true).2 = .data (blanks 5).entry ∧
      ((s.state.write 0 faultWrite).log.loggerRead 0 4096 true).2 = .empty)
    [.other (.open 0), .sample 0 faultWrite, .sample 1 (blanks 5), .locked 1]
    (by decide +kernel) with ⟨s, hs, hc, hrest⟩
  have hexec : s.exec (.locked 0)
      = some ⟨s.state.write 0 faultWrite, Function.update s.calls 0 none⟩ := by
    simp [Writers.exec, hc]
  exact ⟨s, _, hs, hexec, hc, hrest⟩

/-! ## What the filter drops -/

/-- With the filter enabled, an entry is dropped if and only if it has the tag, exactly where it
has five bytes or makes no tag with the bytes behind it; with the filter disabled it is never
dropped. -/
theorem filter_depends_on_entry {log : Log} {w : Write} (hs : Sized log) (hw : w.Accessible)
    (hne : w.len ≠ 0) :
    (((log.loggerAioWrite true log.wOff w).2 = .dropped ↔
        5 ≤ w.len ∧ (w.payload.drop 1).take 4 = motTag) ↔
      5 ≤ w.len ∨ ((w.payload ++ log.behind w).drop 1).take 4 ≠ motTag) ∧
    (log.loggerAioWrite false log.wOff w).2 = .written := by
  rw [loggerAioWrite, loggerAioWrite, if_neg hne, if_neg hne]
  refine ⟨?_, writeLocked_ok hw⟩
  rw [writeLocked_dropped hs hw]
  rcases Nat.lt_or_ge w.len 5 with hshort | hlong
  · have hle := Nat.not_le.mpr hshort
    simp [hle]
  · rw [tag_append hlong]
    simp [hlong]

/-- A fresh log drops the entry with the tag. -/
theorem filter_depends_on_entry_mot :
    ((State.init .main).log.loggerAioWrite true 0 motWrite).2 = .dropped := by
  have hs : Sized (State.init .main).log := ⟨⟨16, rfl⟩, by decide, by decide⟩
  have h := filter_depends_on_entry hs (w := motWrite) (by decide) (by decide)
  exact (h.1.mpr (.inl (by decide))).mpr (by decide)

/-- A write of one byte. -/
def shortWrite : Write := ⟨⟨0, 0, 0, 0, 0⟩, [⟨[89], 1⟩]⟩

/-- An entry of one byte is dropped for the bytes that a dropped entry has left behind. -/
theorem short_entry_dropped : ∃ s : State, (system .main).Reachable s ∧ shortWrite.Accessible ∧
    shortWrite.len = 1 ∧ (s.log.loggerAioWrite s.filter s.log.wOff shortWrite).2 = .dropped := by
  have hstart : (system .main).Reachable (.init .main) := .init rfl
  rcases hstart.exists_observed
    (P := fun s => (s.log.loggerAioWrite s.filter s.log.wOff shortWrite).2 = .dropped)
    [.write motWrite] (by decide +kernel) with ⟨s, hs, hdropped⟩
  exact ⟨s, hs, by decide, by decide, hdropped⟩

end LteModemKernel.Logger
