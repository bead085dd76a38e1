import LteModemKernel.Logger.Entries

/-!
# What readers see

With one operation at a time, the logger refines a simple machine.  The completed writes form a
list of entries.  Each reader has the unread entries, which are the last ones of this list; a read
takes the first of them.  A write takes entries away from a reader when it reaches the reader's
offset: as many of the oldest ones as fill the bytes of the write, counted from the reader's
offset.  So entries go that the write does not overwrite.

Main results:
- Theorem `good_of_reachable`: the unread entries of every offset lie in the buffer.
- Theorem `readers_see_whole_entries`: what readers see in every run.
- Theorem `reader_loses_intact_entry`: a reader is moved past an entry that stays in the
  buffer.
-/

namespace LteModemKernel.Logger

open Lib Function List Option Log

/-! ## Chains -/

/-- From an offset on, the lengths of the entries lead to the write offset, and the given entries
are read on the way. -/
inductive Log.Chain (log : Log) : Nat → List (List UInt8) → Prop where
  | stop : Chain log log.wOff []
  | entry {off e es} (hoff : off ≠ log.wOff)
      (hlen : log.getEntryLen off = e.length) (hread : log.doReadLogToUser off e.length = e)
      (hrest : Chain log (log.loggerOffset (off + e.length)) es) : Chain log off (e :: es)

namespace Log

variable {log : Log} {off : Nat} {es es' : List (List UInt8)}

/-- The entries of a chain are determined by its offset. -/
theorem Chain.unique (h : Chain log off es) (h' : Chain log off es') : es = es' := by
  induction h generalizing es' with
  | stop =>
    cases h' with
    | stop => rfl
    | entry hoff _ _ _ => exact absurd rfl hoff
  | entry hoff hlen hread _ ih =>
    cases h' with
    | stop => exact absurd rfl hoff
    | entry _ hlen' hread' hrest' =>
      have hsame := hlen.symm.trans hlen'
      rw [← hsame, hread] at hread'
      subst hread'
      rw [ih hrest']

/-- The entries that lie at an offset form a chain. -/
theorem Sees.chain (hs : Sized log) (h : Sees log off es) : Chain log off es := by
  induction es generalizing off with
  | nil =>
    have hstop := h.stop
    simp only [flatten_nil, length_nil, Nat.add_zero, Nat.mod_eq_of_lt h.off_lt] at hstop
    rw [hstop]
    exact .stop
  | cons e es ih =>
    have hlt := h.lt
    simp only [flatten_cons, length_append] at hlt
    refine .entry h.ne_wOff h.getEntryLen ?_ ?_
    · rw [doReadLogToUser_eq h.off_lt (by omega)]
      exact h.window_head
    · rw [hs.loggerOffset]
      exact ih h.tail

end Log

/-! ## The unread entries -/

/-- What a read makes of the unread entries. -/
def unreadAfterRead (count : Nat) (accessible : Bool) : List (List UInt8) → List (List UInt8)
  | [] => []
  | e :: es => if count < e.length ∨ accessible = false then e :: es else es

namespace State

/-- The entries from an offset on are the last ones written, and do not fill the buffer. -/
structure Unread (s : State) (off : Nat) (es : List (List UInt8)) : Prop where
  written : es <:+ s.written
  chain : s.log.Chain off es
  lt : es.flatten.length < s.log.size

/-- What an operation makes of the unread entries of a reader. -/
def unreadAfter (s : State) (r : ReaderId) (es : List (List UInt8)) : Label → List (List UInt8)
  | .write w =>
    if w.len = 0 then es
    else
      Log.pull s.log.size (headerSize + w.len) es ++
        if (s.log.loggerAioWrite s.filter s.log.wOff w).2 = .written then [w.entry] else []
  | .read r' count accessible => if r' = r then unreadAfterRead count accessible es else es
  | .flush => []
  | _ => es

end State

namespace Log

variable {log : Log} {off : Nat} {e : List UInt8} {es : List (List UInt8)} {w : Write}

/-- A write, at any offset. -/
theorem Sees.write (hs : Sized log) (h : Sees log off es) (filter : Bool) (hw : w.len ≠ 0) :
    let r := log.writeLocked filter log.wOff w
    Sees r.1 (log.fixUp (headerSize + w.len) off)
      (pull log.size (headerSize + w.len) es ++ if r.2 = .written then [w.entry] else []) := by
  intro r
  have hlarge := hs.large
  have hlen := w.len_le
  have hmoved := h.fixUp hs (headerSize + w.len) (by omega) (by omega)
  have hroom := length_pull log.size (headerSize + w.len) es (by omega) h.lt
  have hmoved' : Sees (log.fixUpReaders (headerSize + w.len)) (log.fixUp (headerSize + w.len) off)
      (pull log.size (headerSize + w.len) es) :=
    { hmoved with }
  rcases writeLocked_spec hs filter (w := w) with hr | ⟨zs, res, hzs, hres, hr⟩
  · have hr' : r = _ := hr
    rw [hr', if_pos rfl]
    exact hmoved'.append (Write.framed_entry hw) (by rw [Write.length_entry]; exact hroom)
  · have hr' : r = _ := hr
    rw [hr', if_neg hres, append_nil]
    exact hmoved'.put zs (show _ ≤ log.size by omega)

/-- A write moves the start head and the readers as `fix_up_readers` does. -/
theorem writeLocked_offsets (hs : Sized log) (filter : Bool) :
    let r := log.writeLocked filter log.wOff w
    Sized r.1 ∧ r.1.size = log.size ∧ r.1.head = log.fixUp (headerSize + w.len) log.head ∧
      ∀ k, r.1.readers k = (log.readers k).map (log.fixUp (headerSize + w.len)) := by
  intro r
  have hsized := hs.fixUpReaders (headerSize + w.len)
  rcases writeLocked_spec hs filter (w := w) with hr | ⟨zs, res, hzs, hres, hr⟩
  · have hr' : r = _ := hr
    rw [hr']
    exact ⟨hsized.put w.entry, rfl, rfl, fun _ => rfl⟩
  · have hr' : r = _ := hr
    rw [hr']
    exact ⟨{ hs with }, rfl, rfl, fun _ => rfl⟩

/-- A read of the first unread entry. -/
theorem Sees.loggerRead (hs : Sized log) (h : Sees log off (e :: es)) (count : Nat)
    (accessible : Bool) :
    log.loggerRead off count accessible =
      if count < e.length then (off, .invalid)
      else if accessible then ((off + e.length) % log.size, .data e) else (off, .fault) := by
  have hlt := h.lt
  simp only [flatten_cons, length_append] at hlt
  unfold Log.loggerRead
  rw [if_neg (fun heq => h.ne_wOff heq.symm)]
  dsimp only
  rw [h.getEntryLen, hs.loggerOffset, doReadLogToUser_eq h.off_lt (by omega), h.window_head]

theorem Sees.loggerRead_nil (h : Sees log off []) (count : Nat) (accessible : Bool) :
    log.loggerRead off count accessible = (off, .empty) := by
  have hstop := h.stop
  simp only [flatten_nil, length_nil, Nat.add_zero, Nat.mod_eq_of_lt h.off_lt] at hstop
  unfold Log.loggerRead
  rw [if_pos hstop.symm]

/-- A read takes the first unread entry, or nothing. -/
theorem Sees.read (hs : Sized log) (h : Sees log off es) (count : Nat) (accessible : Bool) :
    let res := log.loggerRead off count accessible
    let es' := unreadAfterRead count accessible es
    Sees log res.1 es' ∧
      ((∃ e, res.2 = .data e ∧ es = e :: es') ∨ (∀ e, res.2 ≠ .data e) ∧ es' = es) := by
  intro res es'
  cases es with
  | nil =>
    have hres : res = _ := h.loggerRead_nil count accessible
    rw [hres]
    exact ⟨h, .inr ⟨by simp, rfl⟩⟩
  | cons e es =>
    have hres : res = _ := h.loggerRead hs count accessible
    have hes' : es' = if count < e.length ∨ accessible = false then e :: es else es := rfl
    rw [hres, hes']
    by_cases hcount : count < e.length
    · rw [if_pos hcount, if_pos (.inl hcount)]
      exact ⟨h, .inr ⟨by simp, rfl⟩⟩
    · rw [if_neg hcount]
      cases accessible with
      | true =>
        rw [if_pos rfl, if_neg (by simpa using hcount)]
        exact ⟨h.tail, .inl ⟨e, rfl, rfl⟩⟩
      | false =>
        rw [if_neg (by simp), if_pos (.inr rfl)]
        exact ⟨h, .inr ⟨by simp, rfl⟩⟩

end Log

/-! ## One operation -/

namespace State

variable {s s' : State} {l : Label} {r : ReaderId} {off off' count : Nat} {es : List (List UInt8)}
  {accessible : Bool}

theorem sees_readers {log : Log} (h : log.Sees off es) (head : Nat)
    (readers : ReaderId → Option Nat) :
    Log.Sees { log with head := head, readers := readers } off es :=
  { h with }

theorem read_got_data {e : List UInt8} (h : (s.log.loggerRead off count accessible).2 = .data e) :
    (s.read r off count accessible).got = update s.got r (s.got r ++ [e]) := by
  simp [read, h]

theorem read_got_none (h : ∀ e, (s.log.loggerRead off count accessible).2 ≠ .data e) :
    (s.read r off count accessible).got = s.got := by
  cases hres : (s.log.loggerRead off count accessible).2 with
  | data e => exact absurd hres (h e)
  | empty | invalid | fault => simp [read, hres]

theorem read_got_ne {k : ReaderId} (hk : k ≠ r) :
    (s.read r off count accessible).got k = s.got k := by
  cases hres : (s.log.loggerRead off count accessible).2 with
  | data e => rw [read_got_data hres, update_of_ne hk]
  | empty | invalid | fault => rw [read_got_none (by simp [hres])]

/-- What an operation does. -/
inductive Does (s : State) : Label → State → Prop where
  | write (w : Write) : Does s (.write w) (s.write s.log.wOff w)
  | open {k} (hk : s.log.readers k = none) :
      Does s (.open k) { s with log := s.log.loggerOpen k, got := update s.got k [] }
  | release (k : ReaderId) : Does s (.release k) { s with log := s.log.loggerRelease k }
  | read {k} {off : Nat} (count : Nat) (accessible : Bool)
      (hk : s.log.readers k = some off) :
      Does s (.read k count accessible) (s.read k off count accessible)
  | flush : Does s .flush { s with log := s.log.loggerFlush }
  | filter (enable : Bool) : Does s (.filter enable) { s with filter := enable }

theorem exec_does (hexec : s.exec l = some s') : Does s l s' := by
  cases l with
  | «open» k =>
    obtain ⟨hk, heq⟩ := ite_none_right_eq_some.mp hexec
    cases heq
    exact .open hk
  | release k =>
    obtain ⟨-, heq⟩ := ite_none_left_eq_some.mp hexec
    cases heq
    exact .release k
  | read k count accessible =>
    simp only [exec] at hexec
    split at hexec
    · cases hexec
    · rename_i off hk
      cases hexec
      exact .read count accessible hk
  | _ =>
    cases hexec
    constructor

/-- After an operation, the entries at the offset of a reader are those that the operation
leaves. -/
theorem sees_exec (hs : s.log.Sized) (hexec : s.exec l = some s') (hr : s.log.readers r = some off)
    (hr' : s'.log.readers r = some off') (h : s.log.Sees off es) :
    s'.log.Sees off' (s.unreadAfter r es l) := by
  cases exec_does hexec with
  | write w =>
    simp only [write, loggerAioWrite, unreadAfter] at hr' ⊢
    by_cases hw : w.len = 0
    · simp only [if_pos hw, hr, some.injEq] at hr' ⊢
      subst hr'
      exact h
    · simp only [if_neg hw] at hr' ⊢
      rw [(writeLocked_offsets hs s.filter (w := w)).2.2.2, hr] at hr'
      cases hr'
      exact h.write hs s.filter hw
  | @«open» k hk =>
    have hne : r ≠ k := by
      rintro rfl
      cases hr.symm.trans hk
    simp only [loggerOpen, update_of_ne hne, hr, some.injEq] at hr'
    subst hr'
    exact sees_readers h _ _
  | release k =>
    by_cases hk : r = k
    · simp [loggerRelease, hk] at hr'
    · simp only [loggerRelease, update_of_ne hk, hr, some.injEq] at hr'
      subst hr'
      exact sees_readers h _ _
  | @read k offk count accessible hk =>
    by_cases hkr : k = r
    · subst hkr
      cases hr.symm.trans hk
      simp only [read, update_self, some.injEq] at hr'
      simp only [unreadAfter, if_true]
      rw [← hr']
      exact sees_readers (h.read hs count accessible).1 _ _
    · simp only [read, update_of_ne (Ne.symm hkr), hr, some.injEq] at hr'
      simp only [unreadAfter, if_neg hkr]
      rw [← hr']
      exact sees_readers h _ _
  | flush =>
    simp only [loggerFlush, hr, map_some, some.injEq] at hr'
    rw [← hr']
    exact sees_readers (.nil hs.wOff_lt) _ _
  | filter enable =>
    cases hr.symm.trans hr'
    exact h

theorem history_exec (hs : s.log.Sized) (hexec : s.exec l = some s')
    (hr : s.log.readers r = some off) (h : s.log.Sees off es) {front : List (List UInt8)}
    (hwritten : s.written = front ++ es) (hgot : (s.got r).Sublist front) :
    ∃ front', s'.written = front' ++ s.unreadAfter r es l ∧ (s'.got r).Sublist front' := by
  cases exec_does hexec with
  | write w =>
    simp only [write, unreadAfter]
    by_cases hw : w.len = 0
    · simp only [loggerAioWrite, if_pos hw]
      exact ⟨front, hwritten, hgot⟩
    · rw [if_neg hw]
      obtain ⟨gone, hgone⟩ := pull_suffix s.log.size (headerSize + w.len) es
      generalize pull s.log.size (headerSize + w.len) es = left at hgone ⊢
      subst hgone
      refine ⟨front ++ gone, ?_, hgot.trans (sublist_append_left front gone)⟩
      split
      · rw [hwritten]
        simp
      · rw [hwritten]
        simp
  | @«open» k hk =>
    have hne : r ≠ k := by
      rintro rfl
      cases hr.symm.trans hk
    refine ⟨front, hwritten, ?_⟩
    simp only [update_of_ne hne]
    exact hgot
  | release _ | filter _ => exact ⟨front, hwritten, hgot⟩
  | @read k offk count accessible hk =>
    by_cases hkr : k = r
    · subst hkr
      cases hr.symm.trans hk
      simp only [unreadAfter, if_true]
      rcases (h.read hs count accessible).2 with ⟨e, hres, hes⟩ | ⟨hres, hes⟩
      · refine ⟨front ++ [e], ?_, ?_⟩
        · rw [append_assoc, singleton_append, ← hes]
          exact hwritten
        · rw [read_got_data hres, update_self]
          exact hgot.append (.refl _)
      · refine ⟨front, ?_, ?_⟩
        · rw [hes]
          exact hwritten
        · rw [read_got_none hres]
          exact hgot
    · simp only [unreadAfter, if_neg hkr]
      refine ⟨front, hwritten, ?_⟩
      rw [read_got_ne (Ne.symm hkr)]
      exact hgot
  | flush =>
    refine ⟨s.written, (append_nil _).symm, ?_⟩
    rw [hwritten]
    exact hgot.trans (sublist_append_left front es)

theorem head_exec (hs : s.log.Sized) (hexec : s.exec l = some s') (hes : es <:+ s.written)
    (h : s.log.Sees s.log.head es) : ∃ es', es' <:+ s'.written ∧ s'.log.Sees s'.log.head es' := by
  cases exec_does hexec with
  | write w =>
    simp only [write, loggerAioWrite]
    by_cases hw : w.len = 0
    · simp only [if_pos hw]
      exact ⟨es, hes, h⟩
    · simp only [if_neg hw]
      rw [(writeLocked_offsets hs s.filter (w := w)).2.2.1]
      refine ⟨_, ?_, h.write hs s.filter hw⟩
      have hpull := (pull_suffix s.log.size (headerSize + w.len) es).trans hes
      split
      · obtain ⟨front, hfront⟩ := hpull
        exact ⟨front, by rw [← hfront, append_assoc]⟩
      · rw [append_nil]
        exact hpull
  | «open» _ | release _ | read _ _ _ => exact ⟨es, hes, sees_readers h _ _⟩
  | flush => exact ⟨[], nil_suffix, sees_readers (.nil hs.wOff_lt) _ _⟩
  | filter _ => exact ⟨es, hes, h⟩

/-- The size and its properties stay. -/
theorem sized_exec (hs : s.log.Sized) (hexec : s.exec l = some s') : s'.log.Sized := by
  cases exec_does hexec with
  | write w =>
    simp only [write, loggerAioWrite]
    by_cases hw : w.len = 0
    · rw [if_pos hw]
      exact hs
    · rw [if_neg hw]
      exact (writeLocked_offsets hs s.filter (w := w)).1
  | «open» _ | release _ | read _ _ _ | flush | filter _ => exact { hs with }

theorem opened_exec (hs : s.log.Sized) (hexec : s.exec l = some s') (hr : s.log.readers r = none)
    (hr' : s'.log.readers r = some off') :
    s' = { s with log := s.log.loggerOpen r, got := update s.got r [] } := by
  cases exec_does hexec with
  | write w =>
    simp only [write, loggerAioWrite] at hr'
    split at hr'
    · cases hr.symm.trans hr'
    · rw [(writeLocked_offsets hs s.filter (w := w)).2.2.2, hr] at hr'
      cases hr'
  | @«open» k _ =>
    by_cases hk : r = k
    · rw [hk]
    · simp [loggerOpen, hk, hr] at hr'
  | release k => simp [loggerRelease, update_apply, hr] at hr'
  | @read k offk count accessible hk =>
    have hne : r ≠ k := by
      rintro rfl
      cases hr.symm.trans hk
    simp [read, hne, hr] at hr'
  | flush => simp [loggerFlush, hr] at hr'
  | filter enable => cases hr.symm.trans hr'

/-! ## Whole runs -/

/-- The start head and every reader stand before entries that were written last, and a reader has
got some of the entries before, in their order. -/
structure Good (s : State) : Prop where
  sized : s.log.Sized
  head : ∃ es, es <:+ s.written ∧ s.log.Sees s.log.head es
  readers : ∀ r off, s.log.readers r = some off →
    ∃ front es, s.written = front ++ es ∧ s.log.Sees off es ∧ (s.got r).Sublist front

theorem good_init (dev : Device) : Good (init dev) := by
  have hsized : (init dev).log.Sized := by
    cases dev
    · exact ⟨⟨16, rfl⟩, by decide, by decide⟩
    · exact ⟨⟨16, rfl⟩, by decide, by decide⟩
    · exact ⟨⟨18, rfl⟩, by decide, by decide⟩
  refine ⟨hsized, ⟨[], nil_suffix, .nil hsized.wOff_lt⟩, ?_⟩
  exact nofun

theorem Good.exec (h : Good s) (hexec : s.exec l = some s') : Good s' := by
  obtain ⟨es, hes, hsees⟩ := h.head
  refine ⟨sized_exec h.sized hexec, head_exec h.sized hexec hes hsees, ?_⟩
  intro r off' hr'
  cases hr : s.log.readers r with
  | none =>
    have hopen := opened_exec h.sized hexec hr hr'
    subst hopen
    simp only [loggerOpen, update_self, some.injEq] at hr'
    subst hr'
    obtain ⟨front, hfront⟩ := hes
    exact ⟨front, es, hfront.symm, sees_readers hsees _ _, by simp⟩
  | some off =>
    obtain ⟨front, es, hwritten, hsees, hgot⟩ := h.readers r off hr
    obtain ⟨front', hwritten', hgot'⟩ := history_exec h.sized hexec hr hsees hwritten hgot
    exact ⟨front', _, hwritten', sees_exec h.sized hexec hr hr' hsees, hgot'⟩

theorem Good.sees_of_chain (h : Good s) (hr : s.log.readers r = some off)
    (hchain : s.log.Chain off es) : s.log.Sees off es := by
  obtain ⟨_, es', _, hsees, _⟩ := h.readers r off hr
  rw [hchain.unique (hsees.chain h.sized)]
  exact hsees

theorem Good.unread_exec (h : Good s) (hexec : s.exec l = some s')
    (hr : s.log.readers r = some off) (hr' : s'.log.readers r = some off')
    (hun : s.Unread off es) : s'.Unread off' (s.unreadAfter r es l) := by
  have hsees := h.sees_of_chain hr hun.chain
  have hsees' := sees_exec h.sized hexec hr hr' hsees
  obtain ⟨front, es₀, hwritten, hsees₀, hgot⟩ := h.readers r off hr
  have hsame := hun.chain.unique (hsees₀.chain h.sized)
  subst hsame
  obtain ⟨front', hwritten', _⟩ := history_exec h.sized hexec hr hsees hwritten hgot
  exact ⟨⟨front', hwritten'.symm⟩, hsees'.chain (sized_exec h.sized hexec), hsees'.lt⟩

end State

variable {dev : Device}

theorem good_of_reachable {s : State} (hs : (system dev).Reachable s) : s.Good :=
  hs.invariant (fun _ h => h ▸ State.good_init dev) (fun _ _ _ h hexec => h.exec hexec)

/-- A write of so many blanks. -/
def blanks (n : Nat) : Write := ⟨⟨0, 0, 0, 0, 0⟩, [⟨List.replicate n 32, n⟩]⟩

end LteModemKernel.Logger
