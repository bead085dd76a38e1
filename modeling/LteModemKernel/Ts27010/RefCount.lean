import LteModemKernel.Ts27010.Channels

/-!
# Reference counts of the mux ttys

The tty layer calls `ts0710_close_channel` only for the last reference of a line,
while every successful open counts one client and a failed open counts none.  The two
counters therefore agree only in runs that avoid certain closes.  This file states the
condition on the steps, and proves that the counters are right in every run that meets
it.

The invariant of a line compares the counters with the numbers of its files: the
reference count is the number of files that hold a reference; the clients are at least
the opened and closing files; and without an opened file they are exactly the closing
files.

Main results:

- Theorem `lineInv_step`: every step that meets the condition keeps the invariant.
- Theorem `refCount_clients_correct`: the counters are right in guarded runs.
- Theorem `refCount_clients_wrong`: two opens and two closes of one line leave a
  client behind.
-/

namespace LteModemKernel.Ts27010

open Lib Function List Bool FilePhase TransitionSystem Mux

variable {s t : Mux} {line line' : Line} {i tries : Nat} {old new : FilePhase}
  {ret : Option WaitResult} {held : Bool} {r : Dlci × FilePhase × List Cmd}

/-! ## Counting files -/

/-- The file holds a reference of its line. -/
def FilePhase.holdsRef : FilePhase → Bool
  | firstWait _ _ | joinWait _ _ | opened | failed => true
  | closeWait _ _ | closed => false

def FilePhase.isOpened : FilePhase → Bool
  | opened => true
  | _ => false

def FilePhase.isClosing : FilePhase → Bool
  | closeWait _ _ => true
  | _ => false

def FilePhase.isJoining : FilePhase → Bool
  | joinWait _ _ => true
  | _ => false

/-- The number of files of a line whose phase satisfies `P`. -/
def countFiles (files : List File) (line : Line) (P : FilePhase → Bool) : Nat :=
  files.countP fun f => f.line = line && P f.phase

theorem countFiles_append_self (files : List File) (line : Line) (P : FilePhase → Bool)
    (phase : FilePhase) :
    countFiles (files ++ [⟨line, phase⟩]) line P = countFiles files line P + (P phase).toNat := by
  unfold countFiles
  rw [countP_append, countP_singleton]
  cases P phase <;> simp

theorem countFiles_append_other (files : List File) (hne : line' ≠ line) (P : FilePhase → Bool)
    (phase : FilePhase) :
    countFiles (files ++ [⟨line', phase⟩]) line P = countFiles files line P := by
  unfold countFiles
  simp [hne]

section Set

variable {files : List File}

/-- Replacing the phase of a file: its own line. -/
theorem countFiles_set_self (h : files[i]? = some ⟨line, old⟩) (P : FilePhase → Bool)
    (phase : FilePhase) :
    countFiles (files.set i ⟨line, phase⟩) line P + (P old).toNat =
      countFiles files line P + (P phase).toNat := by
  obtain ⟨hi, hget⟩ := List.getElem?_eq_some_iff.mp h
  have hle := boole_getElem_le_countP (p := fun f : File => f.line = line && P f.phase) hi
  have hset := countP_set (p := fun f : File => f.line = line && P f.phase)
    (a := ⟨line, phase⟩) hi
  unfold countFiles
  cases hP : P old <;> cases hQ : P phase <;> simp_all

theorem countFiles_set_other (h : files[i]? = some ⟨line, old⟩) (hne : line ≠ line')
    (P : FilePhase → Bool) (phase : FilePhase) :
    countFiles (files.set i ⟨line, phase⟩) line' P = countFiles files line' P := by
  obtain ⟨hi, hget⟩ := List.getElem?_eq_some_iff.mp h
  have hset := countP_set (p := fun f : File => f.line = line' && P f.phase)
    (a := ⟨line, phase⟩) hi
  rw [hget] at hset
  unfold countFiles
  rw [hset]
  simp [hne]

theorem countFiles_pos (h : files[i]? = some ⟨line, old⟩) {P : FilePhase → Bool}
    (hP : P old = true) : 0 < countFiles files line P := by
  unfold countFiles
  rw [countP_pos_iff]
  exact ⟨_, mem_of_getElem? h, by simp [hP]⟩

end Set

/-! ## The sections of the channel routines -/

/-- A section that takes its caller on from the phase `old`: the clients follow the opened
and closing files, and a channel with clients is not connecting. -/
structure Follows (d : Dlci) (old : FilePhase) (held : Bool)
    (r : Dlci × FilePhase × List Cmd) : Prop where
  holds : r.2.1.holdsRef = held
  joining : r.2.1.isJoining = false
  clients : r.1.clients + old.isOpened.toNat + old.isClosing.toNat =
    d.clients + r.2.1.isOpened.toNat + r.2.1.isClosing.toNat
  settled : 0 < r.1.clients → r.1.state ≠ .connecting

section Sections

variable {d : Dlci} (hd : 0 < d.clients → d.state ≠ .connecting)
include hd

/-- A section that leaves the channel alone. -/
theorem Follows.same {cmds : List Cmd} (hheld : new.holdsRef = held) (hjoin : new.isJoining = false)
    (hopened : new.isOpened = old.isOpened) (hclosing : new.isClosing = old.isClosing) :
    Follows d old held (d, new, cmds) :=
  ⟨hheld, hjoin, by rw [hopened, hclosing], hd⟩

theorem openChannel_follows : Follows d .closed true (openChannel d) := by
  unfold openChannel
  split_ifs with hpos hconn hstate hstate
  · exact ⟨rfl, rfl, by simp [isOpened, isClosing], fun _ => hd hpos⟩
  · exact .same hd rfl rfl rfl rfl
  · exact absurd (not_not.mp hstate) (hd hpos)
  · exact .same hd rfl rfl rfl rfl
  · exact ⟨rfl, rfl, rfl, fun h => absurd h hpos⟩

theorem openResume_follows (tries : Nat) (res : WaitResult) :
    Follows d (.firstWait tries ret) true (openResume d tries res) := by
  have hexit : Follows d (.firstWait tries ret) true (openExit d .failed) := by
    unfold openExit
    split_ifs with hst
    · exact ⟨rfl, rfl, rfl, by simp⟩
    · exact ⟨rfl, rfl, rfl, fun _ => hst⟩
  cases res with
  | timeout =>
    simp only [openResume]
    split_ifs
    · exact hexit
    · exact .same hd rfl rfl rfl rfl
  | signal => exact hexit
  | woken =>
    simp only [openResume]
    split_ifs with hrej hconn
    · exact hexit
    · exact hexit
    · have hstate : d.state = .connected := not_not.mp hconn
      simp only [openExit, hstate]
      exact ⟨rfl, rfl, by simp [isOpened, isClosing], by simp⟩

theorem closeChannel_follows : Follows d .opened false (closeChannel d) := by
  unfold closeChannel
  split_ifs with hmore hstate
  · exact ⟨rfl, rfl, by simp [isOpened, isClosing], fun _ => hd (by omega)⟩
  · exact ⟨rfl, rfl, by simp [isOpened, isClosing],
      fun hpos => hd (Int.lt_trans hpos (Int.sub_lt_self _ Int.one_pos))⟩
  · exact ⟨rfl, rfl, by simp [isOpened, isClosing], by simp⟩

theorem closeResume_follows (tries : Nat) (res : WaitResult) :
    Follows d (.closeWait tries ret) false (closeResume d tries res) := by
  have hexit : Follows d (.closeWait tries ret) false (closeExit d) :=
    ⟨rfl, rfl, by simp [closeExit, isOpened, isClosing], by simp [closeExit]⟩
  cases res with
  | timeout =>
    simp only [closeResume]
    split_ifs
    · exact hexit
    · exact .same hd rfl rfl rfl rfl
  | signal | woken => exact hexit

end Sections

/-! ## Received frames -/

/-- Counters and files are the same, and no channel has become connecting. -/
structure Quiet (s t : Mux) : Prop where
  refCount : t.refCount = s.refCount
  files : t.files = s.files
  clients : ∀ j, (t.dlci j).clients = (s.dlci j).clients
  connecting : ∀ j, (t.dlci j).state = .connecting → (s.dlci j).state = .connecting

theorem Quiet.refl (s : Mux) : Quiet s s :=
  ⟨rfl, rfl, fun _ => rfl, fun _ => id⟩

theorem Quiet.trans {u : Mux} (h : Quiet s t) (h' : Quiet t u) : Quiet s u :=
  ⟨h'.refCount.trans h.refCount, h'.files.trans h.files,
    fun j => (h'.clients j).trans (h.clients j),
    fun j hj => h.connecting j (h'.connecting j hj)⟩

theorem quiet_setState (s : Mux) (d : Fin 17) {state : DlciState} (hne : state ≠ .connecting) :
    Quiet s (s.setState d state) := by
  refine ⟨rfl, rfl, fun j => ?_, fun j => ?_⟩
  all_goals
    by_cases hj : j = d
    · subst hj
      simp [setState, hne]
    · simp [setState, hj]

theorem quiet_send (s : Mux) (cmd : Cmd) (dlci : Nat) : Quiet s (s.send cmd dlci) :=
  ⟨rfl, rfl, fun _ => rfl, fun _ => id⟩

theorem quiet_uponDisconnect (s : Mux) : Quiet s s.uponDisconnect :=
  ⟨rfl, rfl, fun _ => rfl, fun _ h => absurd h (by simp [uponDisconnect])⟩

/-- Received frames change neither counters nor files, and make no channel connecting. -/
theorem handleFrame_quiet (s : Mux) (cmd : Cmd) (dlci : Nat) :
    Quiet s (s.handleFrame cmd dlci) := by
  by_cases h : validDlci dlci = true
  · cases cmd with
    | sabm | disc =>
      simp only [handleFrame, h, dif_pos]
      exact (quiet_send s _ _).trans (quiet_setState _ _ (by decide))
    | ua =>
      simp only [handleFrame, h, dif_pos]
      split_ifs <;> first | exact quiet_setState _ _ (by decide) | exact .refl s
    | dm =>
      simp only [handleFrame, h, dif_pos]
      exact quiet_setState _ _ (by decide)
  · cases cmd with
    | sabm =>
      simp only [handleFrame, dif_neg h]
      exact quiet_send s _ _
    | ua =>
      simp only [handleFrame, dif_neg h]
      exact .refl s
    | dm =>
      simp only [handleFrame, dif_neg h]
      split_ifs
      · exact (quiet_uponDisconnect s).trans (quiet_setState _ _ (by decide))
      · exact quiet_uponDisconnect s
      · exact .refl s
    | disc =>
      simp only [handleFrame, dif_neg h]
      split_ifs
      · exact (quiet_send s _ _).trans (quiet_uponDisconnect _)
      · exact .refl s

/-! ## The invariant of a line -/

/-- The channel of a line. -/
def Mux.channel (s : Mux) (line : Line) : Dlci := s.dlci (tty2dlci line)

/-- The counters of a line against the numbers of its files. -/
structure LineInv (s : Mux) (line : Line) : Prop where
  refs : s.refCount line = countFiles s.files line holdsRef
  enough : (countFiles s.files line isOpened : Int)
    + countFiles s.files line isClosing ≤ (s.channel line).clients
  exact_clients : countFiles s.files line isOpened = 0 →
    (s.channel line).clients = countFiles s.files line isClosing
  settled : 0 < (s.channel line).clients → (s.channel line).state ≠ .connecting
  no_join : countFiles s.files line isJoining = 0

/-- The counters, as far as the invariant of a line depends on them. -/
theorem LineInv.congr (h : LineInv s line) (href : t.refCount line = s.refCount line)
    (hclients : (t.channel line).clients = (s.channel line).clients)
    (hconn : (t.channel line).state = .connecting → (s.channel line).state = .connecting)
    (hcount : ∀ P, countFiles t.files line P = countFiles s.files line P) : LineInv t line := by
  constructor
  · rw [href, hcount]
    exact h.refs
  · rw [hcount, hcount, hclients]
    exact h.enough
  · rw [hcount, hcount, hclients]
    exact h.exact_clients
  · rw [hclients]
    exact fun hpos => h.settled hpos ∘ hconn
  · rw [hcount]
    exact h.no_join

theorem LineInv.of_quiet (h : LineInv s line) (hq : Quiet s t) : LineInv t line :=
  h.congr (congrFun hq.refCount line) (hq.clients _) (hq.connecting _) fun P => by rw [hq.files]

/-- A step that leaves a line's reference count, channel and file counts alone. -/
theorem LineInv.of_same (h : LineInv s line)
    (href : t.refCount line = s.refCount line) (hchan : t.channel line = s.channel line)
    (hcount : ∀ P, countFiles t.files line P = countFiles s.files line P) : LineInv t line :=
  h.congr href (by rw [hchan]) (by rw [hchan]; exact id) hcount

theorem tty2dlci_ne (h : line ≠ line') : tty2dlci line ≠ tty2dlci line' :=
  fun heq => h (Fin.succ_injective _ heq)

/-- One file of the line has gone from one phase to another. -/
structure Moved (files files' : List File) (line : Line) (old new : FilePhase) : Prop where
  refs : countFiles files' line holdsRef + old.holdsRef.toNat =
    countFiles files line holdsRef + new.holdsRef.toNat
  opened : countFiles files' line isOpened + old.isOpened.toNat =
    countFiles files line isOpened + new.isOpened.toNat
  closing : countFiles files' line isClosing + old.isClosing.toNat =
    countFiles files line isClosing + new.isClosing.toNat
  joining : countFiles files' line isJoining + old.isJoining.toNat =
    countFiles files line isJoining + new.isJoining.toNat

theorem moved_set {files : List File} (h : files[i]? = some ⟨line, old⟩) (new : FilePhase) :
    Moved files (files.set i ⟨line, new⟩) line old new :=
  ⟨countFiles_set_self h _ _, countFiles_set_self h _ _, countFiles_set_self h _ _,
    countFiles_set_self h _ _⟩

theorem moved_append (files : List File) (line : Line) (new : FilePhase) :
    Moved files (files ++ [⟨line, new⟩]) line .closed new :=
  ⟨countFiles_append_self _ _ _ _, countFiles_append_self _ _ _ _,
    countFiles_append_self _ _ _ _, countFiles_append_self _ _ _ _⟩

/-- A section keeps the invariant of its line, if an opened file moves only while the clients
are exactly the opened and closing files. -/
theorem LineInv.of_follows (h : LineInv s line) (hf : Follows (s.channel line) old held r)
    (hm : Moved s.files t.files line old r.2.1) (hchan : t.channel line = r.1)
    (href : t.refCount line + old.holdsRef.toNat = s.refCount line + held.toNat)
    (hold : old.isOpened = true → (s.channel line).clients =
      countFiles s.files line isClosing + countFiles s.files line isOpened) : LineInv t line := by
  have h1 := hm.refs
  have h2 := hm.opened
  have h3 := hm.closing
  have h4 := hm.joining
  have hrefs := h.refs
  have henough := h.enough
  have hnojoin := h.no_join
  have hclients := hf.clients
  rw [hf.holds] at h1
  rw [hf.joining, toNat_false] at h4
  rw [← hchan] at hclients
  refine ⟨by omega, by omega, ?_, ?_, by omega⟩
  · intro hzero
    cases ho : old.isOpened with
    | false =>
      rw [ho, toNat_false] at h2 hclients
      have hc := h.exact_clients (by omega)
      omega
    | true =>
      rw [ho, toNat_true] at h2 hclients
      have hc := hold ho
      omega
  · rw [hchan]
    exact hf.settled

theorem lineInv_ttyOpen (h : ∀ line, LineInv s line) (line line' : Line) :
    LineInv (s.ttyOpen line true) line' := by
  by_cases hne : line = line'
  · subst hne
    refine (h line).of_follows (openChannel_follows (h line).settled) (moved_append _ _ _) ?_ ?_
      nofun
    · simp [ttyOpen, channel, onDlci]
    · simp [ttyOpen, onDlci, holdsRef]
  · apply (h line').of_same
    · simp [ttyOpen, onDlci, update_of_ne (Ne.symm hne)]
    · simp [ttyOpen, onDlci, channel, update_of_ne (tty2dlci_ne (Ne.symm hne))]
    · intro P
      exact countFiles_append_other s.files hne P _

theorem lineInv_resume (h : ∀ line, LineInv s line) (hfile : s.files[i]? = some ⟨line, old⟩)
    (hold : old.isOpened = false) (hf : Follows (s.channel line) old old.holdsRef r)
    (line' : Line) : LineInv (s.resume i line r) line' := by
  by_cases hne : line = line'
  · subst hne
    refine (h line).of_follows hf (moved_set hfile _) ?_ rfl (by simp [hold])
    simp [resume, onDlci, channel]
  · apply (h line').of_same
    · rfl
    · simp [resume, onDlci, channel, update_of_ne (tty2dlci_ne (Ne.symm hne))]
    · intro P
      exact countFiles_set_other hfile hne P _

/-! ## The condition on the steps -/

/-- The condition on the close of a file.  If its open failed, the close does not drop
the last reference of the line.  If it was opened, the close either leaves another opened
file behind, or drops the last reference while the file is the only client besides those
whose close is still in progress. -/
def CloseSound (s : Mux) : Option File → Prop
  | some ⟨line, .failed⟩ => 1 < s.refCount line
  | some ⟨line, .opened⟩ =>
    if 1 < s.refCount line then 1 < countFiles s.files line isOpened
    else (s.channel line).clients = countFiles s.files line isClosing + 1
  | _ => True

/-- The condition under which the counters stay right: opens are made while the line
discipline is active, and closes are sound. -/
def Event.Sound (s : Mux) : Event → Prop
  | ttyOpen _ active => active = true
  | ttyClose i => CloseSound s s.files[i]?
  | _ => True

instance (s : Mux) (f : Option File) : Decidable (CloseSound s f) := by
  rcases f with _ | ⟨line, _ | _⟩ <;> unfold CloseSound <;> infer_instance

instance (s : Mux) (a : Event) : Decidable (a.Sound s) := by
  cases a <;> unfold Event.Sound <;> infer_instance

/-- A close that does not drop the last reference. -/
theorem lineInv_ttyClose_more
    (hfile : s.files[i]? = some ⟨line, old⟩) (h : LineInv s line) (href : 1 < s.refCount line)
    (hold : old = .failed ∨ old = .opened ∧ 1 < countFiles s.files line isOpened) :
    LineInv (s.ttyClose i line) line := by
  have hne : ¬s.refCount line - 1 = 0 := by omega
  have hchan : (s.ttyClose i line).channel line = s.channel line := by
    simp [ttyClose, hne, channel]
  have hrc : (s.ttyClose i line).refCount line = s.refCount line - 1 := by
    simp [ttyClose, hne]
  have hmoved : Moved s.files (s.ttyClose i line).files line old .closed := by
    have hset := moved_set hfile .closed
    simpa [ttyClose, hne] using hset
  rcases hold with rfl | ⟨rfl, hother⟩
  · have hf : Follows (s.channel line) .failed false (s.channel line, .closed, []) :=
      .same h.settled rfl rfl rfl rfl
    exact h.of_follows hf hmoved hchan (by simp [hrc, holdsRef]) nofun
  · -- another opened file remains, so the clients may exceed the files
    have h1 := hmoved.refs
    have h2 := hmoved.opened
    have h3 := hmoved.closing
    have h4 := hmoved.joining
    simp only [holdsRef, isOpened, isClosing, isJoining, toNat_true, toNat_false] at h1 h2 h3 h4
    have hrefs := h.refs
    have henough := h.enough
    have hnojoin := h.no_join
    refine ⟨by omega, by rw [hchan]; omega, by omega, by rw [hchan]; exact h.settled, by omega⟩

theorem lineInv_ttyClose_last (hfile : s.files[i]? = some ⟨line, .opened⟩) (h : LineInv s line)
    (href : ¬1 < s.refCount line)
    (hclients : (s.channel line).clients = countFiles s.files line isClosing + 1) :
    s.refCount line = 1 ∧ LineInv (s.ttyClose i line) line := by
  have hrefs := h.refs
  have henough := h.enough
  have hnojoin := h.no_join
  have hheld : 0 < countFiles s.files line holdsRef := countFiles_pos hfile rfl
  have hopened : 0 < countFiles s.files line isOpened := countFiles_pos hfile rfl
  have hone : s.refCount line = 1 := by omega
  refine ⟨hone, ?_⟩
  have hzero : s.refCount line - 1 = 0 := by omega
  have hchan : (s.ttyClose i line).channel line = (closeChannel (s.channel line)).1 := by
    simp [ttyClose, hzero, channel, onDlci]
  have hrc : (s.ttyClose i line).refCount line = 0 := by
    simp [ttyClose, hzero, onDlci]
  have hmoved : Moved s.files (s.ttyClose i line).files line .opened
      (closeChannel (s.channel line)).2.1 := by
    have hset := moved_set hfile (closeChannel (s.channel line)).2.1
    simpa [ttyClose, hzero, channel] using hset
  exact h.of_follows (closeChannel_follows h.settled) hmoved hchan (by simp [hrc, hone, holdsRef])
    fun _ => by omega

theorem lineInv_ttyClose_other (hfile : s.files[i]? = some ⟨line, old⟩) (hne : line ≠ line')
    (h : LineInv s line') : LineInv (s.ttyClose i line) line' := by
  unfold ttyClose
  split_ifs <;> refine h.of_same ?_ ?_ fun P => countFiles_set_other hfile hne P _
  all_goals
    simp [onDlci, channel, update_of_ne (Ne.symm hne), update_of_ne (tty2dlci_ne (Ne.symm hne))]

theorem lineInv_waitReturn (hfile : s.files[i]? = some ⟨line, old⟩) (h : ∀ line, LineInv s line)
    (hsame : ∀ P ∈ [holdsRef, isOpened, isClosing, isJoining], P new = P old)
    (hold : old.isOpened = false) (hjoin : old.isJoining = false) (line' : Line) :
    LineInv { s with files := s.files.set i ⟨line, new⟩ } line' := by
  by_cases hne : line = line'
  · subst hne
    have hf : Follows (s.channel line) old new.holdsRef (s.channel line, new, []) :=
      .same (h line).settled rfl ((hsame isJoining (by simp)).trans hjoin)
        (hsame isOpened (by simp)) (hsame isClosing (by simp))
    refine (h line).of_follows hf (moved_set hfile new) rfl ?_ (by simp [hold])
    rw [hsame holdsRef (by simp)]
  · exact (h line').of_same rfl rfl fun P => countFiles_set_other hfile hne P _

theorem LineInv.not_joining (h : LineInv s line)
    (hfile : s.files[i]? = some ⟨line, .joinWait tries ret⟩) : False := by
  have hpos : 0 < countFiles s.files line isJoining := countFiles_pos hfile rfl
  have hzero := h.no_join
  omega

/-- Every step that meets the condition keeps the invariant of all lines. -/
theorem lineInv_step {s' : Mux} {a : Event} (h : ∀ line, LineInv s line)
    (hsound : a.Sound s) (hstep : s.exec a = some s') (line' : Line) : LineInv s' line' := by
  cases a with
  | ttyOpen line active =>
    have hactive : active = true := hsound
    subst hactive
    cases hstep
    exact lineInv_ttyOpen h line line'
  | ttyClose i =>
    simp only [exec] at hstep
    simp only [Event.Sound] at hsound
    split at hstep
    · rename_i line hfile
      cases hstep
      rw [hfile] at hsound
      simp only [CloseSound] at hsound
      by_cases hne : line = line'
      · subst hne
        split_ifs at hsound with href
        · exact lineInv_ttyClose_more hfile (h line) href (.inr ⟨rfl, hsound⟩)
        · exact (lineInv_ttyClose_last hfile (h line) href hsound).2
      · exact lineInv_ttyClose_other hfile hne (h line')
    · rename_i line hfile
      cases hstep
      rw [hfile] at hsound
      by_cases hne : line = line'
      · subst hne
        exact lineInv_ttyClose_more hfile (h line) hsound (.inl rfl)
      · exact lineInv_ttyClose_other hfile hne (h line')
    · cases hstep
  | waitReturn i ret =>
    simp only [exec] at hstep
    split at hstep
    case h_1 line tries hfile | h_3 line tries hfile =>
      split_ifs at hstep
      cases hstep
      exact lineInv_waitReturn hfile h (by simp [holdsRef, isOpened,
        isClosing, isJoining]) rfl rfl line'
    · rename_i line tries hfile
      exact ((h line).not_joining hfile).elim
    · cases hstep
  | resume i =>
    simp only [exec] at hstep
    split at hstep
    · rename_i line tries ret hfile
      cases hstep
      exact lineInv_resume h hfile rfl (openResume_follows (h line).settled tries ret) line'
    · rename_i line tries ret hfile
      exact ((h line).not_joining hfile).elim
    · rename_i line tries ret hfile
      cases hstep
      exact lineInv_resume h hfile rfl (closeResume_follows (h line).settled tries ret) line'
    · cases hstep
  | frame cmd dlci =>
    cases hstep
    exact (h line').of_quiet (handleFrame_quiet s cmd dlci)

/-! ## Main results -/

/-- The number of files of a line that were opened successfully and are not closed yet. -/
def liveFiles (s : Mux) (line : Line) : Nat :=
  countFiles s.files line fun phase => phase.isOpened || phase.isClosing

theorem liveFiles_eq (s : Mux) (line : Line) :
    liveFiles s line = countFiles s.files line isOpened
      + countFiles s.files line isClosing := by
  unfold liveFiles countFiles
  induction s.files with
  | nil => rfl
  | cons f files ih =>
    rw [countP_cons, countP_cons, countP_cons, ih]
    by_cases hl : f.line = line
    · cases f.phase <;> simp [hl, isOpened, isClosing] <;> omega
    · simp [hl]

/-- The counters of all lines are as they should be. -/
def CountersRight (s : Mux) : Prop :=
  ∀ line, 0 ≤ s.refCount line ∧ 0 ≤ (s.channel line).clients ∧
    ((s.channel line).clients = 0 ↔ liveFiles s line = 0)

/-- Closing the file `i`, the last live one of a connected channel, sends DISC. -/
def LastCloseSendsDisc (s : Mux) (i : Nat) : Prop :=
  ∀ line, s.files[i]? = some ⟨line, .opened⟩ → liveFiles s line = 1 →
    (s.channel line).state = .connected →
    ∃ s', s.exec (.ttyClose i) = some s' ∧ s'.sent = s.sent ++ [(Cmd.disc, (line : Nat) + 1)]

theorem lineInv_initial (line : Line) : LineInv Mux.initial line := by
  constructor
  · rfl
  · simp [initial, channel, countFiles]
  · exact fun _ => rfl
  · simp [initial, channel]
  · rfl

theorem LineInv.counters (h : LineInv s line) :
    0 ≤ s.refCount line ∧ 0 ≤ (s.channel line).clients ∧
      ((s.channel line).clients = 0 ↔ liveFiles s line = 0) := by
  have hrefs := h.refs
  have henough := h.enough
  have hexact := h.exact_clients
  rw [liveFiles_eq]
  exact ⟨by omega, by omega, by omega⟩

theorem LineInv.lastClose (h : ∀ line, LineInv s line)
    (hsound : (Event.ttyClose i).Sound s) : LastCloseSendsDisc s i := by
  intro line hfile hlive hstate
  rw [liveFiles_eq] at hlive
  have hopened : 0 < countFiles s.files line isOpened := countFiles_pos hfile rfl
  simp only [Event.Sound, hfile, CloseSound] at hsound
  split_ifs at hsound with href
  · omega
  · have hone := (lineInv_ttyClose_last hfile (h line) href hsound).1
    have hzero : s.refCount line - 1 = 0 := by omega
    have hclients : ¬(s.channel line).clients > 1 := by omega
    refine ⟨s.ttyClose i line, by simp [exec, hfile], ?_⟩
    have hclose : closeChannel (s.dlci (tty2dlci line)) =
        (⟨.disconnecting, (s.channel line).clients⟩, .closeWait 2 none, [.disc]) := by
      unfold channel at hclients hstate ⊢
      simp [closeChannel, hclients, hstate]
    simp only [ttyClose, hzero, if_true, hclose, onDlci, map_cons, map_nil]
    rfl

/-- In every state reached by steps that meet the condition, the reference counts and
clients are not negative, the clients of a line are zero exactly if it has no live file,
and closing the last live file of a connected channel sends DISC. -/
theorem refCount_clients_correct {s : Mux} (hs : channels.ReachableUnder (fun s a => a.Sound s) s) :
    CountersRight s ∧ ∀ i, (Event.ttyClose i).Sound s → LastCloseSendsDisc s i := by
  have hinv : ∀ line, LineInv s line := by
    refine ReachableUnder.invariant (P := fun s => ∀ line, LineInv s line)
      ?_ ?_ hs
    · rintro _ rfl line
      exact lineInv_initial line
    · intro s a s' h hsound hstep line
      exact lineInv_step h hsound hstep line
  exact ⟨fun line => (hinv line).counters, fun i hsound => LineInv.lastClose hinv hsound⟩

theorem exec_step {s' : Mux} {a : Event} (h : s.exec a = some s') : channels.step s a s' :=
  h

/-- Line 0 is opened, answered by UA, and closed again as its only reference. -/
theorem refCount_clients_correct_single :
    ∃ s, channels.ReachableUnder (fun s a => a.Sound s) s ∧ s.sent = [(.sabm, 1), (.disc, 1)] ∧
      CountersRight s := by
  have hstart : channels.ReachableUnder (fun s a => a.Sound s) .initial := .init rfl
  rcases hstart.exists_observed_of (P := fun s => s.sent = [(.sabm, 1), (.disc, 1)])
    (fun _ _ _ => exec_step)
    [.ttyOpen 0 true, .frame .ua 1, .waitReturn 0 .woken, .resume 0, .ttyClose 0]
    (by decide +kernel) with ⟨s, hs, hsent⟩
  exact ⟨s, hs, hsent, (refCount_clients_correct hs).1⟩

/-- Line 0 is opened twice and both files are closed: one client stays behind and DISC
was never sent. -/
theorem refCount_clients_wrong :
    ∃ s, channels.Reachable s ∧ (∀ f ∈ s.files, f.phase = .closed) ∧
      (s.channel 0).clients = 1 ∧ (.disc, 1) ∉ s.sent ∧ ¬CountersRight s := by
  have hstart : channels.Reachable .initial := .start rfl
  rcases hstart.exists_observed_of (P := fun s => (∀ f ∈ s.files, f.phase = .closed) ∧
      (s.channel 0).clients = 1 ∧ (.disc, 1) ∉ s.sent ∧ liveFiles s 0 = 0)
    (fun _ _ _ => exec_step)
    [.ttyOpen 0 true, .frame .ua 1, .waitReturn 0 .woken, .resume 0, .ttyOpen 0 true,
      .ttyClose 0, .ttyClose 1] ⟨.trivial _ _, by decide +kernel⟩
    with ⟨s, hs, hclosed, hclients, hsent, hlive⟩
  refine ⟨s, hs, hclosed, hclients, hsent, fun hright => ?_⟩
  have hzero := (hright 0).2.2.mpr hlive
  omega

end LteModemKernel.Ts27010
