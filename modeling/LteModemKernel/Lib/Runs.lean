import Mathlib

/-!
# Labelled transition systems and guarded runs

Every component of the development is a state type with labelled steps.  A
property of a component is a statement about all states that some run reaches.
Where the property only holds under a condition on the steps, the run is
*guarded*: each of its steps has to meet the condition in the state it leaves.

Main results:

- Theorem `TransitionSystem.ReachableUnder.invariant`: what holds initially
  and is kept by every guarded step holds in every state a guarded run reaches.
- Theorem `TransitionSystem.ReachableUnder.simulate`: a system whose steps are
  matched by another one, or change nothing there, reaches only related states.
- Theorem `TransitionSystem.ReachableUnder.runLabels`: the state a list of labels
  leads to is reachable.
-/

namespace LteModemKernel.Lib

/-- A labelled transition system: its initial states and its labelled steps. -/
structure TransitionSystem (State Label : Type*) where
  init : State → Prop
  step : State → Label → State → Prop

namespace TransitionSystem

variable {State Label : Type*} {T : TransitionSystem State Label}
  {exec : State → Label → Option State} {guard : State → Label → Prop} {s s' : State}
  {P : State → Prop} {labels : List Label}

/-- The states reached by runs whose every step `a` from a state `s`
satisfies `guard s a`. -/
inductive ReachableUnder (T : TransitionSystem State Label)
    (guard : State → Label → Prop) : State → Prop where
  | init {s : State} : T.init s → ReachableUnder T guard s
  | step {s s' : State} {a : Label} :
      ReachableUnder T guard s → guard s a → T.step s a s' → ReachableUnder T guard s'

/-- The states reached by runs without any restriction on their steps. -/
def Reachable (T : TransitionSystem State Label) : State → Prop :=
  T.ReachableUnder fun _ _ => True

theorem Reachable.start (hs : T.init s) : T.Reachable s :=
  .init hs

theorem Reachable.next {a : Label} (hs : T.Reachable s) (hstep : T.step s a s') : T.Reachable s' :=
  .step hs trivial hstep

theorem ReachableUnder.invariant (hinit : ∀ s, T.init s → P s)
    (hstep : ∀ s a s', P s → guard s a → T.step s a s' → P s') {s : State}
    (hs : T.ReachableUnder guard s) : P s := by
  induction hs with
  | init h => exact hinit _ h
  | step _ hguard hs' ih => exact hstep _ _ _ ih hguard hs'

theorem Reachable.invariant (hinit : ∀ s, T.init s → P s)
    (hstep : ∀ s a s', P s → T.step s a s' → P s') {s : State} (hs : T.Reachable s) : P s :=
  ReachableUnder.invariant hinit (fun s a s' hi _ h => hstep s a s' hi h) hs

theorem ReachableUnder.invariant_along (hinit : ∀ s, T.init s → P s)
    (hstep : ∀ s a s', T.ReachableUnder guard s → P s → guard s a → T.step s a s' → P s')
    (hs : T.ReachableUnder guard s) : P s := by
  induction hs with
  | init h => exact hinit _ h
  | step hreach hguard hs' ih => exact hstep _ _ _ hreach ih hguard hs'

theorem ReachableUnder.mono {guard' : State → Label → Prop} (hs : T.ReachableUnder guard s)
    (hguard : ∀ s a, guard s a → guard' s a) : T.ReachableUnder guard' s := by
  induction hs with
  | init h => exact .init h
  | step _ ha hs' ih => exact .step ih (hguard _ _ ha) hs'

theorem ReachableUnder.reachable (hs : T.ReachableUnder guard s) : T.Reachable s :=
  hs.mono fun _ _ _ => trivial

/-- The simulation rule: where every guarded step of one system keeps the relation with
the same state of another one, or is matched by a guarded step there, every state of a
guarded run is related to a state of a guarded run. -/
theorem ReachableUnder.simulate {State' Label' : Type*} {T' : TransitionSystem State' Label'}
    {guard' : State' → Label' → Prop} {R : State → State' → Prop}
    (hinit : ∀ s, T.init s → ∃ t, T'.init t ∧ R s t)
    (hstep : ∀ s a s' t, R s t → guard s a → T.step s a s' →
      R s' t ∨ ∃ b t', guard' t b ∧ T'.step t b t' ∧ R s' t') (hs : T.ReachableUnder guard s) :
    ∃ t, T'.ReachableUnder guard' t ∧ R s t := by
  induction hs with
  | init h =>
    rcases hinit _ h with ⟨t, ht, hR⟩
    exact ⟨t, .init ht, hR⟩
  | step _ hguard hs' ih =>
    rcases ih with ⟨t, ht, hR⟩
    rcases hstep _ _ _ t hR hguard hs' with hR' | ⟨b, t', hb, ht', hR'⟩
    · exact ⟨t, ht, hR'⟩
    · exact ⟨t', .step ht hb ht', hR'⟩

/-- The state that a list of labels leads to, if every step has a result. -/
def runLabels (exec : State → Label → Option State) : State → List Label → Option State
  | s, [] => some s
  | s, a :: rest => (exec s a).bind fun s' => runLabels exec s' rest

theorem runLabels_append {rest : List Label} :
    runLabels exec s (labels ++ rest) = (runLabels exec s labels).bind fun s' =>
      runLabels exec s' rest := by
  induction labels generalizing s with
  | nil => rfl
  | cons a labels ih =>
    rw [List.cons_append, runLabels, runLabels, Option.bind_assoc]
    congr 1
    funext s'
    exact ih

/-- Every step along a list of labels meets the guard. -/
def Guarded (exec : State → Label → Option State) (guard : State → Label → Prop) :
    State → List Label → Prop
  | _, [] => True
  | s, a :: rest => guard s a ∧ ∀ s', exec s a = some s' → Guarded exec guard s' rest

instance Guarded.decidable {exec : State → Label → Option State}
    {guard : State → Label → Prop} [∀ s a, Decidable (guard s a)] :
    (s : State) → (labels : List Label) → Decidable (Guarded exec guard s labels)
  | _, [] => isTrue trivial
  | s, a :: rest =>
    have : DecidablePred fun s' => Guarded exec guard s' rest := (Guarded.decidable · rest)
    inferInstanceAs (Decidable (_ ∧ ∀ s' ∈ exec s a, Guarded exec guard s' rest))

/-- A list of labels whose steps meet the guard leads to a reachable state. -/
theorem ReachableUnder.runLabels (hexec : ∀ s a s', exec s a = some s' → T.step s a s')
    (hs : T.ReachableUnder guard s) (hguard : Guarded exec guard s labels)
    (hrun : TransitionSystem.runLabels exec s labels = some s') : T.ReachableUnder guard s' := by
  induction labels generalizing s with
  | nil =>
    cases hrun
    exact hs
  | cons a rest ih =>
    rcases Option.bind_eq_some_iff.mp hrun with ⟨t, ht, hrest⟩
    exact ih (.step hs hguard.1 (hexec _ _ _ ht)) (hguard.2 t ht) hrest

theorem Guarded.trivial (s : State) (labels : List Label) :
    Guarded exec (fun _ _ => True) s labels := by
  induction labels generalizing s with
  | nil => exact .intro
  | cons a rest ih => exact ⟨.intro, fun s' _ => ih s'⟩

theorem Reachable.runLabels (hexec : ∀ s a s', exec s a = some s' → T.step s a s')
    (hs : T.Reachable s) (hrun : TransitionSystem.runLabels exec s labels = some s') :
    T.Reachable s' :=
  ReachableUnder.runLabels hexec hs (Guarded.trivial s labels) hrun

/-- What holds where a guarded list of labels leads to holds in some reachable state. -/
theorem ReachableUnder.exists_observed_of (hexec : ∀ s a s', exec s a = some s' → T.step s a s')
    (labels : List Label) (hs : T.ReachableUnder guard s) (hrun : Guarded exec guard s labels ∧
      ∃ s' ∈ TransitionSystem.runLabels exec s labels, P s') :
    ∃ s', T.ReachableUnder guard s' ∧ P s' := by
  rcases hrun with ⟨hguard, s', hs', hP⟩
  exact ⟨s', .runLabels hexec hs hguard hs', hP⟩

/-- The system whose steps a function computes. -/
abbrev ofExec (init : State → Prop) (exec : State → Label → Option State) :
    TransitionSystem State Label :=
  ⟨init, fun s a s' => exec s a = some s'⟩

variable {init : State → Prop}

theorem ReachableUnder.exists_observed (labels : List Label)
    (hs : (ofExec init exec).ReachableUnder guard s) (hrun : Guarded exec guard s labels ∧
      ∃ s' ∈ TransitionSystem.runLabels exec s labels, P s') :
    ∃ s', (ofExec init exec).ReachableUnder guard s' ∧ P s' :=
  hs.exists_observed_of (fun _ _ _ h => h) labels hrun

theorem Reachable.exists_observed (labels : List Label) (hs : (ofExec init exec).Reachable s)
    (hrun : ∃ s' ∈ TransitionSystem.runLabels exec s labels, P s') :
    ∃ s', (ofExec init exec).Reachable s' ∧ P s' :=
  ReachableUnder.exists_observed labels hs ⟨.trivial s labels, hrun⟩

/-- A step whose function also returns a value. -/
theorem exists_of_map_fst {α β : Type*} {x : Option (α × β)} {a : α}
    (h : x.map Prod.fst = some a) : ∃ b, x = some (a, b) := by
  rcases Option.map_eq_some_iff.mp h with ⟨⟨_, b⟩, hx, rfl⟩
  exact ⟨b, hx⟩

end TransitionSystem

end LteModemKernel.Lib
