import Mathlib

/-!
# Scanners that are restarted on buffered input

A scanner reads symbols one at a time and now and then gives an output.  A
receiver that keeps no scanner state between two calls has to buffer the symbols
since the last point where the scanner was in its start state, and to scan them
again together with the next chunk.  If outputs are only given on the way back to
the start state, this gives the same outputs as one scan of the whole stream.

Main results:

- Theorem `Scanner.run_append`: scanning a concatenation.
- Theorem `Scanner.feed_spec`: one buffered scan, after any scanned stream.
- Theorem `Scanner.feedAll_outputs`: the outputs of a chunked, restarted scan
  are those of the scan of the whole stream.
-/

namespace LteModemKernel.Lib

open List

/-- A deterministic scanner with outputs. -/
structure Scanner (State Symbol Output : Type*) where
  start : State
  step : State → Symbol → State × Option Output

namespace Scanner

variable {State Symbol Output : Type*} (M : Scanner State Symbol Output)

/-- Scan a list of symbols: the last state and the outputs in order. -/
def run : State → List Symbol → State × List Output
  | s, [] => (s, [])
  | s, a :: rest =>
    let r := M.step s a
    let t := run r.1 rest
    (t.1, r.2.toList ++ t.2)

@[simp]
theorem run_nil (s : State) : M.run s [] = (s, []) :=
  rfl

theorem run_cons (s : State) (a : Symbol) (rest : List Symbol) :
    M.run s (a :: rest) =
      ((M.run (M.step s a).1 rest).1, (M.step s a).2.toList ++ (M.run (M.step s a).1 rest).2) :=
  rfl

theorem run_append (s : State) (xs ys : List Symbol) :
    M.run s (xs ++ ys) =
      ((M.run (M.run s xs).1 ys).1, (M.run s xs).2 ++ (M.run (M.run s xs).1 ys).2) := by
  induction xs generalizing s with
  | nil => simp
  | cons a rest ih =>
    rw [cons_append, run_cons, ih, run_cons]
    simp

/-- Outputs are only given on the way back to the start state. -/
def Resets : Prop :=
  ∀ s a, (M.step s a).2 ≠ none → (M.step s a).1 = M.start

variable [DecidableEq State]

/-- The number of symbols up to the last return to the start state. -/
def consumed : State → List Symbol → Nat
  | _, [] => 0
  | s, a :: rest =>
    let s' := (M.step s a).1
    let k := consumed s' rest
    if k = 0 ∧ s' ≠ M.start then 0 else k + 1

theorem consumed_cons (s : State) (a : Symbol) (rest : List Symbol) :
    M.consumed s (a :: rest) =
      if M.consumed (M.step s a).1 rest = 0 ∧ (M.step s a).1 ≠ M.start then 0
      else M.consumed (M.step s a).1 rest + 1 :=
  rfl

theorem consumed_le (s : State) (xs : List Symbol) : M.consumed s xs ≤ xs.length := by
  induction xs generalizing s with
  | nil => simp [consumed]
  | cons a rest ih =>
    have hle := ih (M.step s a).1
    rw [consumed_cons]
    split_ifs
    · exact Nat.zero_le _
    · simpa using hle

/-- The scanner is in its start state at the last return. -/
theorem run_take_consumed (xs : List Symbol) :
    (M.run M.start (xs.take (M.consumed M.start xs))).1 = M.start := by
  have hmain : ∀ s, M.consumed s xs ≠ 0 → (M.run s (xs.take (M.consumed s xs))).1 = M.start := by
    induction xs with
    | nil => simp [consumed]
    | cons a rest ih =>
      intro s hne
      rw [consumed_cons] at hne ⊢
      split_ifs at hne ⊢ with hzero
      · exact absurd rfl hne
      · rw [take_succ_cons, run_cons]
        by_cases hk : M.consumed (M.step s a).1 rest = 0
        · have hstart : (M.step s a).1 = M.start := by
            by_contra hstart
            exact hzero ⟨hk, hstart⟩
          rw [hk, take_zero, run_nil]
          exact hstart
        · exact ih _ hk
  by_cases hk : M.consumed M.start xs = 0
  · rw [hk, take_zero, run_nil]
  · exact hmain M.start hk

/-- After the last return there are no outputs. -/
theorem run_drop_consumed (hM : M.Resets) (s : State) (xs : List Symbol) :
    (M.run (M.run s (xs.take (M.consumed s xs))).1 (xs.drop (M.consumed s xs))).2 = [] := by
  induction xs generalizing s with
  | nil => simp
  | cons a rest ih =>
    rw [consumed_cons]
    split_ifs with hzero
    · -- no return at all: the first symbol gives no output, and the rest has none either
      have hrest := ih (M.step s a).1
      rw [hzero.1, take_zero, run_nil, drop_zero] at hrest
      have hnone : (M.step s a).2 = none := by
        by_contra hsome
        exact hzero.2 (hM s a hsome)
      rw [take_zero, run_nil, drop_zero, run_cons, hrest, hnone]
      rfl
    · exact ih _

/-- Returns after a prefix that ends in the start state are counted from there. -/
theorem consumed_append (s : State) (xs ys : List Symbol) (hxs : (M.run s xs).1 = M.start)
    (hne : xs ≠ []) : M.consumed s (xs ++ ys) = xs.length + M.consumed M.start ys := by
  induction xs generalizing s with
  | nil => exact absurd rfl hne
  | cons a rest ih =>
    rw [cons_append, consumed_cons, length_cons]
    by_cases hrest : rest = []
    · subst hrest
      have hstart : (M.step s a).1 = M.start := hxs
      rw [hstart, nil_append]
      simp only [ne_eq, not_true_eq_false, and_false, if_false, length_nil]
      omega
    · have hlen : 0 < rest.length := length_pos_iff.mpr hrest
      have ih' := ih _ hxs hrest
      rw [ih', if_neg (by omega)]
      omega

/-! ## Buffered scans -/

/-- One call of a receiver without memory: scan the buffered symbols and the new
chunk, keep what follows the last return to the start state. -/
def feed (pending chunk : List Symbol) : List Symbol × List Output :=
  ((pending ++ chunk).drop (M.consumed M.start (pending ++ chunk)),
    (M.run M.start (pending ++ chunk)).2)

/-- What is still buffered after a stream was scanned. -/
def pending (xs : List Symbol) : List Symbol :=
  xs.drop (M.consumed M.start xs)

/-- Buffered symbols and a chunk, scanned from the start state, continue the scan of
the stream before them. -/
theorem feed_spec (hM : M.Resets) (xs chunk : List Symbol) :
    (M.feed (M.pending xs) chunk).1 = M.pending (xs ++ chunk) ∧
      (M.run M.start (xs ++ chunk)).2 =
        (M.run M.start xs).2 ++ (M.feed (M.pending xs) chunk).2 := by
  have hsplit := take_append_drop (M.consumed M.start xs) xs
  have hstart := M.run_take_consumed xs
  have hquiet := M.run_drop_consumed hM M.start xs
  rw [hstart] at hquiet
  have hxs : (M.run M.start xs).2 = (M.run M.start (xs.take (M.consumed M.start xs))).2 := by
    conv_lhs => rw [← hsplit, run_append, hstart, hquiet, append_nil]
  have hcat : xs ++ chunk =
      xs.take (M.consumed M.start xs) ++ (xs.drop (M.consumed M.start xs) ++ chunk) := by
    rw [← append_assoc, hsplit]
  constructor
  · unfold feed pending
    by_cases hnil : xs.take (M.consumed M.start xs) = []
    · rw [hnil, nil_append] at hcat
      rw [← hcat]
    · conv_rhs => rw [hcat, consumed_append M _ _ _ hstart hnil, drop_length_add_append]
  · rw [hxs]
    unfold feed pending
    conv_lhs => rw [hcat, run_append, hstart]

/-- Feed a list of chunks, starting with an empty buffer. -/
def feedAll : List Symbol → List (List Symbol) → List Symbol × List Output
  | buffer, [] => (buffer, [])
  | buffer, chunk :: rest =>
    let r := M.feed buffer chunk
    let t := feedAll r.1 rest
    (t.1, r.2 ++ t.2)

/-- However the stream is cut, the outputs are those of one scan of the stream. -/
theorem feedAll_outputs (hM : M.Resets) (xs : List Symbol) (chunks : List (List Symbol)) :
    (M.run M.start (xs ++ chunks.flatten)).2 =
      (M.run M.start xs).2 ++ (M.feedAll (M.pending xs) chunks).2 := by
  induction chunks generalizing xs with
  | nil => simp [feedAll]
  | cons chunk rest ih =>
    obtain ⟨hpend, hout⟩ := M.feed_spec hM xs chunk
    have hrest := ih (xs ++ chunk)
    rw [flatten_cons, ← append_assoc, hrest, hout]
    simp [feedAll, hpend]

end Scanner

end LteModemKernel.Lib
