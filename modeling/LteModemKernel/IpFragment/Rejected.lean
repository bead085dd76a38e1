import LteModemKernel.IpFragment.Reassembly

/-!
# Rejected fragments

The exits of `ip_frag_queue` that free the fragment, with those for lack of memory.  The length
and the flag of the queue change before the last of them, and the loop over the successors drops
fragments before it fails.

Main results:

- Theorem `rejected_eq_dropped`: with memory these are the fragments that are not inserted.
- Theorem `rejected_unchanged`: when a rejected fragment leaves the queue as it was.
-/

namespace LteModemKernel.IpFragment

open Ipq

/-- The buffer operations of a call that fail: the pull of the header, the trim to the end, the
pull of the overlap with the predecessor, and that of the overlapped successor. -/
structure Faults where
  pullHeader : Bool := false
  trim : Bool := false
  pullOverlap : Bool := false
  pullNext : Bool := false
  deriving DecidableEq, Repr

/-- The position behind the last byte that counts. -/
def Skb.cut (skb : Skb) : Nat :=
  if skb.isFinal then skb.finish else skb.finish - skb.finish % 8

namespace Ipq

/-- The loop over the successors up to a pull that fails. -/
def eatFailing (finish : Nat) : List Frag → Int → Option (List Frag × Int)
  | [], _ => none
  | next :: rest, meat =>
    if next.offset < finish then
      if finish - next.offset < next.data.length then some (next :: rest, meat)
      else eatFailing finish rest (meat - next.data.length)
    else none

/-- The predecessors of a fragment. -/
def before (q : Ipq) (skb : Skb) : List Frag :=
  q.fragments.takeWhile fun f => f.offset < skb.offset

/-- The successors of a fragment. -/
def after (q : Ipq) (skb : Skb) : List Frag :=
  q.fragments.dropWhile fun f => f.offset < skb.offset

/-- The queue that a rejected fragment leaves, nothing if the fragment is inserted. -/
def rejected (q : Ipq) (faults : Faults) (skb : Skb) : Option Ipq :=
  if q.complete then some q
  else match q.position skb with
  | none => some q
  | some (q, finish) =>
    let i := prevStop (q.before skb) - skb.offset
    if finish = skb.offset ∨ faults.pullHeader ∨ faults.trim then some q
    else if 0 < i ∧ (finish ≤ skb.offset + i ∨ faults.pullOverlap) then some q
    else if faults.pullNext then
      (eatFailing finish (q.after skb) q.meat).map fun r =>
        { q with fragments := q.before skb ++ r.1, meat := r.2 }
    else none

/-- The fragment does not move the end of the datagram. -/
def EndKnown (q : Ipq) (skb : Skb) : Prop :=
  q.lastIn = true ∨ skb.cut < q.len ∨ skb.isFinal = false ∧ skb.cut = q.len

/-- The loop over the successors is reached. -/
def Admits (q : Ipq) (faults : Faults) (skb : Skb) : Prop :=
  ¬(skb.cut = skb.offset ∨ faults.pullHeader ∨ faults.trim) ∧
    (skb.offset < prevStop (q.before skb) →
      prevStop (q.before skb) < skb.cut ∧ faults.pullOverlap = false)

/-- The first successor ends behind the fragment. -/
def FirstKept (q : Ipq) (skb : Skb) : Prop :=
  ∀ next ∈ (q.after skb).head?, skb.cut < next.stop

end Ipq

variable {q q' : Ipq} {skb : Skb} {faults : Faults} {finish : Nat}

theorem rejected_eq_dropped (q : Ipq) (skb : Skb) :
    q.rejected {} skb = if q.inserted skb = none then some (q.dropped skb) else none := by
  cases hcomplete : q.complete with
  | true => simp [rejected, inserted, dropped, hcomplete]
  | false =>
    cases hpos : q.position skb with
    | none => simp [rejected, inserted, dropped, hcomplete, hpos]
    | some r =>
      simp only [rejected, inserted, dropped, Ipq.insert, before, hcomplete, hpos]
      split_ifs <;> simp_all

/-- A position leaves the queue alone where it does not move the end. -/
theorem position_cut (h : q.position skb = some (q', finish)) :
    finish = skb.cut ∧ q'.fragments = q.fragments ∧ q'.meat = q.meat ∧
      (q' = q ↔ q.EndKnown skb) := by
  unfold EndKnown Skb.cut
  rcases position_cases h with ⟨hfinal, hlen, hlast, rfl, rfl⟩ | ⟨hmore, rfl, hq'⟩
  · rw [if_pos hfinal]
    refine ⟨rfl, rfl, rfl, ?_⟩
    constructor
    · intro heq
      exact .inl (congrArg lastIn heq).symm
    · rintro (hset | hlt | ⟨hnot, -⟩)
      · rw [hlast hset, ← hset]
      · omega
      · cases hfinal.symm.trans hnot
  · rw [if_neg (by simp [hmore])]
    rcases hq' with ⟨hle, rfl⟩ | ⟨hlt, hlast, rfl⟩
    · refine ⟨rfl, rfl, rfl, iff_of_true rfl (.inr ?_)⟩
      exact (Nat.lt_or_eq_of_le hle).imp_right fun heq => ⟨hmore, heq⟩
    · refine ⟨rfl, rfl, rfl, iff_of_false ?_ ?_⟩
      · intro heq
        exact Nat.ne_of_gt hlt (congrArg Ipq.len heq)
      · rintro (hset | hlt' | ⟨-, heq⟩)
        · cases hlast.symm.trans hset
        · omega
        · omega

theorem eatFailing_length {fs : List Frag} {meat : Int} {r : List Frag × Int}
    (h : eatFailing finish fs meat = some r) : r.1.length ≤ fs.length := by
  fun_induction eatFailing finish fs meat with
  | case1 => cases h
  | case2 => cases h; exact Nat.le_refl _
  | case3 meat next rest _ _ ih => exact Nat.le_succ_of_le (ih h)
  | case4 => cases h

/-- The loop changes nothing where the pull of the first successor is the one that fails. -/
theorem eatFailing_eq {fs : List Frag} {meat : Int} {r : List Frag × Int}
    (h : eatFailing finish fs meat = some r) :
    r = (fs, meat) ↔ ∀ next ∈ fs.head?, finish < next.stop := by
  cases fs with
  | nil => cases h
  | cons next rest =>
    unfold eatFailing at h
    simp only [List.head?_cons, Option.mem_some_iff, forall_eq', Frag.stop]
    split_ifs at h with hover hpart
    · cases h
      exact iff_of_true rfl (by omega)
    · refine iff_of_false ?_ (by omega)
      rintro rfl
      exact Nat.lt_irrefl _ (eatFailing_length h)

/-- A rejected fragment changes nothing if and only if it is rejected before the queue is touched,
or it does not move the end of the datagram and, where the loop over the successors fails, the
pull of the first one does. -/
theorem rejected_unchanged (h : q.rejected faults skb = some q') :
    q' = q ↔ q.complete = true ∨ q.position skb = none ∨
      q.EndKnown skb ∧ (q.Admits faults skb → q.FirstKept skb) := by
  cases hcomplete : q.complete with
  | true => simp_all [rejected]
  | false =>
    cases hpos : q.position skb with
    | none => simp_all [rejected]
    | some r =>
      rcases r with ⟨p, finish⟩
      rcases position_cut hpos with ⟨rfl, hfragments, hmeat, hsame⟩
      have hbefore : p.before skb = q.before skb := by rw [before, before, hfragments]
      have hafter : p.after skb = q.after skb := by rw [after, after, hfragments]
      simp only [rejected, hcomplete, hpos, Bool.false_eq_true, if_false, hbefore, hafter,
        hmeat] at h
      simp only [Bool.false_eq_true, reduceCtorEq, false_or, ← hsame]
      split_ifs at h with hearly hover
      · cases h
        exact (and_iff_left fun hadmits => absurd hearly hadmits.1).symm
      · cases h
        refine (and_iff_left fun hadmits => ?_).symm
        rcases hadmits.2 (by omega) with ⟨hlt, hfault⟩
        rcases hover.2 with hle | hpull
        · omega
        · cases hfault.symm.trans hpull
      · rcases Option.map_eq_some_iff.mp h with ⟨r, hr, rfl⟩
        have hadmits : q.Admits faults skb := by
          refine ⟨hearly, fun hlt => ?_⟩
          rw [not_and_or, not_or, Bool.not_eq_true] at hover
          exact (hover.resolve_left (by omega)).imp_left (by omega)
        have hsplit : q.before skb ++ q.after skb = q.fragments := List.takeWhile_append_dropWhile
        rw [imp_iff_right hadmits, FirstKept, ← eatFailing_eq hr]
        constructor
        · intro heq
          have hfirst := (congrArg fragments heq).trans hsplit.symm
          have hr' : r = (q.after skb, q.meat) :=
            Prod.ext (List.append_cancel_left hfirst) (congrArg Ipq.meat heq)
          refine ⟨?_, hr'⟩
          rw [← heq, hr', hsplit, ← hfragments, ← hmeat]
        · rintro ⟨rfl, rfl⟩
          rw [hsplit]

/-- The fragments from 0 to 8 and from 16 to 32. -/
def gapped : Ipq := (run [⟨0x2000, 20, .replicate 8 0⟩, ⟨0x2002, 20, .replicate 16 0⟩]).1

/-- The pull of the first successor fails. -/
theorem rejected_unchanged_unpulled : ∃ q',
    gapped.rejected { pullNext := true } ⟨0x2001, 20, .replicate 16 0⟩ = some q' ∧ q' = gapped := by
  have hsome : (gapped.rejected { pullNext := true } ⟨0x2001, 20, .replicate 16 0⟩).isSome := by
    decide
  rcases Option.isSome_iff_exists.mp hsome with ⟨q', hq'⟩
  have hend : gapped.EndKnown ⟨0x2001, 20, .replicate 16 0⟩ := .inr (.inl (by decide))
  refine ⟨q', hq', (rejected_unchanged hq').mpr (.inr (.inr ⟨hend, fun _ => ?_⟩))⟩
  unfold FirstKept
  decide

/-- A final fragment without data behind a first one of 8 bytes: it is rejected, and the queue takes
its flag. -/
theorem rejected_sets_last_in :
    (ipFragQueue (run [⟨0x2000, 20, [1, 2, 3, 4, 5, 6, 7, 8]⟩]).1 ⟨1, 20, []⟩).2 = .error .inval ∧
      (run [⟨0x2000, 20, [1, 2, 3, 4, 5, 6, 7, 8]⟩]).1.lastIn = false ∧
      ((run [⟨0x2000, 20, [1, 2, 3, 4, 5, 6, 7, 8]⟩]).1.rejected {} ⟨1, 20, []⟩).map Ipq.lastIn =
        some true := by
  decide

end LteModemKernel.IpFragment
