import LteModemKernel.IpFragment.Model
import LteModemKernel.Lib.Intervals

/-!
# Reassembly of IPv4 datagrams

Whatever fragments come in, in whatever order and however they overlap, the queue stays a
list of disjoint fragments in the order of their offsets whose lengths add up to
`q.meat`.  Therefore `q.meat` equals `q.len` exactly when the fragments
cover the datagram, and the glued datagram has at every position a byte that some
received fragment has there.

Main results:

- Theorem `Queued.inserted`: putting a fragment into the queue keeps the invariant.
- Theorem `runInv_run`: the invariant holds until a datagram is built.
- Theorem `reassembly`: the queue is tidy, a datagram is built exactly when it is
  complete and not too long, and its bytes are received ones.
-/

namespace LteModemKernel.IpFragment

open List Nat Bool Frag Ipq

open Lib (Ordered Covered)

variable {rs : List Skb} {q q' : Ipq} {results : List Result} {r : Result}

/-! ## Received bytes -/

/-- Some received fragment has the byte at the position of the datagram. -/
def Received (rs : List Skb) (p : Nat) (b : UInt8) : Prop :=
  ∃ r ∈ rs, r.offset ≤ p ∧ r.payload[p - r.offset]? = some b

theorem Received.mono {p : Nat} {b : UInt8} (h : Received rs p b) (skb : Skb) :
    Received (rs ++ [skb]) p b := by
  rcases h with ⟨r, hr, hbyte⟩
  exact ⟨r, mem_append_left _ hr, hbyte⟩

/-- A fragment of the queue holds received bytes. -/
def Frag.FromReceived (rs : List Skb) (f : Frag) : Prop :=
  ∀ k b, f.data[k]? = some b → Received rs (f.offset + k) b

theorem Frag.FromReceived.mono {f : Frag} (h : f.FromReceived rs) (skb : Skb) :
    f.FromReceived (rs ++ [skb]) :=
  fun k b hb => (h k b hb).mono skb

/-- A fragment that loses its head still holds received bytes. -/
theorem Frag.FromReceived.drop {f : Frag} (h : f.FromReceived rs) (i : Nat) :
    ({ f with offset := f.offset + i, data := f.data.drop i } : Frag).FromReceived rs := by
  intro k b hb
  have hdata : f.data[i + k]? = some b := by
    rw [← getElem?_drop]
    exact hb
  have hbyte := h (i + k) b hdata
  rwa [← add_assoc] at hbyte

/-! ## The invariant -/

/-- The lengths of the fragments added up. -/
def size (fs : List Frag) : Nat :=
  Lib.total offset stop fs

theorem size_eq (fs : List Frag) : size fs = (fs.map fun f => f.data.length).sum := by
  have hlength : (fun f : Frag => f.stop - f.offset) = fun f => f.data.length := by
    funext f
    rw [stop, Nat.add_sub_cancel_left]
  rw [size, Lib.total, hlength]

@[simp]
theorem size_cons (f : Frag) (fs : List Frag) : size (f :: fs) = f.data.length + size fs := by
  rw [size_eq, size_eq, map_cons, sum_cons]

@[simp]
theorem size_append (fs gs : List Frag) : size (fs ++ gs) = size fs + size gs :=
  Lib.total_append

/-- The state of a queue that was given the fragments `rs`. -/
structure Queued (rs : List Skb) (q : Ipq) : Prop where
  ordered : Ordered offset stop 0 q.fragments q.len
  meat : q.meat = size q.fragments
  bytes : ∀ f ∈ q.fragments, f.FromReceived rs
  first : ∀ f ∈ q.fragments, f.offset = 0 → q.firstIn = true
  final : q.lastIn = true → ∃ r ∈ rs, r.isFinal = true ∧ r.finish = q.len
  notFinal : q.lastIn = false → ∀ r ∈ rs, r.isFinal = true → r.finish < q.len

theorem queued_empty : Queued [] empty where
  ordered := le_rfl
  meat := rfl
  bytes := by simp [empty]
  first := by simp [empty]
  final := by simp [empty]
  notFinal := by simp

/-! ## The steps of a call -/

section Steps

variable {skb : Skb} {finish : Nat}

theorem finish_mod (skb : Skb) : skb.offset ≤ skb.finish - skb.finish % 8 := by
  have hoffset : skb.offset % 8 = 0 := mul_mod_left _ 8
  have hle : skb.offset ≤ skb.finish := le_add_right _ _
  omega

/-- The fragment is the final one, or it ends inside the queue, or the queue is extended to its
end. -/
theorem position_cases (h : q.position skb = some (q', finish)) :
    skb.isFinal = true ∧ q.len ≤ skb.finish ∧ (q.lastIn = true → skb.finish = q.len) ∧
        finish = skb.finish ∧ q' = { q with lastIn := true, len := finish } ∨
      skb.isFinal = false ∧ finish = skb.finish - skb.finish % 8 ∧
        (finish ≤ q.len ∧ q' = q ∨
          q.len < finish ∧ q.lastIn = false ∧ q' = { q with len := finish }) := by
  simp only [position] at h
  split_ifs at h with hfinal hfit hlen hlast <;> cases h
  · exact .inl ⟨hfinal, by omega, fun hlast => by simp [hlast] at hfit; omega, rfl, rfl⟩
  · exact .inr ⟨eq_false_iff.mpr hfinal, rfl, .inr ⟨hlen, eq_false_iff.mpr hlast, rfl⟩⟩
  · exact .inr ⟨eq_false_iff.mpr hfinal, rfl, .inl ⟨not_lt.mp hlen, rfl⟩⟩

/-- The fragment ends inside the queue and not before its offset. -/
theorem position_bounds (h : q.position skb = some (q', finish)) :
    q'.complete = q.complete ∧ skb.offset ≤ finish ∧ finish ≤ skb.finish ∧ finish ≤ q'.len := by
  rcases position_cases h with ⟨-, -, -, rfl, rfl⟩ | ⟨-, rfl, ⟨hle, rfl⟩ | ⟨-, -, rfl⟩⟩
  · exact ⟨rfl, le_add_right _ _, le_rfl, le_rfl⟩
  · exact ⟨rfl, finish_mod skb, sub_le _ _, hle⟩
  · exact ⟨rfl, finish_mod skb, sub_le _ _, le_rfl⟩

/-- A fragment that leaves the queue as it is does not determine its length. -/
theorem Queued.skip (h : Queued rs q)
    (hskb : q.lastIn = false → skb.isFinal = true → skb.finish < q.len) :
    Queued (rs ++ [skb]) q := by
  refine ⟨h.ordered, h.meat, fun f hf => (h.bytes f hf).mono skb, h.first, ?_, ?_⟩
  · intro hlast
    rcases h.final hlast with ⟨r, hr, hr'⟩
    exact ⟨r, mem_append_left _ hr, hr'⟩
  · intro hlast
    exact forall_mem_append.mpr
      ⟨h.notFinal hlast, forall_mem_singleton.mpr (hskb hlast)⟩

/-- Determining the position keeps the invariant. -/
theorem Queued.position (h : Queued rs q) (hpos : q.position skb = some (q', finish)) :
    Queued (rs ++ [skb]) q' := by
  rcases position_cases hpos with ⟨hfinal, hlen, -, rfl, rfl⟩ | ⟨hmore, -, hq'⟩
  · exact { h with
      ordered := h.ordered.mono le_rfl hlen
      bytes := fun f hf => (h.bytes f hf).mono skb
      final := fun _ => ⟨skb, by simp, hfinal, rfl⟩
      notFinal := nofun }
  · have hskip : Queued (rs ++ [skb]) q := h.skip (by simp [hmore])
    rcases hq' with ⟨-, rfl⟩ | ⟨hlt, hlast, rfl⟩
    · exact hskip
    · exact { hskip with
        ordered := h.ordered.mono le_rfl hlt.le
        final := by simp [hlast]
        notFinal := fun _ r hr hfinal => (hskip.notFinal hlast r hr hfinal).trans hlt }

/-- A fragment whose position does not fit is not the final one. -/
theorem Queued.misplaced (h : Queued rs q) (hpos : q.position skb = none) :
    Queued (rs ++ [skb]) q := by
  refine h.skip fun hlast hfinal => ?_
  unfold Ipq.position at hpos
  rw [if_pos hfinal] at hpos
  split at hpos
  · next hbad =>
    rcases hbad with hlt | ⟨hlast', -⟩
    · exact hlt
    · cases hlast.symm.trans hlast'
  · cases hpos

/-- What the loop over the successors leaves behind the end of the new fragment. -/
structure Eaten (finish hi : Nat) (after : List Frag) (meat : Int) (after' : List Frag)
    (meat' : Int) : Prop where
  ordered : Ordered offset stop finish after' hi
  meat : meat' = meat - size after + size after'
  bytes : ∀ rs : List Skb, (∀ f ∈ after, f.FromReceived rs) → ∀ f ∈ after', f.FromReceived rs

theorem eat_eaten {lo hi : Nat} (hfinish : finish ≤ hi) (after : List Frag) (meat : Int)
    (h : Ordered offset stop lo after hi) :
    Eaten finish hi after meat (eat finish after meat).1 (eat finish after meat).2 := by
  induction after generalizing lo meat with
  | nil => exact ⟨hfinish, by simp [eat], fun rs hrs => hrs⟩
  | cons next rest ih =>
    rcases h with ⟨hlo, hnext, hrest⟩
    simp only [eat]
    split
    · next hoverlap =>
      split
      · next hhead =>
        -- the successor begins inside the new fragment and ends behind it
        have hstop : next.offset + (finish - next.offset) +
            (next.data.drop (finish - next.offset)).length = next.stop := by
          rw [length_drop, stop]
          omega
        refine ⟨⟨?_, ?_, ?_⟩, ?_, ?_⟩
        · simp only
          omega
        · rw [stop, hstop, stop]
          simp only
          omega
        · rw [stop, hstop]
          exact hrest
        · rw [size_cons, size_cons, length_drop]
          omega
        · intro rs hrs
          rcases forall_mem_cons.mp hrs with ⟨hnext, hrest⟩
          exact forall_mem_cons.mpr ⟨hnext.drop _, hrest⟩
      · have hrec := ih (meat - next.data.length) hrest
        refine ⟨hrec.ordered, ?_, ?_⟩
        · rw [hrec.meat, size_cons]
          omega
        · intro rs hrs
          exact hrec.bytes rs fun f hf => hrs f (mem_cons_of_mem _ hf)
    · next hbehind =>
      exact ⟨⟨not_lt.mp hbehind, hnext, hrest⟩, by simp, fun rs hrs => hrs⟩

theorem prevStop_eq (before : List Frag) : prevStop before = Lib.endOf stop 0 before := by
  rw [Lib.endOf_eq, prevStop]
  cases before.getLast? with
  | none | some prev => rfl

/-- A fragment is put into an open queue at its position, if it is not empty. -/
theorem inserted_eq_some (h : q.inserted skb = some q') : q.complete = false ∧
    ∃ q₁ finish, q.position skb = some (q₁, finish) ∧ finish ≠ skb.offset ∧
      q₁.insert skb finish = some q' := by
  unfold inserted at h
  split at h
  · cases h
  · next hopen =>
    split at h
    · cases h
    · next q₁ finish hpos =>
      split at h
      · cases h
      · next hne => exact ⟨eq_false_iff.mpr hopen, q₁, finish, hpos, hne, h⟩

section

variable (h : Queued rs q)
include h

/-- Putting a fragment at its position keeps the invariant. -/
theorem Queued.insert (hskb : skb ∈ rs) (hoffset : skb.offset < finish) (hinside : finish ≤ q.len)
    (hfinish : finish ≤ skb.finish) (hinsert : q.insert skb finish = some q') : Queued rs q' := by
  unfold Ipq.insert at hinsert
  simp only at hinsert
  generalize hbefore : (q.fragments.takeWhile fun f => f.offset < skb.offset) = before at hinsert
  generalize hafter : (q.fragments.dropWhile fun f => f.offset < skb.offset) = after at hinsert
  have hsplit : q.fragments = before ++ after := by
    rw [← hbefore, ← hafter, takeWhile_append_dropWhile]
  rw [prevStop_eq] at hinsert
  generalize hi : Lib.endOf stop 0 before - skb.offset = i at hinsert
  split at hinsert
  · cases hinsert
  · next hroom =>
    have hordered := h.ordered
    rw [hsplit, Lib.ordered_append] at hordered
    rcases hordered with ⟨mid, hordBefore, hordAfter⟩
    rcases hordBefore.endOf with ⟨hordBefore, -⟩
    have heaten := eat_eaten hinside after q.meat hordAfter
    have hlength : ((skb.payload.take (finish - skb.offset)).drop i).length =
        finish - (skb.offset + i) := by
      rw [length_drop, length_take]
      rw [Skb.finish] at hfinish
      omega
    have hnewoffset : skb.offset + i < finish := by omega
    have hbytes : ∀ f ∈ before ++ after, f.FromReceived rs := hsplit ▸ h.bytes
    have hnew : (⟨skb.offset + i, (skb.payload.take (finish - skb.offset)).drop i,
        skb.ihl⟩ : Frag).FromReceived rs := by
      intro k b hb
      simp only [getElem?_drop] at hb
      have hpayload : skb.payload[i + k]? = some b := by
        rw [getElem?_take] at hb
        split at hb
        · exact hb
        · cases hb
      refine ⟨skb, hskb, by simp only; omega, ?_⟩
      have hindex : skb.offset + i + k - skb.offset = i + k := by omega
      rw [hindex]
      exact hpayload
    cases hinsert
    refine ⟨?_, ?_, ?_, ?_, h.final, h.notFinal⟩
    · rw [Lib.ordered_append]
      refine ⟨Lib.endOf stop 0 before, hordBefore, by simp only; omega, ?_, ?_⟩
      · rw [stop, hlength]
        simp only
        omega
      · rw [stop, hlength]
        simp only
        rw [Nat.add_sub_cancel' hnewoffset.le]
        exact heaten.ordered
    · have hmeat := h.meat
      rw [hsplit, size_append] at hmeat
      simp only [heaten.meat, size_append, size_cons]
      omega
    · intro f hf
      simp only [mem_append, mem_cons] at hf
      rcases hf with hf | rfl | hf
      · exact hbytes f (mem_append_left _ hf)
      · exact hnew
      · exact heaten.bytes rs (fun g hg => hbytes g (mem_append_right _ hg)) f hf
    · intro f hf hzero
      simp only [mem_append, mem_cons] at hf
      simp only [or_eq_true, beq_iff_eq]
      rcases hf with hf | rfl | hf
      · exact .inl (h.first f (hsplit ▸ mem_append_left _ hf) hzero)
      · exact .inr hzero
      · have hge := (heaten.ordered.of_mem hf).1
        omega

/-- Putting a fragment into the queue keeps the invariant. -/
theorem Queued.inserted (hinserted : q.inserted skb = some q') : Queued (rs ++ [skb]) q' := by
  rcases inserted_eq_some hinserted with ⟨-, q₁, finish, hpos, hne, hinsert⟩
  rcases position_bounds hpos with ⟨-, hoffset, hfinish, hinside⟩
  exact (h.position hpos).insert (by simp) (lt_of_le_of_ne hoffset (.symm hne)) hinside hfinish
    hinsert

theorem Queued.dropped (hopen : q.complete = false) : Queued (rs ++ [skb]) (q.dropped skb) := by
  unfold Ipq.dropped
  rw [hopen, if_neg Bool.false_ne_true]
  cases hpos : q.position skb with
  | none => exact h.misplaced hpos
  | some r => exact h.position hpos

/-- After the final fragment another one that is ignored changes nothing. -/
theorem Queued.ignored (hlast : q.lastIn = true) : Queued (rs ++ [skb]) q := by
  refine h.skip fun hnot => ?_
  cases hlast.symm.trans hnot

/-- The length is reached exactly when the fragments cover the datagram. -/
theorem Queued.meat_eq_len_iff :
    q.meat = q.len ↔ ∀ p < q.len, Covered offset stop q.fragments p := by
  have hcovers := h.ordered.covers_iff
  rw [h.meat, Int.ofNat_inj]
  rw [zero_add] at hcovers
  constructor
  · intro heq p hp
    exact hcovers.mp heq p (zero_le p) hp
  · intro hcover
    exact hcovers.mpr fun p _ hp => hcover p hp

theorem Queued.firstIn_of_covers (hne : q.fragments ≠ [])
    (hcover : ∀ p < q.len, Covered offset stop q.fragments p) : q.firstIn = true := by
  rcases exists_mem_of_ne_nil _ hne with ⟨g, hg⟩
  have hlen : 0 < q.len := by
    have hbounds := h.ordered.of_mem hg
    omega
  rcases hcover 0 hlen with ⟨f, hf, hzero, -⟩
  exact h.first f hf (le_zero.mp hzero)

end

theorem glued_received {lo hi : Nat} {fs : List Frag}
    (hordered : Ordered offset stop lo fs hi) (htotal : lo + size fs = hi)
    (hbytes : ∀ f ∈ fs, f.FromReceived rs) {p : Nat} {b : UInt8}
    (hb : (fs.map data).flatten[p]? = some b) : Received rs (lo + p) b := by
  induction fs generalizing lo p with
  | nil => cases hb
  | cons f fs ih =>
    rcases hordered with ⟨hlo, hf, hfs⟩
    have hle := hfs.total_le
    rw [size_cons] at htotal
    have hstop : f.stop = f.offset + f.data.length := rfl
    have hsize : Lib.total offset stop fs = size fs := rfl
    have hoffset : f.offset = lo := by omega
    rw [map_cons, flatten_cons] at hb
    by_cases hp : p < f.data.length
    · rw [getElem?_append_left hp] at hb
      rw [← hoffset]
      exact hbytes f mem_cons_self p b hb
    · rw [getElem?_append_right (not_lt.mp hp)] at hb
      have hrest := ih hfs (by omega) (fun g hg => hbytes g (mem_cons_of_mem _ hg)) hb
      have hindex : f.stop + (p - f.data.length) = lo + p := by omega
      rwa [hindex] at hrest

end Steps

/-! ## Runs -/

theorem run_append (rs : List Skb) (skb : Skb) :
    run (rs ++ [skb]) =
      ((ipFragQueue (run rs).1 skb).1, (run rs).2 ++ [(ipFragQueue (run rs).1 skb).2]) := by
  rw [run, foldl_append]
  rfl

/-- No call built a datagram. -/
def NotBuilt (results : List Result) : Prop :=
  ∀ d, Result.complete d ∉ results

/-- What every run keeps: the invariant holds until a datagram is built, and the queue is
complete from then on. -/
structure RunInv (rs : List Skb) (q : Ipq) (results : List Result) : Prop where
  queued : NotBuilt results → Queued rs q
  opened : q.complete = false → NotBuilt results
  lastIn : q.complete = true → q.lastIn = true

theorem NotBuilt.of_append (h : NotBuilt (results ++ [r])) : NotBuilt results :=
  fun d hd => h d (mem_append_left _ hd)

theorem NotBuilt.append (h : NotBuilt results) (hr : ∀ d, r ≠ .complete d) :
    NotBuilt (results ++ [r]) := by
  intro d hd
  rcases mem_append.mp hd with hd | hd
  · exact h d hd
  · exact hr d (mem_singleton.mp hd).symm

/-- A queue a fragment was put into is not complete and not empty. -/
theorem inserted_open {skb : Skb} (h : q.inserted skb = some q') :
    q'.complete = false ∧ q'.fragments ≠ [] := by
  rcases inserted_eq_some h with ⟨hopen, q₁, finish, hpos, -, hinsert⟩
  unfold Ipq.insert at hinsert
  simp only at hinsert
  split at hinsert
  · cases hinsert
  · cases hinsert
    exact ⟨(position_bounds hpos).1.trans hopen, by simp⟩

theorem ipFragReasm_cases {head : Frag} {rest : List Frag} (hq : q.fragments = head :: rest) :
    (65535 < head.ihl + q.len ∧ ipFragReasm q = ({ q with complete := true }, .error .tooBig)) ∨
      head.ihl + q.len ≤ 65535 ∧
        ipFragReasm q = ({ q with complete := true, fragments := [] },
          .complete ⟨head.ihl, (q.fragments.map data).flatten⟩) := by
  unfold ipFragReasm
  rw [hq]
  simp only
  split
  · next hbig => exact .inl ⟨hbig, rfl⟩
  · next hfits => exact .inr ⟨not_lt.mp hfits, rfl⟩

theorem RunInv.step (h : RunInv rs q results) (skb : Skb) :
    RunInv (rs ++ [skb]) (ipFragQueue q skb).1 (results ++ [(ipFragQueue q skb).2]) := by
  unfold ipFragQueue
  cases hcomplete : q.complete with
  | true =>
    have hnone : q.inserted skb = none := by rw [inserted, hcomplete, if_pos rfl]
    have hdropped : q.dropped skb = q := by rw [dropped, hcomplete, if_pos rfl]
    rw [hnone, hdropped]
    simp only
    refine ⟨?_, ?_, h.lastIn⟩
    · intro hnot
      exact (h.queued hnot.of_append).ignored (h.lastIn hcomplete)
    · intro hfalse
      cases hcomplete.symm.trans hfalse
  | false =>
    have hqueued := h.queued (h.opened hcomplete)
    have hnot := h.opened hcomplete
    cases hinserted : q.inserted skb with
    | none =>
      have hdropped : (q.dropped skb).complete = false := by
        unfold dropped
        rw [hcomplete, if_neg Bool.false_ne_true]
        cases hpos : q.position skb with
        | none => exact hcomplete
        | some r => exact (position_bounds hpos).1.trans hcomplete
      refine ⟨fun _ => hqueued.dropped hcomplete, fun _ => hnot.append nofun, ?_⟩
      intro htrue
      cases hdropped.symm.trans htrue
    | some q' =>
      have hqueued' := hqueued.inserted hinserted
      rcases inserted_open hinserted with ⟨hopen, hne⟩
      simp only
      split
      · next hall =>
        rcases exists_cons_of_ne_nil hne with ⟨head, rest, hfragments⟩
        rcases ipFragReasm_cases hfragments with ⟨-, heq⟩ | ⟨-, heq⟩
        · rw [heq]
          exact ⟨fun _ => { hqueued' with }, nofun, fun _ => hall.2.1⟩
        · rw [heq]
          exact ⟨fun hnot' => absurd (mem_append_right _ mem_cons_self) (hnot' _),
            nofun, fun _ => hall.2.1⟩
      · refine ⟨fun _ => hqueued', fun _ => hnot.append nofun, ?_⟩
        intro htrue
        cases hopen.symm.trans htrue

theorem runInv_run (rs : List Skb) : RunInv rs (run rs).1 (run rs).2 := by
  induction rs using reverseRecOn with
  | nil => exact ⟨fun _ => queued_empty, fun _ _ => not_mem_nil, nofun⟩
  | append_singleton rs skb ih =>
    rw [run_append]
    exact ih.step skb

/-! ## Reassembly -/

/-- A queue in order: the fragments are not empty, sorted and disjoint and end at or before
`q.len`, and `q.meat` is the sum of their lengths. -/
structure Tidy (q : Ipq) : Prop where
  sorted : q.fragments.Pairwise fun f g => f.offset < g.offset
  disjoint : q.fragments.Pairwise fun f g => f.stop ≤ g.offset
  nonempty : ∀ f ∈ q.fragments, f.data ≠ []
  bounded : ∀ f ∈ q.fragments, f.stop ≤ q.len
  meat : q.meat = ((q.fragments.map fun f => f.data.length).sum : Nat)

theorem Queued.tidy (h : Queued rs q) : Tidy q where
  sorted := by
    apply h.ordered.pairwise.imp_of_mem
    intro f g hf _ hfg
    exact (h.ordered.of_mem hf).2.1.trans_le hfg
  disjoint := h.ordered.pairwise
  nonempty := by
    intro f hf hnil
    have hlt := (h.ordered.of_mem hf).2.1
    rw [stop, hnil, length_nil] at hlt
    exact absurd hlt (lt_irrefl _)
  bounded := fun f hf => (h.ordered.of_mem hf).2.2
  meat := by rw [h.meat, size_eq]

/-- A final fragment that was not rejected has been seen: it determines the length. -/
def FinalSeen (rs : List Skb) (q : Ipq) : Prop :=
  ∃ r ∈ rs, r.isFinal = true ∧ r.finish = q.len

theorem Queued.lastIn_iff (h : Queued rs q) : q.lastIn = true ↔ FinalSeen rs q := by
  constructor
  · exact h.final
  · rintro ⟨r, hr, hfinal, hfinish⟩
    by_contra hlast
    have hlt := h.notFinal (eq_false_iff.mpr hlast) r hr hfinal
    exact absurd hfinish hlt.ne

/-- The queue can be glued: a final fragment has been seen, the fragments cover the
datagram, and the datagram with the header of its first fragment is not too long. -/
structure Complete (rs : List Skb) (q : Ipq) : Prop where
  final : FinalSeen rs q
  covers : ∀ p < q.len, Covered offset stop q.fragments p
  fits : ∃ head, q.fragments.head? = some head ∧ head.ihl + q.len ≤ 65535

/-- A datagram that was built from the queue: it is as long as the final fragment says, and
every byte of it was received at its position. -/
structure Built (rs : List Skb) (q : Ipq) (d : Datagram) : Prop where
  length : d.payload.length = q.len
  final : ∃ r ∈ rs, r.isFinal = true ∧ r.finish = d.payload.length
  bytes : ∀ p b, d.payload[p]? = some b → Received rs p b

/-- The call that puts a fragment into a queue builds the datagram exactly when the queue
can be glued. -/
theorem Queued.built_iff {skb : Skb} (h : Queued (rs ++ [skb]) q')
    (hinserted : q.inserted skb = some q') :
    ((∃ d, (ipFragQueue q skb).2 = .complete d) ↔ Complete (rs ++ [skb]) q') ∧
      ∀ d, (ipFragQueue q skb).2 = .complete d → Built (rs ++ [skb]) q' d := by
  have hne := (inserted_open hinserted).2
  rcases exists_cons_of_ne_nil hne with ⟨head, rest, hfragments⟩
  have hhead : q'.fragments.head? = some head := by rw [hfragments]; rfl
  unfold ipFragQueue
  rw [hinserted]
  simp only
  by_cases hall : q'.firstIn = true ∧ q'.lastIn = true ∧ q'.meat = q'.len
  · rw [if_pos hall]
    have hcovers := h.meat_eq_len_iff.mp hall.2.2
    have hfinal := h.lastIn_iff.mp hall.2.1
    rcases ipFragReasm_cases hfragments with ⟨hbig, heq⟩ | ⟨hfits, heq⟩
    · rw [heq]
      refine ⟨⟨nofun, ?_⟩, nofun⟩
      rintro ⟨-, -, head', hhead', hfits⟩
      cases hhead.symm.trans hhead'
      exact absurd hfits (not_le.mpr hbig)
    · rw [heq]
      refine ⟨⟨fun _ => ⟨hfinal, hcovers, head, hhead, hfits⟩, fun _ => ⟨_, rfl⟩⟩, ?_⟩
      rintro d ⟨rfl⟩
      have hsize : size q'.fragments = q'.len := by
        rw [← Int.ofNat_inj, ← h.meat]
        exact hall.2.2
      have hlength : ((q'.fragments.map data).flatten).length = q'.len := by
        rw [length_flatten, map_map, ← hsize, size_eq]
        rfl
      refine ⟨hlength, ?_, ?_⟩
      · rcases hfinal with ⟨r, hr, hr', hfinish⟩
        exact ⟨r, hr, hr', hfinish.trans hlength.symm⟩
      · intro p b hb
        have hreceived := glued_received h.ordered (by rw [hsize, zero_add]) h.bytes hb
        rwa [zero_add] at hreceived
  · rw [if_neg hall]
    refine ⟨⟨nofun, ?_⟩, nofun⟩
    rintro ⟨hfinal, hcovers, -⟩
    exact absurd ⟨h.firstIn_of_covers hne hcovers, h.lastIn_iff.mpr hfinal,
      h.meat_eq_len_iff.mpr hcovers⟩ hall

/-- For every sequence of fragments: the queue is tidy as long as no datagram is built, also
right after the fragment of a call was put into it; that call builds the datagram exactly
when the queue can be glued; and what it builds has the length of the final fragment and
received bytes. -/
theorem reassembly (rs : List Skb) :
    (NotBuilt (run rs).2 → Tidy (run rs).1) ∧
      ∀ skb q', (run rs).1.inserted skb = some q' →
        Tidy q' ∧
          ((∃ d, (ipFragQueue (run rs).1 skb).2 = .complete d) ↔ Complete (rs ++ [skb]) q') ∧
          ∀ d, (ipFragQueue (run rs).1 skb).2 = .complete d → Built (rs ++ [skb]) q' d := by
  have hrun := runInv_run rs
  refine ⟨fun hnot => (hrun.queued hnot).tidy, ?_⟩
  intro skb q' hinserted
  have hopen := (inserted_eq_some hinserted).1
  have hqueued := (hrun.queued (hrun.opened hopen)).inserted hinserted
  exact ⟨hqueued.tidy, hqueued.built_iff hinserted⟩

/-- The final fragment comes in before the first one, and the first one overlaps it. -/
theorem reassembly_out_of_order :
    ∃ q d, (run [⟨1, 20, [20, 21, 22]⟩]).1.inserted
        ⟨0x2000, 20, [1, 2, 3, 4, 5, 6, 7, 8, 9, 10, 11, 12, 13, 14, 15, 16]⟩ = none ∧
      (run [⟨1, 20, [20, 21, 22]⟩]).1.inserted ⟨0x2000, 20, [1, 2, 3, 4, 5, 6, 7, 8, 9]⟩ =
        some q ∧
      NotBuilt (run [⟨1, 20, [20, 21, 22]⟩]).2 ∧ Tidy (run [⟨1, 20, [20, 21, 22]⟩]).1 ∧
      d.payload = [1, 2, 3, 4, 5, 6, 7, 8, 20, 21, 22] ∧
      Built [⟨1, 20, [20, 21, 22]⟩, ⟨0x2000, 20, [1, 2, 3, 4, 5, 6, 7, 8, 9]⟩] q d := by
  have hall := reassembly [⟨1, 20, [20, 21, 22]⟩]
  have hnot : NotBuilt (run [⟨1, 20, [20, 21, 22]⟩]).2 := by
    have hresults : (run [⟨1, 20, [20, 21, 22]⟩]).2 = [.inProgress] := by decide
    intro d hd
    cases mem_singleton.mp hd
  exact ⟨_, _, by decide, rfl, hnot, hall.1 hnot, rfl, (hall.2 _ _ rfl).2.2 _ rfl⟩

/-- One fragment that is the whole datagram: it is built at once, and `q.meat` keeps
its value although no fragment is queued any more. -/
theorem meat_after_reassembly :
    (run [⟨0, 20, [1, 2, 3, 4]⟩]).1.fragments = [] ∧ (run [⟨0, 20, [1, 2, 3, 4]⟩]).1.meat = 4 := by
  decide

end LteModemKernel.IpFragment
