import Mathlib

/-!
# Doubly linked lists in a heap

A heap maps the addresses in use to cells with a datum, a successor and a
predecessor.  A *chain* is a list of addresses whose cells point at each other in
order; it is described between the cell in front of it and the cell behind it, so
that chains can be cut and joined.

Main results:

- Theorem `chain_append`: a chain is cut at any of its cells.
- Theorems `Chain.remove` and `Chain.insert`: two pointer writes take a cell
  out of a chain, and two put one in.
- Theorem `Chain.seek_eq`: the walk to the first cell that is not before a place
  stops at the cut of the chain there.
- Theorem `Sorted.insert`: a cell put in at that cut leaves the chain sorted.
-/

namespace LteModemKernel.Lib

open List Option

/-- A cell of a doubly linked list. -/
structure Cell (Ptr α : Type*) where
  data : α
  next : Option Ptr
  prev : Option Ptr
  deriving DecidableEq

/-- A heap: the cells at the addresses in use. -/
abbrev Heap (Ptr α : Type*) := Ptr → Option (Cell Ptr α)

variable {Ptr α κ : Type*} {h h' : Heap Ptr α} {xs ys : List Ptr} {before after : Option Ptr}
  {x : Ptr} {fuel : Nat}

/-! ## Chains -/

/-- The cells of `xs` are linked in order, behind the cell `before` and in
front of the cell `after`. -/
def Chain (h : Heap Ptr α) : Option Ptr → List Ptr → Option Ptr → Prop
  | _, [], _ => True
  | before, x :: xs, after =>
    ∃ c, h x = some c ∧ c.prev = before ∧ c.next = xs.head?.or after ∧ Chain h (some x) xs after

theorem Chain.congr (hchain : Chain h before xs after) (heq : ∀ x ∈ xs, h' x = h x) :
    Chain h' before xs after := by
  induction xs generalizing before with
  | nil => trivial
  | cons x xs ih =>
    rcases hchain with ⟨c, hc, hprev, hnext, hrest⟩
    refine ⟨c, ?_, hprev, hnext, ih hrest fun y hy => heq y (mem_cons_of_mem x hy)⟩
    rw [heq x mem_cons_self, hc]

/-- Every address of a chain is in use. -/
theorem Chain.exists_cell (hchain : Chain h before xs after) (hx : x ∈ xs) : ∃ c, h x = some c := by
  induction xs generalizing before with
  | nil => cases hx
  | cons y xs ih =>
    rcases hchain with ⟨c, hc, _, _, hrest⟩
    rcases mem_cons.mp hx with rfl | hx
    · exact ⟨c, hc⟩
    · exact ih hrest hx

/-- A chain is cut into a chain in front of the cut and one behind it. -/
theorem chain_append :
    Chain h before (xs ++ ys) after ↔
      Chain h before xs (ys.head?.or after) ∧ Chain h (xs.getLast?.or before) ys after := by
  induction xs generalizing before with
  | nil => simp [Chain]
  | cons x xs ih =>
    have hhead : (xs ++ ys).head?.or after = xs.head?.or (ys.head?.or after) := by
      cases xs <;> simp
    have hlast : (x :: xs).getLast?.or before = xs.getLast?.or (some x) := by
      cases hxs : xs.getLast? with
      | none => simp [getLast?_eq_none_iff.mp hxs]
      | some y => simp [getLast?_cons, hxs]
    simp only [cons_append, Chain, hhead, hlast, ih]
    constructor
    · rintro ⟨c, hc, hprev, hnext, hxs, hys⟩
      exact ⟨⟨c, hc, hprev, hnext, hxs⟩, hys⟩
    · rintro ⟨⟨c, hc, hprev, hnext, hxs⟩, hys⟩
      exact ⟨c, hc, hprev, hnext, hxs, hys⟩

theorem Chain.cell (hchain : Chain h none (xs ++ x :: ys) none) :
    ∃ c, h x = some c ∧ c.prev = xs.getLast? ∧ c.next = ys.head? := by
  rcases (chain_append.mp hchain).2 with ⟨c, hc, hprev, hnext, _⟩
  exact ⟨c, hc, by simpa using hprev, by simpa using hnext⟩

/-! ## Pointer writes -/

section Writes

variable [DecidableEq Ptr] {target : Option Ptr}

/-- Write the successor of the cell at an address, if the address is not null. -/
def linkNext (h : Heap Ptr α) (target next : Option Ptr) : Heap Ptr α :=
  match target with
  | none => h
  | some q => Function.update h q ((h q).map fun c => { c with next := next })

/-- Write the predecessor of the cell at an address, if the address is not null. -/
def linkPrev (h : Heap Ptr α) (target prev : Option Ptr) : Heap Ptr α :=
  match target with
  | none => h
  | some p => Function.update h p ((h p).map fun c => { c with prev := prev })

theorem linkNext_of_ne {next : Option Ptr} (hx : target ≠ some x) :
    linkNext h target next x = h x := by
  cases target with
  | none => rfl
  | some q => exact Function.update_of_ne (fun heq => hx (congrArg some heq.symm)) _ _

theorem linkPrev_of_ne {prev : Option Ptr} (hx : target ≠ some x) :
    linkPrev h target prev x = h x := by
  cases target with
  | none => rfl
  | some q => exact Function.update_of_ne (fun heq => hx (congrArg some heq.symm)) _ _

/-- Writing the successor of its last cell turns a chain towards another cell. -/
theorem Chain.linkNext (hchain : Chain h before xs after) (hnodup : xs.Nodup) (next : Option Ptr) :
    Chain (linkNext h xs.getLast? next) before xs next := by
  rcases eq_nil_or_concat xs with rfl | ⟨init, q, rfl⟩
  · trivial
  · rw [concat_eq_append] at hchain hnodup ⊢
    rw [chain_append] at hchain ⊢
    rcases hchain with ⟨hinit, c, hc, hprev, _, _⟩
    have hq : q ∉ init := by
      intro hmem
      exact (nodup_append.mp hnodup).2.2 q hmem q (mem_singleton_self q) rfl
    have hlast : (init ++ [q]).getLast? = some q := by simp
    rw [hlast]
    refine ⟨hinit.congr fun x hx => linkNext_of_ne ?_, { c with next := next }, ?_, hprev, ?_,
      trivial⟩
    · rintro ⟨⟩
      exact hq hx
    · simp [linkNext, hc]
    · simp

/-- Writing the predecessor of its first cell puts a chain behind another cell. -/
theorem Chain.linkPrev (hchain : Chain h before xs after) (hnodup : xs.Nodup) (prev : Option Ptr) :
    Chain (linkPrev h xs.head? prev) prev xs after := by
  cases xs with
  | nil => trivial
  | cons p xs =>
    rcases hchain with ⟨c, hc, _, hnext, hrest⟩
    refine ⟨{ c with prev := prev }, ?_, rfl, hnext, ?_⟩
    · simp [linkPrev, hc]
    · apply hrest.congr
      intro x hx
      apply linkPrev_of_ne
      rintro ⟨⟩
      exact (nodup_cons.mp hnodup).1 hx

/-- Two chains are turned towards other cells where one ends and the other starts. -/
theorem Chain.relink {mid mid' after' : Option Ptr} (hfront : Chain h before xs mid)
    (hback : Chain h mid' ys after') (hnodup : (xs ++ ys).Nodup) (next prev : Option Ptr) :
    Chain (Lib.linkPrev (Lib.linkNext h xs.getLast? next) ys.head? prev) before xs next ∧
      Chain (Lib.linkPrev (Lib.linkNext h xs.getLast? next) ys.head? prev) prev ys after' := by
  rcases nodup_append.mp hnodup with ⟨hxs, hys, hdisjoint⟩
  constructor
  · apply (hfront.linkNext hxs next).congr
    intro y hy
    apply linkPrev_of_ne
    intro heq
    exact hdisjoint y hy y (mem_of_mem_head? heq) rfl
  · refine Chain.linkPrev (hback.congr ?_) hys prev
    intro y hy
    apply linkNext_of_ne
    intro heq
    exact hdisjoint y (mem_of_getLast? heq) y hy rfl

/-- Joining the two sides of a cell takes it out of the chain. -/
theorem Chain.remove (hchain : Chain h none (xs ++ x :: ys) none) (hnodup : (xs ++ x :: ys).Nodup) :
    Chain (Lib.linkPrev (Lib.linkNext h xs.getLast? ys.head?) ys.head? xs.getLast?) none
      (xs ++ ys) none := by
  rcases chain_append.mp hchain with ⟨hfront, _, _, _, _, hback⟩
  rw [chain_append, or_none, or_none]
  exact hfront.relink hback (hnodup.sublist (sublist_cons_self x ys |>.append_left xs)) _ _

/-- A cell whose pointers lead to the two sides of a cut enters the chain when the
two sides are linked to it. -/
theorem Chain.insert {c : Cell Ptr α} (hchain : Chain h none (xs ++ ys) none)
    (hnodup : (xs ++ ys).Nodup) (hx : x ∉ xs ++ ys) (hc : h x = some c)
    (hprev : c.prev = xs.getLast?) (hnext : c.next = ys.head?) :
    Chain (Lib.linkPrev (Lib.linkNext h xs.getLast? (some x)) ys.head? (some x)) none
      (xs ++ x :: ys) none := by
  rcases chain_append.mp hchain with ⟨hfront, hback⟩
  rcases hfront.relink hback hnodup (some x) (some x) with ⟨hfront', hback'⟩
  rw [mem_append, not_or] at hx
  have hlast : xs.getLast? ≠ some x := fun heq => hx.1 (mem_of_getLast? heq)
  have hhead : ys.head? ≠ some x := fun heq => hx.2 (mem_of_mem_head? heq)
  rw [chain_append]
  refine ⟨hfront', c, ?_, ?_, ?_, hback'⟩
  · rw [linkPrev_of_ne hhead, linkNext_of_ne hlast, hc]
  · rw [or_none, hprev]
  · rw [or_none, hnext]

end Writes

/-! ## Walks -/

/-- The addresses met by following the successors of at most `fuel` cells. -/
def nodesFrom (h : Heap Ptr α) : Nat → Option Ptr → List Ptr
  | 0, _ => []
  | _ + 1, none => []
  | fuel + 1, some p => p :: nodesFrom h fuel ((h p).bind Cell.next)

/-- Following the successors from the head of a chain meets exactly its cells. -/
theorem Chain.nodesFrom_eq (hchain : Chain h before xs none) (hfuel : xs.length ≤ fuel) :
    nodesFrom h fuel xs.head? = xs := by
  induction xs generalizing before fuel with
  | nil => cases fuel <;> rfl
  | cons x xs ih =>
    rcases hchain with ⟨c, hc, _, hnext, hrest⟩
    cases fuel with
    | zero => simp at hfuel
    | succ fuel =>
      have hlen : xs.length ≤ fuel := by simpa using hfuel
      rw [or_none] at hnext
      simp only [head?_cons, nodesFrom, hc, bind_some, hnext]
      rw [ih hrest hlen]

/-- Walk from the cell `p`, behind the cell `q`, while the data satisfy
`go`.  The result is the last cell passed and the cell the walk stops at; there
is none if the walk reads an address that is not in use or does not end. -/
def seek (h : Heap Ptr α) (go : α → Bool) :
    Nat → Option Ptr → Option Ptr → Option (Option Ptr × Option Ptr)
  | _, q, none => some (q, none)
  | 0, _, some _ => none
  | fuel + 1, q, some p =>
    match h p with
    | none => none
    | some c => if go c.data then seek h go fuel (some p) c.next else some (q, some p)

/-- The datum at an address. -/
def dataAt (h : Heap Ptr α) (x : Ptr) : Option α :=
  (h x).map Cell.data

/-- The walk through a chain stops at the first cell whose datum fails the test. -/
theorem Chain.seek_eq {go : α → Bool} (hchain : Chain h before xs none) (hfuel : xs.length ≤ fuel)
    (q : Option Ptr) :
    seek h go fuel q xs.head? =
      some ((xs.takeWhile fun x => (dataAt h x).any go).getLast?.or q,
        (xs.dropWhile fun x => (dataAt h x).any go).head?) := by
  induction xs generalizing before fuel q with
  | nil => cases fuel <;> simp [seek]
  | cons x xs ih =>
    rcases hchain with ⟨c, hc, _, hnext, hrest⟩
    rw [or_none] at hnext
    cases fuel with
    | zero => simp at hfuel
    | succ fuel =>
      have hlen : xs.length ≤ fuel := by simpa using hfuel
      have hdata : dataAt h x = some c.data := by simp [dataAt, hc]
      cases hgo : go c.data with
      | false => simp [seek, hc, hgo, hdata]
      | true =>
        have hstep := ih hrest hlen (some x)
        simp only [head?_cons, seek, hc, hgo, if_true, hnext, hstep]
        cases hlast : (xs.takeWhile fun x => (dataAt h x).any go).getLast? with
        | none =>
          simp [hdata, hgo, getLast?_eq_none_iff.mp hlast]
        | some y => simp [hdata, hgo, getLast?_cons, hlast]

/-! ## Sorted chains -/

section Sorted

variable [LinearOrder κ] {key : α → κ}

/-- The keys of the cells do not decrease along the list. -/
def Sorted (key : α → κ) (h : Heap Ptr α) (xs : List Ptr) : Prop :=
  xs.Pairwise fun x y => ∀ a b, dataAt h x = some a → dataAt h y = some b → key a ≤ key b

theorem Sorted.congr (hsorted : Sorted key h xs) (heq : ∀ x ∈ xs, dataAt h' x = dataAt h x) :
    Sorted key h' xs := by
  apply Pairwise.imp_of_mem _ hsorted
  intro x y hx hy hle a b ha hb
  rw [heq x hx] at ha
  rw [heq y hy] at hb
  exact hle a b ha hb

theorem Sorted.congr_heap (hsorted : Sorted key h xs) (heq : ∀ x ∈ xs, h' x = h x) :
    Sorted key h' xs :=
  hsorted.congr fun x hx => congrArg (Option.map Cell.data) (heq x hx)

/-- A cell of key `key a` put in front of the first cell whose key is not smaller
leaves the list sorted. -/
theorem Sorted.insert {a : α} (hsorted : Sorted key h xs) (ha : dataAt h x = some a)
    (hdata : ∀ y ∈ xs, ∃ b, dataAt h y = some b) :
    Sorted key h
      ((xs.takeWhile fun y => (dataAt h y).any fun b => decide (key b < key a)) ++
        x :: xs.dropWhile fun y => (dataAt h y).any fun b => decide (key b < key a)) := by
  induction xs with
  | nil => simp [Sorted]
  | cons y xs ih =>
    rcases hdata y mem_cons_self with ⟨b, hb⟩
    rcases pairwise_cons.mp hsorted with ⟨hy, hxs⟩
    by_cases hlt : key b < key a
    · have hrest := ih hxs fun z hz => hdata z (mem_cons_of_mem y hz)
      simp only [takeWhile_cons, dropWhile_cons, hb, any_some, hlt,
        decide_true, if_true, cons_append]
      refine pairwise_cons.mpr ⟨?_, hrest⟩
      intro z hz b' c hb' hc
      cases hb.symm.trans hb'
      rw [mem_append, mem_cons] at hz
      rcases hz with hz | rfl | hz
      · exact hy z ((takeWhile_sublist _).subset hz) b c hb hc
      · cases ha.symm.trans hc
        exact le_of_lt hlt
      · exact hy z ((dropWhile_sublist _).subset hz) b c hb hc
    · simp only [takeWhile_cons, dropWhile_cons, hb, any_some, hlt,
        decide_false, Bool.false_eq_true, if_false, nil_append]
      refine pairwise_cons.mpr ⟨?_, hsorted⟩
      intro z hz a' c ha' hc
      cases ha.symm.trans ha'
      have hab : key a ≤ key b := le_of_not_gt hlt
      rcases mem_cons.mp hz with rfl | hz
      · cases hb.symm.trans hc
        exact hab
      · exact le_trans hab (hy z hz b c hb hc)

end Sorted

section Data

variable [DecidableEq Ptr]

@[simp]
theorem dataAt_linkNext (h : Heap Ptr α) (target next : Option Ptr) (x : Ptr) :
    dataAt (linkNext h target next) x = dataAt h x := by
  cases target with
  | none => rfl
  | some q => by_cases hx : x = q <;> simp [dataAt, linkNext, Function.comp_def, hx]

@[simp]
theorem dataAt_linkPrev (h : Heap Ptr α) (target prev : Option Ptr) (x : Ptr) :
    dataAt (linkPrev h target prev) x = dataAt h x := by
  cases target with
  | none => rfl
  | some q => by_cases hx : x = q <;> simp [dataAt, linkPrev, Function.comp_def, hx]

end Data

end LteModemKernel.Lib
