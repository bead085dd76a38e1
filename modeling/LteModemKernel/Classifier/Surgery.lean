import LteModemKernel.Classifier.Model

/-!
# Pointer surgery on the classifier table

The invariant of one PDN: its entries form a sorted doubly linked list, and every
entry sits in exactly one slot of a live bearer.  While a filter is replaced or moved
it is detached: it still sits in its slot but is not linked.  The lemmas of this
module say what the pointer operations of the source do to linked and detached
entries.

Main results:

- Theorem `Linked.unlink`: unlinking detaches an entry.
- Theorem `Linked.linkBetween`: linking a detached entry in at the place of its
  precedence.
- Theorems `Linked.grow` and `Linked.drop`: allocated entries enter, and freed
  ones leave, with their slots.
-/

namespace LteModemKernel.Classifier

open Lib List Option PdnClassifier Nat Mem Function

variable {m m' : Mem} {c : Entry} {x y : Ptr} {t : Table} {l r ps out : List Ptr} {b : Bearer}
  {j : Fin maxFiltersPerTft}

/-! ## Slots -/

namespace PdnClassifier

/-- The bearers in use: the default one and the dedicated ones that are counted. -/
def Live (pdn : PdnClassifier) : Bearer → Prop
  | .default => True
  | .dedicated k => k.val < pdn.numDedicatedBearers

instance (pdn : PdnClassifier) : DecidablePred pdn.Live
  | .default => instDecidableTrue
  | .dedicated k => inferInstanceAs (Decidable (k.val < pdn.numDedicatedBearers))

theorem tft_setTft (pdn : PdnClassifier) (b b' : Bearer) (tft : Tft) :
    (pdn.setTft b tft).tft b' = if b' = b then tft else pdn.tft b' := by
  cases b <;> cases b' <;> simp [PdnClassifier.tft, setTft, update_apply]

theorem slot_setSlot (pdn : PdnClassifier) (b b' : Bearer) (j j' : Fin maxFiltersPerTft)
    (v : Option Ptr) (n : UInt8) :
    (pdn.setSlot b j v n).slot b' j' = if b' = b ∧ j' = j then v else pdn.slot b' j' := by
  by_cases hb : b' = b
  · subst hb
    simp [slot, setSlot, tft_setTft, update_apply]
  · simp [slot, setSlot, tft_setTft, hb]

@[simp]
theorem numDedicatedBearers_setTft (pdn : PdnClassifier) (b : Bearer) (tft : Tft) :
    (pdn.setTft b tft).numDedicatedBearers = pdn.numDedicatedBearers := by
  cases b <;> rfl

@[simp]
theorem classifierTable_setTft (pdn : PdnClassifier) (b : Bearer) (tft : Tft) :
    (pdn.setTft b tft).classifierTable = pdn.classifierTable := by
  cases b <;> rfl

@[simp]
theorem numDedicatedBearers_setSlot (pdn : PdnClassifier) (b : Bearer)
    (j : Fin maxFiltersPerTft) (v : Option Ptr) (n : UInt8) :
    (pdn.setSlot b j v n).numDedicatedBearers = pdn.numDedicatedBearers :=
  pdn.numDedicatedBearers_setTft b _

@[simp]
theorem classifierTable_setSlot (pdn : PdnClassifier) (b : Bearer) (j : Fin maxFiltersPerTft)
    (v : Option Ptr) (n : UInt8) : (pdn.setSlot b j v n).classifierTable = pdn.classifierTable :=
  pdn.classifierTable_setTft b _

theorem live_congr {pdn pdn' : PdnClassifier}
    (hnum : pdn'.numDedicatedBearers = pdn.numDedicatedBearers) (b : Bearer) :
    pdn'.Live b ↔ pdn.Live b := by
  cases b with
  | default => exact .rfl
  | dedicated k => simp [Live, hnum]

end PdnClassifier

/-- The entries `xs` are exactly those in the slots of the live bearers, each in
one slot. -/
structure Held (pdn : PdnClassifier) (xs : List Ptr) : Prop where
  mem_iff : ∀ x, x ∈ xs ↔ ∃ b j, pdn.Live b ∧ pdn.slot b j = some x
  once : ∀ b j b' j' x, pdn.Live b → pdn.Live b' → pdn.slot b j = some x →
    pdn.slot b' j' = some x → b = b' ∧ j = j'

namespace Held

variable {pdn pdn' : PdnClassifier} {xs ys : List Ptr}

/-- Only the entries in the slots of the live bearers matter. -/
theorem of_iff (h : Held pdn xs)
    (hiff : ∀ b j x,
      (pdn'.Live b ∧ pdn'.slot b j = some x) ↔ (pdn.Live b ∧ pdn.slot b j = some x)) :
    Held pdn' xs := by
  constructor
  · intro x
    simp [h.mem_iff, hiff]
  · intro b j b' j' x hb hb' hx hx'
    have h₁ := (hiff b j x).mp ⟨hb, hx⟩
    have h₂ := (hiff b' j' x).mp ⟨hb', hx'⟩
    exact h.once b j b' j' x h₁.1 h₂.1 h₁.2 h₂.2

theorem congr (h : Held pdn xs) (hlive : ∀ b, pdn'.Live b ↔ pdn.Live b)
    (hslot : ∀ b j, pdn'.slot b j = pdn.slot b j) : Held pdn' xs :=
  h.of_iff fun b j x => by rw [hlive, hslot]

theorem mem (h : Held pdn xs) (hb : pdn.Live b) (hx : pdn.slot b j = some x) : x ∈ xs :=
  (h.mem_iff x).mpr ⟨b, j, hb, hx⟩

/-- A slot of a live bearer is set: its entry is given up, and a new one is taken in. -/
theorem setSlot (h : Held pdn xs) (n : UInt8) {v : Option Ptr} (hb : pdn.Live b)
    (hv : ∀ x ∈ v, x ∉ xs) (hys : ∀ y, y ∈ ys ↔ v = some y ∨ y ∈ xs ∧ pdn.slot b j ≠ some y) :
    Held (pdn.setSlot b j v n) ys := by
  have hlive := live_congr (pdn.numDedicatedBearers_setSlot b j v n)
  constructor
  · intro y
    rw [hys, h.mem_iff]
    constructor
    · rintro (rfl | ⟨⟨b', j', hb', hy⟩, hne⟩)
      · exact ⟨b, j, (hlive b).mpr hb, by rw [slot_setSlot, if_pos ⟨rfl, rfl⟩]⟩
      · refine ⟨b', j', (hlive b').mpr hb', ?_⟩
        rw [slot_setSlot, if_neg, hy]
        rintro ⟨rfl, rfl⟩
        exact hne hy
    · rintro ⟨b', j', hb', hy⟩
      rw [hlive] at hb'
      rw [slot_setSlot] at hy
      split_ifs at hy with hsame
      · exact .inl hy
      · exact .inr ⟨⟨b', j', hb', hy⟩, fun hx => hsame (h.once b' j' b j y hb' hb hy hx)⟩
  · intro b₁ j₁ b₂ j₂ y h₁ h₂ hy₁ hy₂
    rw [hlive] at h₁ h₂
    rw [slot_setSlot] at hy₁ hy₂
    split_ifs at hy₁ hy₂ with hs₁ hs₂ hs₂
    · exact ⟨hs₁.1.trans hs₂.1.symm, hs₁.2.trans hs₂.2.symm⟩
    · exact absurd (h.mem h₂ hy₂) (hv y hy₁)
    · exact absurd (h.mem h₁ hy₁) (hv y hy₂)
    · exact h.once b₁ j₁ b₂ j₂ y h₁ h₂ hy₁ hy₂

end Held

/-! ## The invariant of one PDN -/

/-- The precedence by which the list is sorted. -/
abbrev precedence (f : PacketFilter) : Nat :=
  f.packetFilterPrecedence.toNat

/-- The entries `ps` are linked, in this order, in the list of a PDN, the entries
`out` are detached, and together they are what the slots hold. -/
structure Linked (t : Table) (ps out : List Ptr) : Prop where
  chain : Chain t.mem.heap none ps none
  head : t.pdn.classifierTable = ps.head?
  sorted : Sorted precedence t.mem.heap ps
  nodup : (ps ++ out).Nodup
  detached : ∀ x ∈ out, ∃ c, t.mem.heap x = some c
  held : Held t.pdn (ps ++ out)
  fresh : ∀ y, t.mem.brk ≤ y → t.mem.heap y = none

/-- What an operation on the entries `xs` may do to the memory: it leaves all other
entries alone, and works on `xs` and on fresh entries afterwards. -/
structure Keeps (m : Mem) (xs : List Ptr) (m' : Mem) (xs' : List Ptr) : Prop where
  brk_le : m.brk ≤ m'.brk
  frame : ∀ y, y ∉ xs → y < m.brk → m'.heap y = m.heap y
  mem : ∀ y ∈ xs', y ∈ xs ∨ m.brk ≤ y

namespace Keeps

theorem refl (m : Mem) (xs : List Ptr) : Keeps m xs m xs :=
  ⟨le_refl _, fun _ _ _ => rfl, fun _ hy => .inl hy⟩

variable {xs xs' : List Ptr}

theorem trans {m'' : Mem} {xs'' : List Ptr} (h : Keeps m xs m' xs') (h' : Keeps m' xs' m'' xs'') :
    Keeps m xs m'' xs'' := by
  constructor
  · exact le_trans h.brk_le h'.brk_le
  · intro y hy hlt
    have hy' : y ∉ xs' := by
      intro hmem
      rcases h.mem y hmem with hin | hge
      · exact hy hin
      · exact not_lt.mpr hge hlt
    rw [h'.frame y hy' (lt_of_lt_of_le hlt h.brk_le), h.frame y hy hlt]
  · intro y hy
    rcases h'.mem y hy with hin | hge
    · exact h.mem y hin
    · exact .inr (le_trans h.brk_le hge)

theorem of_frame (hbrk : m'.brk = m.brk) (hframe : ∀ y, y ∉ xs → m'.heap y = m.heap y)
    (hmem : ∀ y ∈ xs', y ∈ xs) : Keeps m xs m' xs' :=
  ⟨le_of_eq hbrk.symm, fun y hy _ => hframe y hy, fun y hy => .inl (hmem y hy)⟩

end Keeps

namespace Linked

variable (h : Linked t ps out) {out' : List Ptr}
include h

theorem exists_cell (hx : x ∈ ps ++ out) : ∃ c, t.mem.heap x = some c := by
  rcases mem_append.mp hx with hx | hx
  · exact h.chain.exists_cell hx
  · exact h.detached x hx

theorem lt_brk (hx : x ∈ ps ++ out) : x < t.mem.brk := by
  by_contra hge
  rcases h.exists_cell hx with ⟨c, hc⟩
  rw [h.fresh x (Nat.le_of_not_lt hge)] at hc
  cases hc

theorem length_le : ps.length ≤ t.mem.brk := by
  have hnodup : ps.Nodup := (nodup_append.mp h.nodup).1
  have hsub : ps ⊆ .range t.mem.brk := by
    intro x hx
    exact mem_range.mpr (h.lt_brk (mem_append_left out hx))
  have hlen := (subperm_of_subset hnodup hsub).length_le
  rwa [length_range] at hlen

/-- The entries are linked otherwise, with their data kept. -/
theorem rearrange {t' : Table} {ps' : List Ptr} (hperm : (ps ++ out).Perm (ps' ++ out'))
    (hchain : Chain t'.mem.heap none ps' none) (hhead : t'.pdn.classifierTable = ps'.head?)
    (hsorted : Sorted precedence t.mem.heap ps') (hheld : Held t'.pdn (ps ++ out))
    (hbrk : t'.mem.brk = t.mem.brk) (hdata : ∀ y, dataAt t'.mem.heap y = dataAt t.mem.heap y) :
    Linked t' ps' out' := by
  have hcell (y) : t'.mem.heap y = none ↔ t.mem.heap y = none := by
    simpa only [dataAt, map_eq_none_iff] using (hdata y).congr_left (z := none)
  refine ⟨hchain, hhead, hsorted.congr fun y _ => hdata y, hperm.nodup_iff.mp h.nodup, ?_,
    ⟨fun y => ?_, hheld.once⟩, fun y hy => (hcell y).mpr (h.fresh y (hbrk ▸ hy))⟩
  · intro y hy
    have hold := h.exists_cell (hperm.mem_iff.mpr (mem_append_right ps' hy))
    rw [← ne_none_iff_exists'] at hold ⊢
    exact (hcell y).not.mpr hold
  · rw [← hperm.mem_iff, hheld.mem_iff]

/-- The order in which detached entries are listed does not matter. -/
theorem perm (hperm : out.Perm out') : Linked t ps out' :=
  h.rearrange (hperm.append_left ps) h.chain h.head h.sorted h.held rfl fun _ => rfl

/-- A write to a detached entry. -/
theorem write (hx : x ∈ out) (hbrk : m'.brk = t.mem.brk) (hcell : m'.heap x = some c)
    (hframe : ∀ y, y ≠ x → m'.heap y = t.mem.heap y) : Linked { t with mem := m' } ps out := by
  have hps (y) (hy : y ∈ ps) : m'.heap y = t.mem.heap y := by
    apply hframe
    rintro rfl
    exact (nodup_append.mp h.nodup).2.2 y hy y hx rfl
  refine ⟨h.chain.congr hps, h.head, h.sorted.congr_heap hps, h.nodup, ?_, h.held, ?_⟩
  · intro y hy
    by_cases hyx : y = x
    · subst hyx
      exact ⟨c, hcell⟩
    · rw [hframe y hyx]
      exact h.detached y hy
  · intro y hy
    have hlt := h.lt_brk (mem_append_right ps hx)
    rw [hbrk] at hy
    rw [hframe y (ne_of_gt (lt_of_lt_of_le hlt hy))]
    exact h.fresh y hy

end Linked

/-! ## Unlinking -/

theorem Mem.setNext_of_cell {q : Ptr} (hq : m.heap q = some c) (v : Option Ptr) :
    m.setNext (some q) v = some { m with heap := linkNext m.heap (some q) v } := by
  simp [setNext, hq]

theorem Mem.setPrev_of_cell {p : Ptr} (hp : m.heap p = some c) (v : Option Ptr) :
    m.setPrev (some p) v = some { m with heap := linkPrev m.heap (some p) v } := by
  simp [setPrev, hp]

/-- A PDN after the two sides of a cut have been joined. -/
def Table.join (t : Table) (l r : List Ptr) : Table :=
  ⟨{ t.mem with
      heap := linkPrev (linkNext t.mem.heap l.getLast? r.head?) r.head? l.getLast? },
    { t.pdn with classifierTable := (l ++ r).head? }⟩

namespace Linked

/-- Unlinking an entry joins the two sides of it.  Without the check for null this
needs another entry in the list. -/
theorem unlink_eq (h : Linked t (l ++ x :: r) out) {checked : Bool}
    (hother : checked = true ∨ l ++ r ≠ []) : unlink checked t x = some (t.join l r) := by
  rcases h.chain.cell with ⟨c, hc, hprev, hnext⟩
  have hmem : ∀ y ∈ l ++ x :: r, ∃ d, t.mem.heap y = some d := fun y hy => h.chain.exists_cell hy
  rcases eq_nil_or_concat l with rfl | ⟨init, q, rfl⟩
  · -- the entry is the head
    have hhead : t.pdn.classifierTable = some x := h.head
    cases r with
    | nil =>
      have hchecked : checked = true := by simpa using hother
      simp [unlink, hc, hhead, hnext, hchecked, Table.setHead, Table.join, linkNext, linkPrev]
    | cons p r =>
      rcases hmem p (by simp) with ⟨d, hd⟩
      simp [unlink, hc, hhead, hnext, setPrev_of_cell hd, Table.setHead, Table.join, linkNext]
  · rw [concat_eq_append] at h hprev hmem ⊢
    rcases hmem q (by simp) with ⟨d, hd⟩
    have hlast : (init ++ [q]).getLast? = some q := by simp
    have hsame : (init ++ [q] ++ x :: r).head? = (init ++ [q] ++ r).head? := by
      cases init <;> simp
    have hnothead : t.pdn.classifierTable ≠ some x := by
      rw [h.head]
      have hdisjoint := (nodup_append.mp (nodup_append.mp h.nodup).1).2.2
      intro heq
      have hx : x ∈ init ++ [q] := by
        cases init with
        | nil => simpa using heq.symm
        | cons y init => simpa using Or.inl heq.symm
      exact hdisjoint x hx x (by simp) rfl
    have hkeep : { t.pdn with classifierTable := (init ++ [q] ++ r).head? } = t.pdn := by
      rw [← hsame, ← h.head]
    rw [hlast] at hprev
    cases r with
    | nil =>
      simp only [unlink, hc, hnothead, hnext, hprev, bind_eq_bind, bind_some, if_false, if_true,
        setNext_of_cell hd, Table.join, hkeep, hlast, head?_nil, linkPrev]
    | cons p r =>
      rcases hmem p (by simp) with ⟨e, he⟩
      have hpq : p ≠ q := by
        rintro rfl
        have hdisjoint := (nodup_append.mp (nodup_append.mp h.nodup).1).2.2
        exact hdisjoint p (by simp) p (by simp) rfl
      have he' : linkNext t.mem.heap (some q) (some p) p = some e := by
        rw [linkNext_of_ne (by simpa using hpq.symm), he]
      simp only [unlink, hc, hnothead, hnext, hprev, bind_eq_bind, bind_some, if_false,
        reduceCtorEq, setNext_of_cell hd, Table.join, hkeep, hlast, head?_cons]
      rw [setPrev_of_cell he']
      rfl

theorem join_frame (hl : y ∉ l) (hr : y ∉ r) : (t.join l r).mem.heap y = t.mem.heap y := by
  have hlast : l.getLast? ≠ some y := fun heq => hl (mem_of_getLast? heq)
  have hhead : r.head? ≠ some y := fun heq => hr (mem_of_mem_head? heq)
  simp only [Table.join]
  rw [linkPrev_of_ne hhead, linkNext_of_ne hlast]

@[simp]
theorem dataAt_join (y : Ptr) : dataAt (t.join l r).mem.heap y = dataAt t.mem.heap y := by
  simp [Table.join]

/-- The entries of a list with a cut, when one entry is taken out of it. -/
theorem perm_cut (l r out : List Ptr) (x : Ptr) :
    (l ++ x :: r ++ out).Perm (l ++ r ++ x :: out) := by
  rw [append_assoc, append_assoc]
  exact .append_left l perm_middle.symm

/-- Joining the two sides of an entry detaches it. -/
theorem unlink (h : Linked t (l ++ x :: r) out) : Linked (t.join l r) (l ++ r) (x :: out) := by
  have hnodup : (l ++ x :: r).Nodup := (nodup_append.mp h.nodup).1
  have hsub : (l ++ r).Sublist (l ++ x :: r) := .append_left (sublist_cons_self x r) l
  have hheld : Held (t.join l r).pdn (l ++ x :: r ++ out) := { h.held with }
  exact h.rearrange (perm_cut l r out x) (h.chain.remove hnodup) rfl (.sublist hsub h.sorted)
    hheld rfl dataAt_join

theorem unlink_keeps : Keeps t.mem (l ++ x :: r ++ out) (t.join l r).mem (l ++ r ++ x :: out) := by
  refine .of_frame rfl ?_ ?_
  · intro y hy
    simp only [mem_append, mem_cons, not_or] at hy
    exact join_frame hy.1.1 hy.1.2.2
  · intro y hy
    simp only [mem_append, mem_cons] at hy ⊢
    tauto

end Linked

/-! ## Linking -/

/-- The memory after the pointers of one entry have been written. -/
def Mem.aim (m : Mem) (x : Ptr) (q p : Option Ptr) : Mem :=
  { m with heap := linkPrev (linkNext m.heap (some x) p) (some x) q }

/-- A PDN after an entry has been put into a cut of the list. -/
def Table.insertAt (t : Table) (l : List Ptr) (x : Ptr) (r : List Ptr) : Table :=
  ⟨{ t.mem with
      heap :=
        linkPrev (linkNext (t.mem.aim x l.getLast? r.head?).heap l.getLast? (some x)) r.head?
          (some x) },
    { t.pdn with classifierTable := (l ++ x :: r).head? }⟩

theorem Mem.aim_heap_self (hx : m.heap x = some c)
    (q p : Option Ptr) : (m.aim x q p).heap x = some { c with next := p, prev := q } := by
  simp [aim, linkPrev, linkNext, hx]

theorem Mem.aim_heap_of_ne (hy : y ≠ x) (q p : Option Ptr) : (m.aim x q p).heap y = m.heap y := by
  have hxy : some x ≠ some y := fun heq => hy (some.inj heq).symm
  simp only [aim]
  rw [linkPrev_of_ne hxy, linkNext_of_ne hxy]

theorem Mem.setNext_setPrev (hx : m.heap x = some c) (q p : Option Ptr) :
    ((m.setNext (some x) p).bind fun m => m.setPrev (some x) q) = some (m.aim x q p) := by
  have hx' : linkNext m.heap (some x) p x = some { c with next := p } := by simp [linkNext, hx]
  rw [setNext_of_cell hx, bind_some, setPrev_of_cell hx']
  rfl

/-- The write to the entry in front, if there is one. -/
theorem Mem.setNextUnlessNull_eq {q : Option Ptr} (hq : ∀ y, q = some y → ∃ c, m.heap y = some c)
    (v : Option Ptr) : m.setNextUnlessNull q v = some { m with heap := linkNext m.heap q v } := by
  cases q with
  | none => rfl
  | some y =>
    rcases hq y rfl with ⟨c, hc⟩
    rw [setNextUnlessNull, if_neg (some_ne_none y), setNext_of_cell hc]

/-- The write to the entry behind, if there is one. -/
theorem Mem.setPrevUnlessNull_eq {p : Option Ptr} (hp : ∀ y, p = some y → ∃ c, m.heap y = some c)
    (v : Option Ptr) : m.setPrevUnlessNull p v = some { m with heap := linkPrev m.heap p v } := by
  cases p with
  | none => rfl
  | some y =>
    rcases hp y rfl with ⟨c, hc⟩
    rw [setPrevUnlessNull, if_neg (some_ne_none y), setPrev_of_cell hc]

namespace Linked

theorem not_mem (h : Linked t ps (x :: out)) : x ∉ ps := fun hx =>
  (nodup_append.mp h.nodup).2.2 x hx x mem_cons_self rfl

theorem linkBetween_eq (hchain : Chain t.mem.heap none (l ++ r) none)
    (hnodup : (l ++ r).Nodup) (hhead : t.pdn.classifierTable = (l ++ r).head?)
    (hx : x ∉ l ++ r) (hc : t.mem.heap x = some c) :
    linkBetween t x l.getLast? r.head? = some (t.insertAt l x r) := by
  have hcell (y) (hy : y ∈ l ++ r) : ∃ d, (t.mem.aim x l.getLast? r.head?).heap y = some d := by
    have hne : y ≠ x := by
      rintro rfl
      exact hx hy
    rw [aim_heap_of_ne hne]
    exact hchain.exists_cell hy
  have hfront : ∀ y, l.getLast? = some y →
      ∃ d, (t.mem.aim x l.getLast? r.head?).heap y = some d := fun y hy =>
    hcell y (mem_append_left r (mem_of_getLast? hy))
  have hback (y) (hy : r.head? = some y) : ∃ d, linkNext
      (t.mem.aim x l.getLast? r.head?).heap l.getLast? (some x) y = some d := by
    have hmem : y ∈ r := mem_of_mem_head? hy
    have hl : l.getLast? ≠ some y := fun heq =>
      (nodup_append.mp hnodup).2.2 y (mem_of_getLast? heq) y hmem rfl
    rw [linkNext_of_ne hl]
    exact hcell y (mem_append_right l hmem)
  have hself := setNext_setPrev hc l.getLast? r.head?
  simp only [linkBetween, bind_eq_bind]
  rw [← bind_assoc, hself, bind_some, setNextUnlessNull_eq hfront,
    bind_some, setPrevUnlessNull_eq hback, bind_some]
  cases l with
  | nil => rfl
  | cons y l =>
    have hkeep : { t.pdn with classifierTable := (y :: l ++ x :: r).head? } = t.pdn := by
      rw [show (y :: l ++ x :: r).head? = (y :: l ++ r).head? from rfl, ← hhead]
    simp only [Table.insertAt, hkeep]
    rfl

@[simp]
theorem dataAt_insertAt (y : Ptr) : dataAt (t.insertAt l x r).mem.heap y = dataAt t.mem.heap y := by
  simp [Table.insertAt, aim]

@[simp]
theorem tft_insertAt (b : Bearer) : (t.insertAt l x r).pdn.tft b = t.pdn.tft b := by
  cases b <;> rfl

theorem insertAt_frame (hl : y ∉ l) (hx : y ≠ x) (hr : y ∉ r) :
    (t.insertAt l x r).mem.heap y = t.mem.heap y := by
  have hlast : l.getLast? ≠ some y := fun heq => hl (mem_of_getLast? heq)
  have hhead : r.head? ≠ some y := fun heq => hr (mem_of_mem_head? heq)
  simp only [Table.insertAt]
  rw [linkPrev_of_ne hhead, linkNext_of_ne hlast, aim_heap_of_ne hx]

/-- A detached entry put into a cut where it keeps the order becomes a linked one. -/
theorem linkBetween (h : Linked t (l ++ r) (x :: out))
    (hsorted : Sorted precedence t.mem.heap (l ++ x :: r)) :
    Linked (t.insertAt l x r) (l ++ x :: r) out := by
  rcases h.detached x mem_cons_self with ⟨c, hc⟩
  have hx := h.not_mem
  have hnodup : (l ++ r).Nodup := (nodup_append.mp h.nodup).1
  have haim : Chain (t.mem.aim x l.getLast? r.head?).heap none (l ++ r) none := by
    apply h.chain.congr
    intro y hy
    apply aim_heap_of_ne
    rintro rfl
    exact hx hy
  have hheld : Held (t.insertAt l x r).pdn (l ++ r ++ x :: out) := { h.held with }
  exact h.rearrange (perm_cut l r out x).symm
    (haim.insert hnodup hx (aim_heap_self hc _ _) rfl rfl) rfl hsorted hheld rfl dataAt_insertAt

theorem linkBetween_keeps :
    Keeps t.mem (l ++ r ++ x :: out) (t.insertAt l x r).mem (l ++ x :: r ++ out) := by
  refine .of_frame rfl ?_ ?_
  · intro y hy
    simp only [mem_append, mem_cons, not_or] at hy
    exact insertAt_frame hy.1.1 hy.2.1 hy.1.2
  · intro y hy
    simp only [mem_append, mem_cons] at hy ⊢
    tauto

end Linked

/-! ## Allocation -/

/-- The memory after an entry for `filter` has been allocated. -/
def Mem.grow (m : Mem) (filter : PacketFilter) : Mem :=
  { m with
    heap := update m.heap m.brk (some ⟨filter, none, none⟩)
    brk := m.brk + 1
    free := m.free - 1 }

/-- The memory after an entry has been freed. -/
def Mem.drop (m : Mem) (x : Ptr) : Mem :=
  { m with heap := update m.heap x none, free := m.free + 1 }

/-- Allocating an entry and filling it. -/
theorem Mem.kmalloc_cases (m : Mem) :
    (m.free = 0 ∧ m.kmalloc = none) ∨
      (m.free ≠ 0 ∧ ∃ m', m.kmalloc = some (m.brk, m') ∧
        ∀ filter, m'.setFilter (some m.brk) filter = some (m.grow filter)) := by
  by_cases hfree : m.free = 0
  · exact .inl ⟨hfree, if_pos hfree⟩
  · refine .inr ⟨hfree, _, if_neg hfree, ?_⟩
    intro filter
    simp [setFilter, grow]

theorem Mem.kfree_eq (hx : m.heap x = some c) : m.kfree x = some (m.drop x) := by
  simp [kfree, hx, drop]

namespace Linked

/-- An allocated entry that gets a slot is detached. -/
theorem grow (h : Linked t ps out) (hb : t.pdn.Live b) (hempty : t.pdn.slot b j = none)
    (filter : PacketFilter) (n : UInt8) :
    Linked ⟨t.mem.grow filter, t.pdn.setSlot b j (some t.mem.brk) n⟩ ps (t.mem.brk :: out) := by
  have hnew : t.mem.brk ∉ ps ++ out := fun hmem => lt_irrefl _ (h.lt_brk hmem)
  have hframe : ∀ y, y ≠ t.mem.brk → (t.mem.grow filter).heap y = t.mem.heap y := fun y hy =>
    update_of_ne hy _ _
  have hps (y) (hy : y ∈ ps) : (t.mem.grow filter).heap y = t.mem.heap y := by
    apply hframe
    rintro rfl
    exact hnew (mem_append_left out hy)
  have hperm : (ps ++ t.mem.brk :: out).Perm (t.mem.brk :: (ps ++ out)) := perm_middle
  refine ⟨h.chain.congr hps, ?_, h.sorted.congr_heap hps, ?_, ?_, ?_, ?_⟩
  · rw [classifierTable_setSlot]
    exact h.head
  · rw [hperm.nodup_iff, nodup_cons]
    exact ⟨hnew, h.nodup⟩
  · intro y hy
    rcases mem_cons.mp hy with rfl | hy
    · exact ⟨_, update_self _ _ _⟩
    · rw [hframe]
      · exact h.detached y hy
      · rintro rfl
        exact hnew (mem_append_right ps hy)
  · apply h.held.setSlot n hb
    · rintro _ ⟨⟩
      exact hnew
    · simp [hperm.mem_iff, hempty, eq_comm]
  · intro y hy
    have hlt : t.mem.brk < y := hy
    rw [hframe y (ne_of_gt hlt)]
    exact h.fresh y (le_of_lt hlt)

theorem grow_keeps (filter : PacketFilter) :
    Keeps t.mem (ps ++ out) (t.mem.grow filter) (ps ++ t.mem.brk :: out) := by
  refine ⟨le_succ _, ?_, ?_⟩
  · intro y _ hlt
    exact update_of_ne (Nat.ne_of_lt hlt) _ _
  · intro y hy
    simp only [mem_append, mem_cons] at hy ⊢
    rcases hy with hy | rfl | hy
    · exact .inl (.inl hy)
    · exact .inr (le_refl _)
    · exact .inl (.inr hy)

/-- A detached entry leaves with its slot. -/
theorem drop (h : Linked t ps (x :: out)) (hb : t.pdn.Live b) (hx : t.pdn.slot b j = some x)
    (n : UInt8) : Linked ⟨t.mem.drop x, t.pdn.setSlot b j none n⟩ ps out := by
  have hperm : (ps ++ x :: out).Perm (x :: (ps ++ out)) := perm_middle
  have hnodup := hperm.nodup_iff.mp h.nodup
  rw [nodup_cons] at hnodup
  have hframe : ∀ y, y ≠ x → (t.mem.drop x).heap y = t.mem.heap y := fun y hy =>
    update_of_ne hy _ _
  have hne : ∀ y ∈ ps ++ out, y ≠ x := by
    rintro y hy rfl
    exact hnodup.1 hy
  have hps : ∀ y ∈ ps, (t.mem.drop x).heap y = t.mem.heap y := fun y hy =>
    hframe y (hne y (mem_append_left out hy))
  refine ⟨h.chain.congr hps, ?_, h.sorted.congr_heap hps, hnodup.2, ?_, ?_, ?_⟩
  · rw [classifierTable_setSlot]
    exact h.head
  · intro y hy
    rw [hframe y (hne y (mem_append_right ps hy))]
    exact h.detached y (mem_cons_of_mem x hy)
  · apply h.held.setSlot n hb (by rintro _ ⟨⟩)
    intro y
    simp only [hperm.mem_iff, mem_cons, hx]
    constructor
    · intro hy
      exact .inr ⟨.inr hy, fun hxy => hne y hy (some.inj hxy).symm⟩
    · rintro (hnone | ⟨rfl | hy, hyx⟩)
      · cases hnone
      · exact absurd rfl hyx
      · exact hy
  · intro y hy
    by_cases hyx : y = x
    · subst hyx
      exact update_self _ _ _
    · rw [hframe y hyx]
      exact h.fresh y hy

theorem drop_keeps : Keeps t.mem (ps ++ x :: out) (t.mem.drop x) (ps ++ out) := by
  refine .of_frame rfl ?_ ?_
  · intro y hy
    apply update_of_ne
    rintro rfl
    exact hy (by simp)
  · intro y hy
    simp only [mem_append, mem_cons] at hy ⊢
    tauto

end Linked

end LteModemKernel.Classifier
