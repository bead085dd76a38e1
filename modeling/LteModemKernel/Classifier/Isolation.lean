import LteModemKernel.Classifier.Surgery

/-!
# What a filter operation leaves alone

An operation on the filters of one bearer shares its list with all the other bearers of
the PDN.  A *move* is an operation that works on the entries of the list and on the
slots of one bearer only: it keeps the slots of the other bearers, the contents of
their filters and the order of these filters in the list.

Main results:

- Theorem `Moves.trans`: moves on one bearer compose.
- Theorems `Linked.unlink_moves`, `Linked.linkBetween_moves`,
  `Linked.grow_moves`, `Linked.drop_moves` and `Linked.write_moves`: the
  pointer operations are moves.
-/

namespace LteModemKernel.Classifier

open Lib List PdnClassifier

/-- The entries of `O` are old ones and none of them belongs to the bearer `b`. -/
structure Others (O : Ptr → Bool) (b : Bearer) (t : Table) : Prop where
  apart : ∀ j x, t.pdn.slot b j = some x → O x = false
  old : ∀ x, t.mem.brk ≤ x → O x = false

variable {b : Bearer} {t : Table} {j : Fin maxFiltersPerTft}

theorem Others.ne {O : Ptr → Bool} {x y : Ptr} (h : Others O b t) (hx : t.pdn.slot b j = some x)
    (hy : O y = true) : y ≠ x := by
  rintro rfl
  rw [h.apart j y hx] at hy
  cases hy

/-- An operation on the bearer `b` that takes the linked entries `ps` and the
detached ones `out` to `ps'` and `out'`. -/
structure Moves (b : Bearer) (t : Table) (ps out : List Ptr) (t' : Table) (ps' out' : List Ptr) :
    Prop where
  keeps : Keeps t.mem (ps ++ out) t'.mem (ps' ++ out')
  tfts : ∀ b', b' ≠ b → t'.pdn.tft b' = t.pdn.tft b'
  ids : (t'.pdn.tft b).epsBearerId = (t.pdn.tft b).epsBearerId
  num : t'.pdn.numDedicatedBearers = t.pdn.numDedicatedBearers
  others : ∀ O, Others O b t → Others O b t'
  order : ∀ O, Others O b t → ps'.filter O = ps.filter O
  data : ∀ O, Others O b t → ∀ x, O x = true → dataAt t'.mem.heap x = dataAt t.mem.heap x

/-- An operation on the bearer `b` that leaves everything of the other bearers alone. -/
structure Isolated (b : Bearer) (t : Table) (ps : List Ptr) (t' : Table) (ps' : List Ptr) :
    Prop where
  keeps : Keeps t.mem ps t'.mem ps'
  tfts : ∀ b', b' ≠ b → t'.pdn.tft b' = t.pdn.tft b'
  order : ∀ O, Others O b t → ps'.filter O = ps.filter O
  data : ∀ O, Others O b t → ∀ x, O x = true → dataAt t'.mem.heap x = dataAt t.mem.heap x

variable {ps ps' : List Ptr}

theorem Moves.isolated {t' : Table} (h : Moves b t ps [] t' ps' []) : Isolated b t ps t' ps' where
  keeps := by simpa using h.keeps
  tfts := h.tfts
  order := h.order
  data := h.data

namespace Moves

variable {t' t'' : Table} {ps'' out out' out'' : List Ptr}

theorem refl (b : Bearer) (t : Table) (ps out : List Ptr) : Moves b t ps out t ps out where
  keeps := .refl _ _
  tfts := fun _ _ => rfl
  ids := rfl
  num := rfl
  others := fun _ h => h
  order := fun _ _ => rfl
  data := fun _ _ _ _ => rfl

section

variable (h : Moves b t ps out t' ps' out')
include h

theorem trans (h' : Moves b t' ps' out' t'' ps'' out'') : Moves b t ps out t'' ps'' out'' where
  keeps := h.keeps.trans h'.keeps
  tfts b' hb := (h'.tfts b' hb).trans (h.tfts b' hb)
  ids := h'.ids.trans h.ids
  num := h'.num.trans h.num
  others O hO := h'.others O (h.others O hO)
  order O hO := (h'.order O (h.others O hO)).trans (h.order O hO)
  data O hO x hx := (h'.data O (h.others O hO) x hx).trans (h.data O hO x hx)

/-- The order in which detached entries are listed does not matter. -/
theorem perm_left (hperm : out''.Perm out) : Moves b t ps out'' t' ps' out' := by
  refine ⟨⟨h.keeps.brk_le, ?_, ?_⟩, h.tfts, h.ids, h.num, h.others, h.order, h.data⟩
  · intro y hy
    rw [(hperm.append_left ps).mem_iff] at hy
    exact h.keeps.frame y hy
  · intro y hy
    rw [(hperm.append_left ps).mem_iff]
    exact h.keeps.mem y hy

theorem live (b' : Bearer) : t'.pdn.Live b' ↔ t.pdn.Live b' :=
  live_congr h.num b'

theorem slot {b' : Bearer} (hb : b' ≠ b) (j : Fin maxFiltersPerTft) :
    t'.pdn.slot b' j = t.pdn.slot b' j := by
  simp [PdnClassifier.slot, h.tfts b' hb]

end

theorem of_slots {p : Option Ptr} (hkeeps : Keeps t.mem (ps ++ out) t'.mem (ps' ++ out'))
    (hpdn : t'.pdn = { t.pdn with classifierTable := p }) (hbrk : t'.mem.brk = t.mem.brk)
    (horder : ∀ O, Others O b t → ps'.filter O = ps.filter O)
    (hdata : ∀ O, Others O b t → ∀ x, O x = true → dataAt t'.mem.heap x = dataAt t.mem.heap x) :
    Moves b t ps out t' ps' out' := by
  have htft (b') : t'.pdn.tft b' = t.pdn.tft b' := by
    rw [hpdn]
    cases b' <;> rfl
  refine ⟨hkeeps, fun b' _ => htft b', by rw [htft], by rw [hpdn], ?_, horder, hdata⟩
  intro O hO
  constructor
  · intro j x hx
    rw [PdnClassifier.slot, htft] at hx
    exact hO.apart j x hx
  · intro x hx
    rw [hbrk] at hx
    exact hO.old x hx

/-- A move that writes one slot of the bearer. -/
theorem of_setSlot {v : Option Ptr} {n : UInt8} {m' : Mem}
    (hkeeps : Keeps t.mem (ps ++ out) m' (ps ++ out')) (hbrk : t.mem.brk ≤ m'.brk)
    (hv : ∀ O, Others O b t → ∀ x, v = some x → O x = false)
    (hdata : ∀ O, Others O b t → ∀ x, O x = true → dataAt m'.heap x = dataAt t.mem.heap x) :
    Moves b t ps out ⟨m', t.pdn.setSlot b j v n⟩ ps out' := by
  refine ⟨hkeeps, ?_, ?_, t.pdn.numDedicatedBearers_setSlot b j v n, ?_, fun _ _ => rfl, hdata⟩
  · intro b' hb
    rw [setSlot, tft_setTft, if_neg hb]
  · rw [setSlot, tft_setTft, if_pos rfl]
  · intro O hO
    constructor
    · intro i x hx
      rw [slot_setSlot] at hx
      split_ifs at hx
      · exact hv O hO x hx
      · exact hO.apart i x hx
    · intro x hx
      exact hO.old x (Nat.le_trans hbrk hx)

end Moves

variable {pdn pdn' : PdnClassifier}

namespace Linked

variable {l r out : List Ptr} {x : Ptr}

theorem unlink_moves (hx : t.pdn.slot b j = some x) :
    Moves b t (l ++ x :: r) out (t.join l r) (l ++ r) (x :: out) := by
  refine .of_slots unlink_keeps rfl rfl ?_ ?_
  · intro O hO
    simp [hO.apart j x hx]
  · intro O _ y _
    exact dataAt_join y

theorem linkBetween_moves (hx : t.pdn.slot b j = some x) :
    Moves b t (l ++ r) (x :: out) (t.insertAt l x r) (l ++ x :: r) out := by
  refine .of_slots linkBetween_keeps rfl rfl ?_ ?_
  · intro O hO
    simp [hO.apart j x hx]
  · intro O _ y _
    exact dataAt_insertAt y

/-- Allocating an entry for a slot of the bearer is a move. -/
theorem grow_moves (f : PacketFilter) (n : UInt8) :
    Moves b t ps out ⟨t.mem.grow f, t.pdn.setSlot b j (some t.mem.brk) n⟩ ps
      (t.mem.brk :: out) := by
  refine Moves.of_setSlot (grow_keeps f) (Nat.le_succ _) ?_ ?_
  · rintro O hO y ⟨⟩
    exact hO.old _ (Nat.le_refl _)
  · intro O hO y hy
    have hne : y ≠ t.mem.brk := by
      rintro rfl
      rw [hO.old _ (Nat.le_refl _)] at hy
      cases hy
    simp [dataAt, Mem.grow, hne]

/-- Freeing the entry in a slot of the bearer is a move. -/
theorem drop_moves (hx : t.pdn.slot b j = some x) (n : UInt8) :
    Moves b t ps (x :: out) ⟨t.mem.drop x, t.pdn.setSlot b j none n⟩ ps out := by
  refine Moves.of_setSlot drop_keeps (Nat.le_refl _) ?_ ?_
  · exact nofun
  · intro O hO y hy
    simp [dataAt, Mem.drop, hO.ne hx hy]

/-- A write to a detached entry of the bearer is a move. -/
theorem write_moves (hx : t.pdn.slot b j = some x) (hout : x ∈ out) {m' : Mem}
    (hbrk : m'.brk = t.mem.brk) (hframe : ∀ y, y ≠ x → m'.heap y = t.mem.heap y) :
    Moves b t ps out { t with mem := m' } ps out := by
  have hkeeps : Keeps t.mem (ps ++ out) m' (ps ++ out) := by
    refine .of_frame hbrk ?_ fun y hy => hy
    intro y hy
    apply hframe
    rintro rfl
    exact hy (mem_append_right ps hout)
  refine .of_slots (p := t.pdn.classifierTable) hkeeps rfl hbrk (fun _ _ => rfl) ?_
  intro O hO y hy
  simp [dataAt, hframe y (hO.ne hx hy)]

/-- The fields of a PDN that the invariant does not read. -/
theorem congr_pdn {m : Mem} (h : Linked ⟨m, pdn⟩ ps out) (htft : ∀ b, pdn'.tft b = pdn.tft b)
    (hnum : pdn'.numDedicatedBearers = pdn.numDedicatedBearers)
    (hhead : pdn'.classifierTable = pdn.classifierTable) : Linked ⟨m, pdn'⟩ ps out := by
  refine { h with head := hhead.trans h.head, held := ?_ }
  apply h.held.congr (live_congr hnum)
  intro b j
  simp [slot, htft]

end Linked

theorem Moves.congr_pdn {out out' : List Ptr} {m : Mem} (h : Moves b t ps out ⟨m, pdn⟩ ps' out')
    (htft : ∀ b, pdn'.tft b = pdn.tft b)
    (hnum : pdn'.numDedicatedBearers = pdn.numDedicatedBearers) :
    Moves b t ps out ⟨m, pdn'⟩ ps' out' := by
  refine ⟨h.keeps, ?_, ?_, hnum.trans h.num, ?_, h.order, h.data⟩
  · intro b' hb
    exact (htft b').trans (h.tfts b' hb)
  · rw [htft]
    exact h.ids
  · intro O hO
    refine ⟨?_, (h.others O hO).old⟩
    intro j x hx
    rw [PdnClassifier.slot, htft] at hx
    exact (h.others O hO).apart j x hx

namespace Linked

variable {out : List Ptr} {x : Ptr}

theorem detach (h : Linked t ps out) (hx : t.pdn.slot b j = some x) (hmem : x ∈ ps)
    {checked : Bool} (hother : checked = true ∨ ∃ y ∈ ps, y ≠ x) :
    ∃ t' ps', Classifier.unlink checked t x = some t' ∧ Linked t' ps' (x :: out) ∧
      Moves b t ps out t' ps' (x :: out) ∧
      t'.pdn = { t.pdn with classifierTable := ps'.head? } ∧ t'.pdn.slot b j = some x ∧
      (∀ y, dataAt t'.mem.heap y = dataAt t.mem.heap y) ∧
      ps' = ps.filter (· ≠ x) := by
  rcases append_of_mem hmem with ⟨l, r, rfl⟩
  have hnodup : (l ++ x :: r).Nodup := (nodup_append.mp h.nodup).1
  have hl : x ∉ l := fun hl =>
    (nodup_append.mp hnodup).2.2 x hl x mem_cons_self rfl
  have hr : x ∉ r := (nodup_cons.mp (nodup_append.mp hnodup).2.1).1
  have hother' : checked = true ∨ l ++ r ≠ [] := by
    rcases hother with hchecked | ⟨y, hy, hne⟩
    · exact .inl hchecked
    · right
      rintro hnil
      rw [append_eq_nil_iff] at hnil
      rw [hnil.1, hnil.2] at hy
      exact hne (mem_singleton.mp hy)
  refine ⟨t.join l r, l ++ r, h.unlink_eq hother', h.unlink, unlink_moves hx, rfl,
    by cases b <;> exact hx, dataAt_join, ?_⟩
  have hkeep (zs : List Ptr) (hzs : x ∉ zs) : zs.filter (· ≠ x) = zs := by
    rw [filter_eq_self]
    intro y hy
    apply decide_eq_true
    rintro rfl
    exact hzs hy
  rw [filter_append, filter_cons, hkeep l hl, hkeep r hr]
  simp

theorem release (h : Linked t ps (x :: out)) (hb : t.pdn.Live b) (hx : t.pdn.slot b j = some x)
    (n : UInt8) :
    t.mem.kfree x = some (t.mem.drop x) ∧
      Linked ⟨t.mem.drop x, t.pdn.setSlot b j none n⟩ ps out ∧
      Moves b t ps (x :: out) ⟨t.mem.drop x, t.pdn.setSlot b j none n⟩ ps out := by
  rcases h.detached x mem_cons_self with ⟨c, hc⟩
  exact ⟨Mem.kfree_eq hc, h.drop hb hx n, drop_moves hx n⟩

end Linked

end LteModemKernel.Classifier
