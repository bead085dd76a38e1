import LteModemKernel.Classifier.Isolation

/-!
# The operations on the filters of a PDN

One lemma per routine of the QoS agent: from a PDN that meets the invariant, and under
the routine's condition, the routine runs to its end without an invalid access, and the
PDN meets the invariant again.

Main results:

- Theorem `Linked.addSortTft`: adding filters to a bearer that has the slots.
- Theorem `Linked.replaceFilters`: replacing filters that are all there, none of them
  at the precedence of the head.
- Theorems `Linked.deleteFilter` and `Linked.bearerDelete`: deleting filters and
  bearers.
-/

namespace LteModemKernel.Classifier

open Lib List Option Finset PdnClassifier
open Function (update update_idem update_of_ne update_self)

variable {t t' : Table} {m m' : Mem} {ps out xs : List Ptr} {b : Bearer} {tft : Tft} {x : Ptr}
  {f : PacketFilter} {j : Fin maxFiltersPerTft} {k : Fin maxDedicatedBearerPerPdn}
  {filters : List PacketFilter} {result : Option (Table × RetCode)} {pdn : PdnClassifier}
  {bearerId : UInt8}

/-- A routine on the filters of a bearer runs to its end, leaves the PDN with the
invariant and is a move. -/
def Yields (b : Bearer) (t : Table) (ps : List Ptr) (result : Option (Table × RetCode)) : Prop :=
  ∃ t' ret ps', result = some (t', ret) ∧ Linked t' ps' [] ∧ Moves b t ps [] t' ps' []

theorem Linked.yields (h : Linked t ps []) (b : Bearer)
    (ret : RetCode) : Yields b t ps (some (t, ret)) :=
  ⟨t, ret, ps, rfl, h, .refl b t ps []⟩

theorem Yields.of_moves {ps' : List Ptr} (h : Yields b t' ps' result)
    (hmoves : Moves b t ps [] t' ps' []) : Yields b t ps result := by
  rcases h with ⟨t'', ret, ps'', hresult, hlinked, hmoves'⟩
  exact ⟨t'', ret, ps'', hresult, hlinked, hmoves.trans hmoves'⟩

/-! ## The place of a precedence -/

/-- Whether the walk for a precedence passes an entry. -/
def passes (m : Mem) (k : UInt8) (y : Ptr) : Bool :=
  (dataAt m.heap y).any fun f => decide (f.packetFilterPrecedence < k)

/-- The part of the list that the walk for a precedence passes. -/
def front (m : Mem) (k : UInt8) (ps : List Ptr) : List Ptr :=
  ps.takeWhile (passes m k)

/-- The part of the list from where the walk for a precedence stops. -/
def back (m : Mem) (k : UInt8) (ps : List Ptr) : List Ptr :=
  ps.dropWhile (passes m k)

theorem front_append_back (m : Mem) (k : UInt8) (ps : List Ptr) :
    front m k ps ++ back m k ps = ps :=
  takeWhile_append_dropWhile

/-- The precedence of an entry. -/
def precedenceAt (m : Mem) (y : Ptr) : Option UInt8 :=
  (dataAt m.heap y).map PacketFilter.packetFilterPrecedence

theorem passes_of_precedence {k k' : UInt8} {y : Ptr}
    (hy : precedenceAt m y = some k') : passes m k y = decide (k' < k) := by
  rw [precedenceAt, map_eq_some_iff] at hy
  rcases hy with ⟨f, hf, rfl⟩
  simp [passes, hf]

namespace Linked

theorem exists_precedence (h : Linked t ps out) {y : Ptr} (hy : y ∈ ps) :
    ∃ c k, t.mem.heap y = some c ∧ c.data.packetFilterPrecedence = k ∧
      precedenceAt t.mem y = some k := by
  rcases h.chain.exists_cell hy with ⟨c, hc⟩
  exact ⟨c, _, hc, rfl, by simp [precedenceAt, dataAt, hc]⟩

theorem seekPlace_eq (h : Linked t ps out) (k : UInt8) :
    seekPlace t k = some ((front t.mem k ps).getLast?, (back t.mem k ps).head?) := by
  rw [seekPlace, h.head, h.chain.seek_eq (Nat.le_succ_of_le h.length_le), or_none]
  rfl

theorem printFilterList_eq (h : Linked t ps out) : printFilterList t = some () := by
  rw [printFilterList, h.head, h.chain.seek_eq (Nat.le_succ_of_le h.length_le)]
  rfl

/-- The place of a new filter is the cut of its precedence. -/
theorem addPlace_eq (h : Linked t ps out) (k : UInt8) :
    addPlace t k = some ((front t.mem k ps).getLast?, (back t.mem k ps).head?) := by
  cases ps with
  | nil =>
    have hhead : t.pdn.classifierTable = none := h.head
    simp [addPlace, hhead, front, back]
  | cons p ps =>
    have hhead : t.pdn.classifierTable = some p := h.head
    rcases h.exists_precedence mem_cons_self with ⟨c, k', hc, hk', hp⟩
    by_cases hle : k ≤ k'
    · have hpass : passes t.mem k p = false := by
        rw [passes_of_precedence hp]
        simpa using hle
      simp [addPlace, hhead, hc, hk', hle, front, back, hpass]
    · have hseek := h.seekPlace_eq k
      simp only [addPlace, hhead, hc, hk', hle, if_false]
      exact hseek

theorem attach (h : Linked t ps (x :: out)) (hslot : t.pdn.slot b j = some x)
    (hx : dataAt t.mem.heap x = some f) {l r : List Ptr}
    (hl : l = front t.mem f.packetFilterPrecedence ps)
    (hr : r = back t.mem f.packetFilterPrecedence ps) :
    Linked (t.insertAt l x r) (l ++ x :: r) out ∧
      Moves b t ps (x :: out) (t.insertAt l x r) (l ++ x :: r) out := by
  have hps : l ++ r = ps := by rw [hl, hr, front_append_back]
  have hdata (y) (hy : y ∈ ps) : ∃ g, dataAt t.mem.heap y = some g := by
    rcases h.chain.exists_cell hy with ⟨c, hc⟩
    exact ⟨c.data, by simp [dataAt, hc]⟩
  have hsorted : Sorted precedence t.mem.heap (l ++ x :: r) := by
    rw [hl, hr]
    exact h.sorted.insert hx hdata
  have hcut : Linked t (l ++ r) (x :: out) := hps.symm ▸ h
  have hmoves : Moves b t (l ++ r) (x :: out) (t.insertAt l x r) (l ++ x :: r) out :=
    linkBetween_moves hslot
  rw [hps] at hmoves
  exact ⟨hcut.linkBetween hsorted, hmoves⟩

theorem linkBetween_cut (h : Linked t ps out) (k : UInt8) {c : Entry}
    (hheap : ∀ y ∈ ps, m.heap y = t.mem.heap y)
    (hhead : pdn.classifierTable = t.pdn.classifierTable) (hx : x ∉ ps) (hc : m.heap x = some c) :
    Classifier.linkBetween ⟨m, pdn⟩ x (front t.mem k ps).getLast? (back t.mem k ps).head? =
      some (Table.insertAt ⟨m, pdn⟩ (front t.mem k ps) x (back t.mem k ps)) := by
  have hchain : Chain m.heap none ps none := h.chain.congr hheap
  have hnodup : ps.Nodup := (nodup_append.mp h.nodup).1
  have hfirst := hhead.trans h.head
  rw [← front_append_back t.mem k ps] at hchain hnodup hfirst hx
  exact linkBetween_eq hchain hnodup hfirst hx hc

end Linked

/-! ## Adding filters -/

/-- The number of null slots of a bearer. -/
def Tft.vacant (tft : Tft) : Nat :=
  (Finset.univ.filter fun j => tft.packetFilters j = none).card

theorem Tft.exists_freeSlot (h : 0 < tft.vacant) :
    ∃ j, tft.freeSlot = some j ∧ tft.packetFilters j = none := by
  rcases card_pos.mp h with ⟨i, hi⟩
  have hi : tft.packetFilters i = none := (Finset.mem_filter.mp hi).2
  cases hslot : tft.freeSlot with
  | none =>
    rw [Tft.freeSlot, find?_eq_none] at hslot
    exact absurd (by rw [hi]; rfl) (hslot i (mem_finRange i))
  | some j =>
    have hj := find?_some hslot
    exact ⟨j, rfl, by simpa using hj⟩

theorem Tft.vacant_fill (tft : Tft) (hj : tft.packetFilters j = none) (x : Ptr) (n : UInt8) :
    Tft.vacant { tft with
      numFilters := n
      packetFilters := update tft.packetFilters j (some x) } + 1 = tft.vacant := by
  have hset : (univ.filter fun i => update tft.packetFilters j (some x) i = none) =
      (univ.filter fun i => tft.packetFilters i = none).erase j := by
    ext i
    by_cases hi : i = j
    · subst hi
      simp
    · simp [hi]
  have hmem : j ∈ univ.filter fun i => tft.packetFilters i = none := by simp [hj]
  rw [Tft.vacant, hset, card_erase_of_mem hmem]
  exact Nat.sub_add_cancel (card_pos.mpr ⟨j, hmem⟩)

theorem cut_congr (k : UInt8) (hdata : ∀ y ∈ ps, dataAt m'.heap y = dataAt m.heap y) :
    front m' k ps = front m k ps ∧ back m' k ps = back m k ps := by
  induction ps with
  | nil => exact ⟨rfl, rfl⟩
  | cons y ps ih =>
    have hy : passes m' k y = passes m k y := by
      simp [passes, hdata y mem_cons_self]
    rcases ih fun z hz => hdata z (mem_cons_of_mem y hz) with ⟨hfront, hback⟩
    simp only [front, back] at hfront hback ⊢
    cases hpass : passes m k y with
    | true => simp [hy, hpass, hfront, hback]
    | false => simp [hy, hpass]

namespace Linked

/-- One turn of the loop of `Qa_Add_SortTFT`. -/
theorem addFilter (h : Linked t ps []) (hb : t.pdn.Live b) (hvacant : 0 < (t.pdn.tft b).vacant)
    (f : PacketFilter) :
    ∃ t' ret ps', Classifier.addFilter t b f = some (t', ret) ∧ Linked t' ps' [] ∧
      Moves b t ps [] t' ps' [] ∧
      (ret = .success → (t'.pdn.tft b).vacant + 1 = (t.pdn.tft b).vacant) := by
  have hplace := h.addPlace_eq f.packetFilterPrecedence
  rcases t.mem.kmalloc_cases with ⟨_, hnone⟩ | ⟨_, m, hsome, hfill⟩
  · refine ⟨t, .fail, ps, ?_, h, .refl _ _ _ _, ?_⟩
    · simp [Classifier.addFilter, hplace, hnone]
    · exact nofun
  · rcases Tft.exists_freeSlot hvacant with ⟨j, hfree, hj⟩
    -- the slot is written after the links, but the order of the two does not matter
    have hgrown := h.grow hb hj f ((t.pdn.tft b).numFilters + 1)
    have hdata : dataAt (t.mem.grow f).heap t.mem.brk = some f := by simp [dataAt, Mem.grow]
    have hne : ∀ y ∈ ps, y ≠ t.mem.brk := fun y hy =>
      Nat.ne_of_lt (h.lt_brk (mem_append_left [] hy))
    have hheap : ∀ y ∈ ps, (t.mem.grow f).heap y = t.mem.heap y := fun y hy =>
      update_of_ne (hne y hy) _ _
    rcases cut_congr f.packetFilterPrecedence
      (fun y hy => by rw [dataAt, hheap y hy]; rfl : ∀ y ∈ ps,
        dataAt (t.mem.grow f).heap y = dataAt t.mem.heap y) with ⟨hfront, hback⟩
    have hslot : (t.pdn.setSlot b j (some t.mem.brk) ((t.pdn.tft b).numFilters + 1)).slot b j =
        some t.mem.brk := by rw [slot_setSlot, if_pos ⟨rfl, rfl⟩]
    rcases hgrown.attach hslot hdata hfront.symm hback.symm with ⟨hlinked, hmoves⟩
    have hlink := h.linkBetween_cut (x := t.mem.brk) f.packetFilterPrecedence hheap
      (rfl : t.pdn.classifierTable = _) (fun hmem => hne _ hmem rfl) (update_self _ _ _)
    refine ⟨_, .success, _, ?_, hlinked, (grow_moves f _).trans hmoves, ?_⟩
    · simp only [Classifier.addFilter, hplace, hsome, hfill, bind_eq_bind, bind_some]
      rw [hlink, bind_some]
      simp only [tft_insertAt, hfree]
      cases b <;> rfl
    · intro _
      rw [tft_insertAt, setSlot, tft_setTft, if_pos rfl]
      exact Tft.vacant_fill _ hj _ _

theorem addFilters (h : Linked t ps []) (hb : t.pdn.Live b)
    (hvacant : filters.length ≤ (t.pdn.tft b).vacant) :
    Yields b t ps (Classifier.addFilters b t filters) := by
  induction filters generalizing t ps with
  | nil => exact h.yields b .success
  | cons f rest ih =>
    rw [length_cons] at hvacant
    rcases h.addFilter hb (by omega) f with ⟨t', ret, ps', heq, hlinked, hmoves, hcount⟩
    simp only [addFilters, heq, bind_eq_bind, bind_some]
    cases ret with
    | fail => exact (hlinked.yields b .fail).of_moves hmoves
    | success =>
      have hlive : t'.pdn.Live b := (hmoves.live b).mpr hb
      have hcount := hcount rfl
      have hyields := ih hlinked hlive (by omega)
      exact hyields.of_moves hmoves

end Linked

theorem Tft.vacant_clear (hj : tft.packetFilters j = some x) (n : UInt8) :
    Tft.vacant { tft with
      numFilters := n
      packetFilters := update tft.packetFilters j none } = tft.vacant + 1 := by
  have hfill := Tft.vacant_fill { tft with
    numFilters := n
    packetFilters := update tft.packetFilters j none } (j := j) (by simp) x n
  rw [← hfill]
  simp [Tft.vacant, update_idem, ← hj]

/-- The null slots of a bearer behind the removal of the match-all filter. -/
def PdnClassifier.vacantAfterMatchAll (pdn : PdnClassifier) (b : Bearer) : Nat :=
  if b = .default ∧ pdn.matchAll = true ∧ pdn.slot .default 0 ≠ none then
    (pdn.tft b).vacant + 1
  else (pdn.tft b).vacant

namespace Linked

theorem deleteMatchAll (h : Linked t ps []) :
    ∃ t' ret ps', deleteDefaultBearerMatchAllTft t = some (t', ret) ∧ Linked t' ps' [] ∧
      Moves .default t ps [] t' ps' [] ∧
      t'.pdn.defaultBearer.vacant =
        t.pdn.defaultBearer.vacant + if t.pdn.slot .default 0 ≠ none then 1 else 0 := by
  cases hslot : t.pdn.slot .default 0 with
  | none =>
    refine ⟨t, .fail, ps, ?_, h, .refl _ _ _ _, by simp⟩
    simp [deleteDefaultBearerMatchAllTft, hslot]
  | some x =>
    have hmem : x ∈ ps := by simpa using h.held.mem (b := .default) trivial hslot
    rcases h.detach hslot hmem (.inl (rfl : true = true)) with
      ⟨t₁, ps₁, hunlink, hlinked, hmoves, hpdn, hslot₁, _, _⟩
    rcases hlinked.release (b := .default) trivial hslot₁ 0 with ⟨hfree, hlinked', hmoves'⟩
    have htft : ∀ b, ({ t₁.pdn.setSlot .default 0 none 0 with matchAll := false } :
        PdnClassifier).tft b = (t₁.pdn.setSlot .default 0 none 0).tft b := by
      intro b
      cases b <;> rfl
    refine ⟨⟨t₁.mem.drop x, { t₁.pdn.setSlot .default 0 none 0 with matchAll := false }⟩, .success,
      ps₁, ?_, hlinked'.congr_pdn htft rfl rfl, (hmoves.trans hmoves').congr_pdn htft rfl, ?_⟩
    · simp [deleteDefaultBearerMatchAllTft, hslot, hunlink, hfree]
    · have hdefault : t₁.pdn.defaultBearer = t.pdn.defaultBearer := by rw [hpdn]
      have hpacket : t.pdn.defaultBearer.packetFilters 0 = some x := hslot
      simp only [ne_eq, reduceCtorEq, not_false_eq_true, if_true]
      rw [← Tft.vacant_clear hpacket 0, ← hdefault]
      rfl

/-- `Qa_Add_SortTFT`, when there is a slot for every filter. -/
theorem addSortTft (h : Linked t ps []) (hb : t.pdn.Live b)
    (hvacant : filters.length ≤ t.pdn.vacantAfterMatchAll b) :
    Yields b t ps (Classifier.addSortTft t b filters) := by
  by_cases hmatch : b = .default ∧ t.pdn.matchAll = true
  · rcases hmatch with ⟨rfl, hmatch⟩
    rcases h.deleteMatchAll with ⟨t', ret, ps', heq, hlinked, hmoves, hcount⟩
    have hroom : filters.length ≤ (t'.pdn.tft .default).vacant := by
      change filters.length ≤ t'.pdn.defaultBearer.vacant
      rw [hcount]
      simp only [vacantAfterMatchAll, hmatch, true_and] at hvacant
      split_ifs at hvacant ⊢ with hnone
      · exact hvacant
      · exact hvacant
    have hyields := hlinked.addFilters ((hmoves.live .default).mpr hb) hroom
    simp only [addSortTft, hmatch, and_self, if_true, heq, map_some, bind_eq_bind, bind_some]
    exact hyields.of_moves hmoves
  · have hroom : filters.length ≤ (t.pdn.tft b).vacant := by
      rw [vacantAfterMatchAll, if_neg] at hvacant
      · exact hvacant
      · rintro ⟨hdefault, hall, _⟩
        exact hmatch ⟨hdefault, hall⟩
    simp only [Classifier.addSortTft, hmatch, if_false, bind_eq_bind, bind_some]
    exact h.addFilters hb hroom

end Linked

/-! ## Replacing filters -/

/-- The identifier of an entry. -/
def identifierAt (m : Mem) (x : Ptr) : Option UInt8 :=
  (dataAt m.heap x).map PacketFilter.packetFilterIdentifier

theorem findSlotIn_eq_some {identifier : UInt8}
    {js : List (Fin maxFiltersPerTft)} (h : findSlotIn m tft identifier js = some (some j)) :
    ∃ x, tft.packetFilters j = some x ∧ identifierAt m x = some identifier := by
  induction js with
  | nil => cases h
  | cons i js ih =>
    rw [findSlotIn] at h
    cases hslot : tft.packetFilters i with
    | none =>
      rw [hslot] at h
      exact ih h
    | some x =>
      rw [hslot] at h
      cases hcell : m.heap x with
      | none => simp [hcell] at h
      | some c =>
        by_cases hid : c.data.packetFilterIdentifier = identifier
        · simp only [hcell, hid, if_true, some.injEq] at h
          subst h
          exact ⟨x, hslot, by simp [identifierAt, dataAt, hcell, hid]⟩
        · simp only [hcell, hid, if_false] at h
          exact ih h

/-- The search only depends on the identifiers of the entries in the slots. -/
theorem findSlotIn_congr (identifier : UInt8) (js : List (Fin maxFiltersPerTft))
    (h : ∀ j x, tft.packetFilters j = some x → identifierAt m' x = identifierAt m x) :
    findSlotIn m' tft identifier js = findSlotIn m tft identifier js := by
  induction js with
  | nil => rfl
  | cons i js ih =>
    simp only [findSlotIn]
    cases hslot : tft.packetFilters i with
    | none => exact ih
    | some x =>
      have hx := h i x hslot
      simp only [identifierAt, dataAt, Option.map_map] at hx
      cases hcell : m.heap x with
      | none =>
        rw [hcell, Option.map_none, Option.map_eq_none_iff] at hx
        simp [hx, hcell]
      | some c =>
        rw [hcell, Option.map_some, Option.map_eq_some_iff] at hx
        rcases hx with ⟨c', hc', hid⟩
        simp only [Function.comp_apply] at hid
        simp [hc', hcell, hid, ih]

/-- The filter of a bearer that a received filter replaces. -/
def Table.target (t : Table) (b : Bearer) (f : PacketFilter) : Option Ptr :=
  (findSlot t.mem (t.pdn.tft b) f.packetFilterIdentifier).join.bind (t.pdn.slot b)

open Table

theorem Table.target_eq_some (h : t.target b f = some x) :
    ∃ j, findSlot t.mem (t.pdn.tft b) f.packetFilterIdentifier = some (some j) ∧
      t.pdn.slot b j = some x ∧ identifierAt t.mem x = some f.packetFilterIdentifier := by
  rw [target, bind_eq_some_iff] at h
  rcases h with ⟨j, hfind, hslot⟩
  rw [join_eq_some_iff] at hfind
  rcases findSlotIn_eq_some hfind with ⟨y, hy, hid⟩
  have hxy : x = y := some.inj (hslot.symm.trans hy)
  exact ⟨j, hfind, hslot, hxy ▸ hid⟩

theorem Table.target_congr (htft : t'.pdn.tft b = t.pdn.tft b)
    (hid : ∀ j x, t.pdn.slot b j = some x → identifierAt t'.mem x = identifierAt t.mem x)
    (f : PacketFilter) : t'.target b f = t.target b f := by
  have hslot : t'.pdn.slot b = t.pdn.slot b := by
    funext j
    simp [slot, htft]
  have hfind := findSlotIn_congr f.packetFilterIdentifier (finRange maxFiltersPerTft) hid
  rw [target, target, htft, findSlot, hfind, findSlot, hslot]

namespace Linked

/-- A filter that is overwritten is detached. -/
theorem overwriteFilter (h : Linked t ps out) (hx : t.pdn.slot b j = some x) (hmem : x ∈ ps)
    (f : PacketFilter) :
    ∃ t' ps', Classifier.overwriteFilter t x f = some t' ∧ Linked t' ps' (x :: out) ∧
      Moves b t ps out t' ps' (x :: out) ∧
      t'.pdn = { t.pdn with classifierTable := ps'.head? } ∧
      dataAt t'.mem.heap x = some f ∧
      (∀ y, y ≠ x → dataAt t'.mem.heap y = dataAt t.mem.heap y) ∧
      ps' = ps.filter (· ≠ x) := by
  rcases h.detach hx hmem (Or.inl (rfl : true = true)) with
    ⟨t₁, ps₁, hunlink, hlinked, hmoves, hpdn, hslot, hdata, hps⟩
  rcases hlinked.detached x mem_cons_self with ⟨c, hc⟩
  have haim := Mem.aim_heap_self hc none none
  -- the memory after the three writes
  let m' : Mem := { t₁.mem with
    heap := update (t₁.mem.aim x none none).heap x (some ⟨f, none, none⟩) }
  have hcell : m'.heap x = some ⟨f, none, none⟩ := update_self _ _ _
  have hframe (y) (hy : y ≠ x) : m'.heap y = t₁.mem.heap y := by
    exact (update_of_ne hy _ _).trans (Mem.aim_heap_of_ne hy _ _)
  refine ⟨{ t₁ with mem := m' }, ps₁, ?_, hlinked.write mem_cons_self rfl hcell hframe,
    hmoves.trans (write_moves hslot mem_cons_self rfl hframe), hpdn, ?_, ?_, hps⟩
  · simp only [Classifier.overwriteFilter, hunlink, bind_eq_bind, bind_some]
    rw [← bind_assoc, Mem.setNext_setPrev hc, bind_some]
    simp only [Mem.setFilter, haim, bind_some]
    rfl
  · simp [dataAt, hcell]
  · intro y hy
    rw [← hdata y]
    simp [dataAt, hframe y hy]

end Linked

/-- The received filters and the entries they replace. -/
abbrev Targets (t : Table) (b : Bearer) (filters : List PacketFilter) (xs : List Ptr) : Prop :=
  List.Forall₂ (fun f x => t.target b f = some x) filters xs

/-- The check pass of `Qa_Delete_Filter_Replace` when every filter is found. -/
theorem deleteFilterReplace_check (h : Targets t b filters xs) :
    deleteFilterReplace false b t filters = some (t, .success) := by
  induction h with
  | nil => rfl
  | cons hx _ ih =>
    rcases target_eq_some hx with ⟨j, hfind, hslot, _⟩
    simp only [deleteFilterReplace, hfind, hslot, bind_eq_bind, bind_some,
      Bool.false_eq_true, if_false]
    exact ih

namespace Linked

theorem deleteFilterReplace_write (h : Linked t ps out) (htargets : Targets t b filters xs)
    (hnodup : xs.Nodup) (hmem : ∀ x ∈ xs, x ∈ ps) :
    ∃ t', deleteFilterReplace true b t filters = some (t', .success) ∧
      Linked t' (ps.filter (· ∉ xs)) (xs.reverse ++ out) ∧
      Moves b t ps out t' (ps.filter (· ∉ xs)) (xs.reverse ++ out) ∧
      t'.pdn.tft b = t.pdn.tft b ∧ (∀ y, identifierAt t'.mem y = identifierAt t.mem y) ∧
      List.Forall₂ (fun f x => dataAt t'.mem.heap x = some f) filters xs ∧
      (∀ y, y ∉ xs → dataAt t'.mem.heap y = dataAt t.mem.heap y) := by
  induction filters generalizing t ps out xs with
  | nil =>
    cases htargets
    have hall : (ps.filter fun y => decide (y ∉ ([] : List Ptr))) = ps := by simp
    rw [hall]
    exact ⟨t, rfl, h, .refl _ _ _ _, rfl, fun _ => rfl, .nil, fun _ _ => rfl⟩
  | cons f filters ih =>
    rcases htargets with _ | ⟨hx, hrest⟩
    rename_i x xs
    rcases target_eq_some hx with ⟨j, hfind, hslot, hid⟩
    rw [nodup_cons] at hnodup
    rcases h.overwriteFilter hslot (hmem x mem_cons_self) f with
      ⟨t₁, ps₁, hover, hlinked, hmoves, hpdn, hself, hframe, hps⟩
    have htft : t₁.pdn.tft b = t.pdn.tft b := by
      rw [hpdn]
      cases b <;> rfl
    have hids (y) : identifierAt t₁.mem y = identifierAt t.mem y := by
      by_cases hy : y = x
      · rw [hy, hid, identifierAt, hself, map_some]
      · rw [identifierAt, hframe y hy, identifierAt]
    have htargets₁ : Targets t₁ b filters xs :=
      hrest.imp fun g y hy => (target_congr htft (fun _ z _ => hids z) g).trans hy
    have hmem₁ (y) (hy : y ∈ xs) : y ∈ ps₁ := by
      rw [hps, mem_filter]
      refine ⟨hmem y (mem_cons_of_mem x hy), decide_eq_true ?_⟩
      rintro rfl
      exact hnodup.1 hy
    rcases ih hlinked htargets₁ hnodup.2 hmem₁ with
      ⟨t', hrun, hlinked', hmoves', htft', hids', hdata', hframe'⟩
    have hfilter : ps₁.filter (· ∉ xs) = ps.filter (· ∉ x :: xs) := by
      rw [hps, List.filter_filter]
      apply List.filter_congr
      intro y _
      simp only [List.mem_cons, not_or, Bool.decide_and, ne_eq]
      rw [Bool.and_comm]
    have hout : xs.reverse ++ x :: out = (x :: xs).reverse ++ out := by simp
    rw [hfilter, hout] at hlinked' hmoves'
    refine ⟨t', ?_, hlinked', hmoves.trans hmoves', htft'.trans htft,
      fun y => (hids' y).trans (hids y), .cons ?_ hdata', ?_⟩
    · simp only [deleteFilterReplace, hfind, hslot, hover, bind_eq_bind, bind_some,
        if_true]
      exact hrun
    · rw [hframe' x hnodup.1, hself]
    · intro y hy
      rw [List.mem_cons, not_or] at hy
      rw [hframe' y hy.2, hframe y hy.1]

end Linked

/-- The precedence of the head of the list. -/
def headPrecedence (m : Mem) (ps : List Ptr) : Option UInt8 :=
  ps.head?.bind (precedenceAt m)

/-- The smaller one of the head's precedence and a new one. -/
def lowerHead : Option UInt8 → UInt8 → UInt8
  | none, k => k
  | some k', k => if k' < k then k' else k

/-- Each of the precedences, inserted one after the other, differs from that of the
head at its turn. -/
def ApartFromHead : Option UInt8 → List UInt8 → Prop
  | _, [] => True
  | head, k :: ks => head ≠ some k ∧ ApartFromHead (some (lowerHead head k)) ks

instance ApartFromHead.decidable :
    (head : Option UInt8) → (ks : List UInt8) → Decidable (ApartFromHead head ks)
  | _, [] => instDecidableTrue
  | head, k :: ks =>
    have := ApartFromHead.decidable (some (lowerHead head k)) ks
    inferInstanceAs (Decidable (_ ∧ _))

namespace Linked

variable {k : UInt8}

/-- The head of a list with an entry inserted at the cut of its precedence. -/
theorem headPrecedence_insert (h : Linked t ps out) (hx : precedenceAt t.mem x = some k) :
    headPrecedence t.mem (front t.mem k ps ++ x :: back t.mem k ps) =
      some (lowerHead (headPrecedence t.mem ps) k) := by
  cases ps with
  | nil => simp [headPrecedence, front, back, lowerHead, hx]
  | cons p ps =>
    rcases h.exists_precedence mem_cons_self with ⟨_, k', _, _, hp⟩
    have hpass : passes t.mem k p = decide (k' < k) := passes_of_precedence hp
    by_cases hlt : k' < k
    · simp [headPrecedence, front, back, lowerHead, hpass, hlt, hp]
    · simp [headPrecedence, front, back, lowerHead, hpass, hlt, hp, hx]

theorem replaceInsert_eq (h : Linked t ps (x :: out)) (hapart : headPrecedence t.mem ps ≠ some k) :
    replaceInsert t x k = some (t.insertAt (front t.mem k ps) x (back t.mem k ps)) := by
  rcases h.detached x mem_cons_self with ⟨c, hc⟩
  have hlink := h.linkBetween_cut k (fun _ _ => rfl) rfl h.not_mem hc
  have hseek := h.seekPlace_eq k
  cases ps with
  | nil =>
    have hhead : t.pdn.classifierTable = none := h.head
    simp only [replaceInsert, beforeHead, hhead, hseek, bind_eq_bind, bind_some]
    simpa [front, back] using hlink
  | cons p ps =>
    have hhead : t.pdn.classifierTable = some p := h.head
    rcases h.exists_precedence mem_cons_self with ⟨d, k', hd, hk', hp⟩
    have hpass : passes t.mem k p = decide (k' < k) := passes_of_precedence hp
    have hne : k' ≠ k := by
      rintro rfl
      exact hapart (by simp [headPrecedence, hp])
    by_cases hlt : k < k'
    · -- the entry goes in front of the head
      have hnot : ¬ k' < k := UInt8.not_lt.mpr (UInt8.le_of_lt hlt)
      simp only [replaceInsert, beforeHead, hhead, hd, hk', hlt, decide_true, bind_eq_bind,
        bind_some, if_true]
      simpa [front, back, hpass, hnot] using hlink
    · -- the walk passes at least the head
      have hgt : k' < k := UInt8.lt_of_le_of_ne (UInt8.not_lt.mp hlt) hne
      have hfront : (front t.mem k (p :: ps)).getLast? ≠ none := by
        simp [front, hpass, hgt]
      simp only [replaceInsert, beforeHead, hhead, hd, hk', hlt, decide_false, hseek,
        bind_eq_bind, bind_some, Bool.false_eq_true, if_false, hfront, false_and]
      exact hlink

theorem replaceSortTft (h : Linked t ps (xs ++ out)) (htargets : Targets t b filters xs)
    (hdata : List.Forall₂ (fun f x => dataAt t.mem.heap x = some f) filters xs)
    (hapart : ApartFromHead (headPrecedence t.mem ps)
      (filters.map PacketFilter.packetFilterPrecedence)) (temp1 : Option Ptr) :
    ∃ t' ps', Classifier.replaceSortTft b temp1 t filters = some (t', .success) ∧
      Linked t' ps' out ∧ Moves b t ps (xs ++ out) t' ps' out := by
  induction filters generalizing t ps xs temp1 with
  | nil =>
    cases htargets
    exact ⟨t, ps, rfl, h, .refl _ _ _ _⟩
  | cons f filters ih =>
    rcases htargets with _ | ⟨hx, hrest⟩
    rename_i x xs
    rcases hdata with _ | ⟨hxdata, hdata⟩
    rcases target_eq_some hx with ⟨j, hfind, hslot, _⟩
    rw [List.map_cons] at hapart
    rcases hapart with ⟨hhead, hapart⟩
    have hinsert := h.replaceInsert_eq hhead
    rcases h.attach hslot hxdata rfl rfl with ⟨hlinked, hmoves⟩
    have hprec : precedenceAt t.mem x = some f.packetFilterPrecedence := by
      rw [precedenceAt, hxdata, map_some]
    let l := front t.mem f.packetFilterPrecedence ps
    let r := back t.mem f.packetFilterPrecedence ps
    have hkept : ∀ y, dataAt (t.insertAt l x r).mem.heap y = dataAt t.mem.heap y := dataAt_insertAt
    have htargets₁ : Targets (t.insertAt l x r) b filters xs := by
      refine hrest.imp fun g y hy => (target_congr (tft_insertAt b) ?_ g).trans hy
      intro _ z _
      rw [identifierAt, hkept, identifierAt]
    have hdata₁ : List.Forall₂ (fun g y => dataAt (t.insertAt l x r).mem.heap y = some g)
        filters xs := hdata.imp fun g y hy => (hkept y).trans hy
    have hhead₁ : headPrecedence (t.insertAt l x r).mem (l ++ x :: r) =
        some (lowerHead (headPrecedence t.mem ps) f.packetFilterPrecedence) := by
      rw [← h.headPrecedence_insert hprec]
      have hsame : precedenceAt (t.insertAt l x r).mem = precedenceAt t.mem := by
        funext y
        rw [precedenceAt, hkept, precedenceAt]
      rw [headPrecedence, hsame, headPrecedence]
    rcases ih hlinked htargets₁ hdata₁ (by rw [hhead₁]; exact hapart) (some x) with
      ⟨t', ps', hrun, hlinked', hmoves'⟩
    refine ⟨t', ps', ?_, hlinked', hmoves.trans hmoves'⟩
    simp only [replaceSortTft, hfind, hslot, hinsert, bind_eq_bind, bind_some]
    exact hrun

/-- The sorting pass does nothing for the filters in front of the first one that is there. -/
theorem replaceSortTft_absent (b : Bearer) (t : Table) (filters : List PacketFilter) :
    Classifier.replaceSortTft b none t filters =
      Classifier.replaceSortTft b none t (filters.dropWhile fun f =>
        findSlot t.mem (t.pdn.tft b) f.packetFilterIdentifier = some none) := by
  induction filters with
  | nil => rfl
  | cons f filters ih =>
    by_cases hf : findSlot t.mem (t.pdn.tft b) f.packetFilterIdentifier = some none
    · rw [dropWhile_cons_of_pos (by simpa using hf), ← ih]
      simp only [Classifier.replaceSortTft, hf, bind_eq_bind, bind_some]
    · rw [dropWhile_cons_of_neg (by simpa using hf)]

theorem replaceFilters_none (h : Linked t ps out)
    (hnone : ∀ f ∈ filters, findSlot t.mem (t.pdn.tft b) f.packetFilterIdentifier = some none) :
    Classifier.replaceFilters t b filters = some (t, .success) := by
  have hsort : Classifier.replaceSortTft b none t filters = some (t, .success) := by
    rw [replaceSortTft_absent, dropWhile_eq_nil_iff.mpr (by simpa using hnone)]
    rfl
  cases filters with
  | nil => simp [Classifier.replaceFilters, deleteFilterReplace, hsort, h.printFilterList_eq]
  | cons f filters =>
    have hcheck : deleteFilterReplace false b t (f :: filters) = some (t, .fail) := by
      simp [deleteFilterReplace, hnone f mem_cons_self]
    simp [Classifier.replaceFilters, hcheck, hsort, h.printFilterList_eq]

/-- `Qa_Replace_Filters`, if all the filters are there, no two of them are the same
one, and none has the precedence of the head when its turn comes. -/
theorem replaceFilters (h : Linked t ps []) (hb : t.pdn.Live b) (htargets : Targets t b filters xs)
    (hnodup : xs.Nodup) (hapart : ApartFromHead (headPrecedence t.mem (ps.filter (· ∉ xs)))
      (filters.map PacketFilter.packetFilterPrecedence)) :
    Yields b t ps (Classifier.replaceFilters t b filters) := by
  have hmem (x) (hx : x ∈ xs) : x ∈ ps := by
    rcases forall₂_iff_zip.mp htargets with ⟨hlen, hzip⟩
    rcases getElem_of_mem hx with ⟨i, hi, rfl⟩
    have hpair := hzip (mem_iff_getElem.mpr
      ⟨i, by simpa [hlen] using hi, getElem_zip⟩)
    rcases target_eq_some hpair with ⟨j, _, hslot, _⟩
    simpa using h.held.mem hb hslot
  have hcheck := deleteFilterReplace_check htargets
  rcases h.deleteFilterReplace_write htargets hnodup hmem with
    ⟨t₁, hwrite, hlinked, hmoves, htft, hids, hdata, hframe⟩
  have htargets₁ : Targets t₁ b filters xs :=
    htargets.imp fun f x hx => (target_congr htft (fun _ z _ => hids z) f).trans hx
  have hperm : (xs.reverse ++ []).Perm (xs ++ []) := .append_right [] (reverse_perm xs)
  have hhead : headPrecedence t₁.mem (ps.filter (· ∉ xs)) =
      headPrecedence t.mem (ps.filter (· ∉ xs)) := by
    cases hcase : ps.filter (· ∉ xs) with
    | nil => rfl
    | cons y rest =>
      have hy : y ∈ ps.filter (· ∉ xs) := by
        rw [hcase]
        exact mem_cons_self
      have hout : y ∉ xs := of_decide_eq_true (mem_filter.mp hy).2
      simp [headPrecedence, precedenceAt, hframe y hout]
  rcases (hlinked.perm hperm).replaceSortTft htargets₁ hdata (by rw [hhead]; exact hapart) none with
    ⟨t', ps', hsort, hlinked', hmoves'⟩
  refine ⟨t', .success, ps', ?_, hlinked', hmoves.trans (hmoves'.perm_left hperm)⟩
  simp only [Classifier.replaceFilters, hcheck, hwrite, map_some, bind_eq_bind, bind_some, if_true,
    hsort, hlinked'.printFilterList_eq]

end Linked

/-! ## Deleting filters -/

namespace Linked

theorem deleteSlotFilter (h : Linked t ps []) (hb : t.pdn.Live (.dedicated k))
    (hx : t.pdn.slot (.dedicated k) j = some x) :
    ∃ t' ps', Classifier.deleteSlotFilter t (.dedicated k) j x = some t' ∧ Linked t' ps' [] ∧
      Moves (.dedicated k) t ps [] t' ps' [] := by
  have hmem : x ∈ ps := by simpa using h.held.mem hb hx
  rcases h.detach hx hmem (.inl (rfl : true = true)) with
    ⟨t₁, ps₁, hunlink, hlinked, hmoves, _, hslot, _, _⟩
  have hlive : t₁.pdn.Live (.dedicated k) := (hmoves.live _).mpr hb
  rcases hlinked.detached x mem_cons_self with ⟨c, hc⟩
  let m₂ : Mem := { t₁.mem with
    heap := update t₁.mem.heap x (some { c with data := .zero }) }
  have hframe : ∀ y, y ≠ x → m₂.heap y = t₁.mem.heap y := fun y hy => update_of_ne hy _ _
  have hclear : t₁.mem.setFilter (clearedSlot t₁.pdn (.dedicated k) j) .zero = some m₂ := by
    simp only [clearedSlot, hslot, Mem.setFilter, hc]
    rfl
  have hbrk : m₂.brk = t₁.mem.brk := rfl
  have hwritten := hlinked.write mem_cons_self hbrk (update_self _ _ _) hframe
  have hmoves₂ := hmoves.trans (write_moves hslot mem_cons_self hbrk hframe)
  rcases hwritten.release hlive hslot ((t₁.pdn.tft (.dedicated k)).numFilters - 1) with
    ⟨hfree, hlinked', hmoves'⟩
  refine ⟨_, ps₁, ?_, hlinked', hmoves₂.trans hmoves'⟩
  simp [Classifier.deleteSlotFilter, hunlink, hclear, hfree]

theorem deleteFilterIn (h : Linked t ps []) (hb : t.pdn.Live (.dedicated k))
    (pfidList : List UInt8) (js : List (Fin maxFiltersPerTft)) :
    ∃ t' ps', Classifier.deleteFilterIn (.dedicated k) pfidList t js = some t' ∧
      Linked t' ps' [] ∧ Moves (.dedicated k) t ps [] t' ps' [] := by
  induction js generalizing t ps with
  | nil => exact ⟨t, ps, rfl, h, .refl _ _ _ _⟩
  | cons j js ih =>
    cases hslot : t.pdn.slot (.dedicated k) j with
    | none =>
      simp only [deleteFilterIn, hslot]
      exact ih h hb
    | some x =>
      rcases h.exists_cell (h.held.mem hb hslot) with ⟨c, hc⟩
      by_cases hin : c.data.packetFilterIdentifier ∈ pfidList
      · rcases h.deleteSlotFilter hb hslot with ⟨t₁, ps₁, hdelete, hlinked, hmoves⟩
        rcases ih hlinked ((hmoves.live _).mpr hb) with ⟨t', ps', hrun, hlinked', hmoves'⟩
        refine ⟨t', ps', ?_, hlinked', hmoves.trans hmoves'⟩
        simp only [deleteFilterIn, hslot, hc, hin, hdelete, bind_eq_bind, bind_some, if_true]
        exact hrun
      · simp only [deleteFilterIn, hslot, hc, hin, bind_eq_bind, bind_some, if_false]
        exact ih h hb

theorem deleteFilter (h : Linked t ps []) (hb : t.pdn.Live (.dedicated k)) (pfidList : List UInt8) :
    Yields (.dedicated k) t ps (Classifier.deleteFilter t (.dedicated k) pfidList) := by
  rcases h.deleteFilterIn hb pfidList (.finRange maxFiltersPerTft) with
    ⟨t', ps', hrun, hlinked, hmoves⟩
  refine ⟨t', .success, ps', ?_, hlinked, hmoves⟩
  simp [Classifier.deleteFilter, hrun]

end Linked

/-- No filter of a bearer has one of the identifiers. -/
def NoneListed (t : Table) (b : Bearer) (pfidList : List UInt8) : Prop :=
  ∀ j, ∀ x ∈ t.pdn.slot b j, ∃ k ∈ identifierAt t.mem x, k ∉ pfidList

/-- `Qa_Delete_Filter` does nothing if there is no such filter. -/
theorem deleteFilter_none {pfidList : List UInt8} (h : NoneListed t b pfidList) :
    Classifier.deleteFilter t b pfidList = some (t, .success) := by
  have hloop (js) : deleteFilterIn b pfidList t js = some t := by
    induction js with
    | nil => rfl
    | cons j js ih =>
      cases hslot : t.pdn.slot b j with
      | none => simp [deleteFilterIn, hslot, ih]
      | some x =>
        rcases h j x hslot with ⟨k, hk, hnot⟩
        simp only [identifierAt, dataAt, Option.map_map] at hk
        rcases Option.map_eq_some_iff.mp hk with ⟨c, hc, hid⟩
        simp only [Function.comp_apply] at hid
        simp [deleteFilterIn, hslot, hc, hid, hnot, ih]
  simp [deleteFilter, hloop]

/-! ## Deleting bearers -/

/-- A bearer without filters. -/
def PdnClassifier.Bare (pdn : PdnClassifier) (b : Bearer) : Prop :=
  ∀ j, pdn.slot b j = none

instance (pdn : PdnClassifier) : DecidablePred pdn.Bare := fun b =>
  inferInstanceAs (Decidable (∀ j, pdn.slot b j = none))

/-- A PDN with another TFT of a dedicated bearer and another count. -/
def PdnClassifier.recount (pdn : PdnClassifier) (k : Fin maxDedicatedBearerPerPdn) (tft : Tft)
    (n : Nat) : PdnClassifier :=
  { pdn.setTft (.dedicated k) tft with numDedicatedBearers := n }

theorem PdnClassifier.tft_recount (pdn : PdnClassifier) (n : Nat) (b : Bearer) :
    (pdn.recount k tft n).tft b = if b = .dedicated k then tft else pdn.tft b := by
  rw [← tft_setTft]
  cases b <;> rfl

/-- The TFT keeps its slots, and only bearers without filters are counted or given up. -/
theorem Held.recount {n : Nat} (h : Held pdn xs)
    (htft : tft.packetFilters = (pdn.tft (.dedicated k)).packetFilters)
    (hcount : ∀ k' : Fin maxDedicatedBearerPerPdn,
      (k'.val < n ↔ k'.val < pdn.numDedicatedBearers) ∨ pdn.Bare (.dedicated k')) :
    Held (pdn.recount k tft n) xs := by
  refine h.of_iff fun b j x => ?_
  have hslot : (pdn.recount k tft n).slot b j = pdn.slot b j := by
    rw [slot, tft_recount]
    split_ifs with hb
    · rw [htft, ← hb]
      rfl
    · rfl
  rw [hslot]
  refine and_congr_left fun hx => ?_
  cases b with
  | default => exact .rfl
  | dedicated k' =>
    rcases hcount k' with hiff | hbare
    · exact hiff
    · rw [hbare j] at hx
      cases hx

namespace Linked

/-- The loop of `Qa_Bearer_Delete` on a dedicated bearer: as long as another bearer
has a filter, the list does not run empty. -/
theorem deleteSlots (h : Linked t ps []) (hb : t.pdn.Live (.dedicated k))
    (hother : t.pdn.Bare (.dedicated k) ∨
      ∃ b' j', t.pdn.Live b' ∧ b' ≠ .dedicated k ∧ t.pdn.slot b' j' ≠ none)
    (js : List (Fin maxFiltersPerTft)) :
    ∃ t' ps', Classifier.deleteSlots k t js = some t' ∧ Linked t' ps' [] ∧
      Moves (.dedicated k) t ps [] t' ps' [] ∧
      (∀ j, t'.pdn.slot (.dedicated k) j =
        if j ∈ js then none else t.pdn.slot (.dedicated k) j) := by
  induction js generalizing t ps with
  | nil => exact ⟨t, ps, rfl, h, .refl _ _ _ _, by simp⟩
  | cons j js ih =>
    cases hslot : t.pdn.slot (.dedicated k) j with
    | none =>
      rcases ih h hb hother with ⟨t', ps', hrun, hlinked, hmoves, hcleared⟩
      refine ⟨t', ps', ?_, hlinked, hmoves, ?_⟩
      · simp [deleteSlots, hslot, hrun]
      · intro i
        rw [hcleared i]
        by_cases hij : i = j
        · subst hij
          simp [hslot]
        · simp [hij]
    | some x =>
      rcases hother with hbare | ⟨b', j', hlive', hne, hfilter⟩
      · rw [hbare j] at hslot
        cases hslot
      · have hmem : x ∈ ps := by simpa using h.held.mem hb hslot
        rcases ne_none_iff_exists'.mp hfilter with ⟨y, hy⟩
        have hymem : y ∈ ps := by simpa using h.held.mem hlive' hy
        have hyx : y ≠ x := by
          rintro rfl
          exact hne (h.held.once b' j' (.dedicated k) j y hlive' hb hy hslot).1
        have hunchecked : false = true ∨ ∃ y ∈ ps, y ≠ x := .inr ⟨y, hymem, hyx⟩
        rcases h.detach hslot hmem hunchecked with
          ⟨t₁, ps₁, hunlink, hlinked, hmoves, hpdn, hslot₁, _, _⟩
        rcases hlinked.release ((hmoves.live _).mpr hb) hslot₁
          (t₁.pdn.tft (.dedicated k)).numFilters with ⟨hfree, hlinked₂, hmoves₂⟩
        have hmoved := hmoves.trans hmoves₂
        rcases ih hlinked₂ ((hmoved.live _).mpr hb)
          (.inr ⟨b', j', (hmoved.live _).mpr hlive', hne, by rw [hmoved.slot hne]; exact hfilter⟩)
          with ⟨t', ps', hrun, hlinked', hmoves', hcleared⟩
        refine ⟨t', ps', ?_, hlinked', hmoved.trans hmoves', ?_⟩
        · simp [deleteSlots, hslot, hunlink, hfree, hrun]
        · intro i
          rw [hcleared i, slot_setSlot, hpdn]
          by_cases hij : i = j
          · simp [hij]
          · simp only [hij, and_false, if_false, List.mem_cons, false_or]
            rfl

/-- `Qa_Bearer_Delete` on a dedicated bearer, if another bearer has a filter and no
filters are in the last counted entry once its count is taken away. -/
theorem deleteDedicatedBearer (h : Linked t ps []) (hb : t.pdn.Live (.dedicated k))
    (hother : t.pdn.Bare (.dedicated k) ∨
      ∃ b' j', t.pdn.Live b' ∧ b' ≠ .dedicated k ∧ t.pdn.slot b' j' ≠ none)
    (hlast : ∀ k' : Fin maxDedicatedBearerPerPdn, k'.val + 1 = t.pdn.numDedicatedBearers →
      k' = k ∨ t.pdn.Bare (.dedicated k')) :
    ∃ t' ps', Classifier.deleteDedicatedBearer t k = some t' ∧ Linked t' ps' [] ∧
      Isolated (.dedicated k) t ps t' ps' ∧ t'.pdn.tft (.dedicated k) = .zero ∧
      t'.pdn.numDedicatedBearers = t.pdn.numDedicatedBearers - 1 := by
  rcases h.deleteSlots hb hother (.finRange maxFiltersPerTft) with
    ⟨t₁, ps₁, hrun, hlinked, hmoves, hcleared⟩
  have hbare (j) : t₁.pdn.slot (.dedicated k) j = none := by
    rw [hcleared j, if_pos (mem_finRange j)]
  let pdn' := t₁.pdn.recount k .zero (t₁.pdn.numDedicatedBearers - 1)
  have hheld : Held pdn' ps₁ := by
    have hfull : Held t₁.pdn ps₁ := by simpa using hlinked.held
    refine hfull.recount (funext fun j => (hbare j).symm) fun k' => ?_
    by_cases heq : k'.val + 1 = t₁.pdn.numDedicatedBearers
    · rw [hmoves.num] at heq
      refine .inr fun j => ?_
      by_cases hk : k' = k
      · rw [hk, hbare]
      · rw [hmoves.slot (by simpa using hk), (hlast k' heq).resolve_left hk j]
    · exact .inl (by omega)
  refine ⟨⟨t₁.mem, pdn'⟩, ps₁, ?_, ?_, ?_, by rw [tft_recount, if_pos rfl], ?_⟩
  · simp only [Classifier.deleteDedicatedBearer, hrun, bind_eq_bind, bind_some,
      numDedicatedBearers_setTft]
    rfl
  · exact { hlinked with held := by simpa using hheld }
  · refine ⟨hmoves.isolated.keeps, ?_, hmoves.order, hmoves.data⟩
    intro b' hne
    rw [tft_recount, if_neg hne, hmoves.tfts b' hne]
  · change t₁.pdn.numDedicatedBearers - 1 = t.pdn.numDedicatedBearers - 1
    rw [hmoves.num]

end Linked

theorem freeList_chain {before : Option Ptr} {fuel : Nat}
    (hchain : Chain m.heap before ps none) (hnodup : ps.Nodup) (hfuel : ps.length ≤ fuel) :
    ∃ m', freeList fuel m ps.head? = some m' ∧ m'.brk = m.brk ∧
      ∀ y, m'.heap y = if y ∈ ps then none else m.heap y := by
  induction ps generalizing m before fuel with
  | nil =>
    refine ⟨m, ?_, rfl, by simp⟩
    cases fuel <;> rfl
  | cons p ps ih =>
    rcases hchain with ⟨c, hc, _, hnext, hrest⟩
    rw [nodup_cons] at hnodup
    rw [or_none] at hnext
    cases fuel with
    | zero => simp at hfuel
    | succ fuel =>
      have hrest' : Chain (m.drop p).heap (some p) ps none := by
        apply hrest.congr
        intro y hy
        apply update_of_ne
        rintro rfl
        exact hnodup.1 hy
      rcases ih hrest' hnodup.2 (by simpa using hfuel) with ⟨m', hrun, hbrk, hheap⟩
      refine ⟨m', ?_, hbrk, ?_⟩
      · simp [freeList, hc, Mem.kfree_eq hc, hnext, hrun]
      · intro y
        rw [hheap y]
        by_cases hy : y = p
        · subst hy
          simp [Mem.drop]
        · simp [Mem.drop, hy]

/-- A PDN after the deletion of its default bearer. -/
def PdnClassifier.emptied (pdn : PdnClassifier) : PdnClassifier :=
  { pdn with
    defaultBearer := .zero
    dedicatedBearer := fun k =>
      if k.val < pdn.numDedicatedBearers then .zero else pdn.dedicatedBearer k
    numDedicatedBearers := 0
    classifierTable := none }

/-- A routine runs to its end and leaves the PDN with the invariant. -/
def Ends (t : Table) (ps : List Ptr) (result : Option (Table × RetCode)) : Prop :=
  ∃ t' ret ps', result = some (t', ret) ∧ Linked t' ps' [] ∧ Keeps t.mem ps t'.mem ps'

theorem Yields.ends (h : Yields b t ps result) : Ends t ps result := by
  rcases h with ⟨t', ret, ps', hresult, hlinked, hmoves⟩
  exact ⟨t', ret, ps', hresult, hlinked, hmoves.isolated.keeps⟩

namespace Linked

/-- `Qa_Bearer_Delete` on the default bearer empties the PDN. -/
theorem deleteDefaultBearer (h : Linked t ps []) :
    ∃ t', Classifier.deleteDefaultBearer t = some t' ∧ Linked t' [] [] ∧
      Keeps t.mem ps t'.mem [] := by
  have hnodup : ps.Nodup := (nodup_append.mp h.nodup).1
  rcases freeList_chain h.chain hnodup (Nat.le_succ_of_le h.length_le) with
    ⟨m', hrun, hbrk, hheap⟩
  rw [← h.head] at hrun
  have hbare (b j x) (hlive : t.pdn.emptied.Live b) : t.pdn.emptied.slot b j ≠ some x := by
    cases b with
    | default => nofun
    | dedicated k => exact absurd hlive (Nat.not_lt_zero _)
  refine ⟨⟨m', t.pdn.emptied⟩, ?_, ?_, ?_⟩
  · simp [Classifier.deleteDefaultBearer, hrun, emptied]
  · refine ⟨trivial, rfl, .nil, nodup_nil, by simp, ⟨?_, ?_⟩, ?_⟩
    · intro x
      refine iff_of_false not_mem_nil ?_
      rintro ⟨b, j, hlive, hx⟩
      exact hbare b j x hlive hx
    · intro b j b' j' x hlive _ hx
      exact absurd hx (hbare b j x hlive)
    · intro y hy
      rw [hheap y]
      split_ifs with hmem
      · rfl
      · rw [hbrk] at hy
        exact h.fresh y hy
  · refine .of_frame hbrk ?_ (by simp)
    intro y hy
    rw [hheap y, if_neg hy]

end Linked

/-- The deletion of a dedicated bearer needs a filter of another bearer, and a last counted
entry that is the deleted one or has no filters. -/
def DedicatedDeleteSafe (pdn : PdnClassifier) (k : Fin maxDedicatedBearerPerPdn) : Prop :=
  (pdn.Bare (.dedicated k) ∨
    ∃ b' j', pdn.Live b' ∧ b' ≠ .dedicated k ∧ pdn.slot b' j' ≠ none) ∧
  ∀ k' : Fin maxDedicatedBearerPerPdn, k'.val + 1 = pdn.numDedicatedBearers →
    k' = k ∨ pdn.Bare (.dedicated k')

/-- What `Qa_Bearer_Delete` needs: nothing for the default bearer. -/
def DeleteSafe (pdn : PdnClassifier) (bearerId : UInt8) : Prop :=
  pdn.defaultBearer.epsBearerId = bearerId ∨ bearerId = 0 ∨
    ∀ k, pdn.findDedicated bearerId = some k → DedicatedDeleteSafe pdn k

theorem PdnClassifier.findDedicated_eq_some (h : pdn.findDedicated bearerId = some k) :
    pdn.Live (.dedicated k) ∧ (pdn.dedicatedBearer k).epsBearerId = bearerId := by
  have hk := find?_some h
  simp only [Bool.and_eq_true, decide_eq_true_eq, beq_iff_eq] at hk
  exact hk

namespace Linked

theorem bearerDelete (h : Linked t ps []) (hsafe : DeleteSafe t.pdn bearerId) :
    Ends t ps (Classifier.bearerDelete t bearerId) := by
  by_cases hdefault : t.pdn.defaultBearer.epsBearerId = bearerId ∨ bearerId = 0
  · rcases h.deleteDefaultBearer with ⟨t', hrun, hlinked, hkeeps⟩
    refine ⟨t', .success, [], ?_, hlinked, hkeeps⟩
    simp [Classifier.bearerDelete, hdefault, hrun]
  · cases hfind : t.pdn.findDedicated bearerId with
    | none =>
      refine ⟨t, .fail, ps, ?_, h, .refl _ _⟩
      simp [Classifier.bearerDelete, hdefault, hfind]
    | some k =>
      rcases (or_assoc.mpr hsafe).resolve_left hdefault k hfind with ⟨hother, hlast⟩
      have hlive := (findDedicated_eq_some hfind).1
      rcases h.deleteDedicatedBearer hlive hother hlast with
        ⟨t', ps', hrun, hlinked, hisolated, _, _⟩
      refine ⟨t', .success, ps', ?_, hlinked, hisolated.keeps⟩
      simp [Classifier.bearerDelete, hdefault, hfind, hrun]

end Linked

/-! ## Setting bearers up -/

/-- A registration needs memory and a default bearer whose other slots are null. -/
def RegisterSafe (t : Table) : Prop :=
  t.mem.free ≠ 0 ∧ ∀ j, j ≠ 0 → t.pdn.slot .default j = none

/-- A PDN after the registration of its default bearer. -/
def PdnClassifier.registered (pdn : PdnClassifier) (bearerId : UInt8) (x : Ptr) : PdnClassifier :=
  { pdn.setSlot .default 0 (some x) 1 with
    defaultBearer :=
      { (pdn.setSlot .default 0 (some x) 1).defaultBearer with epsBearerId := bearerId }
    numDedicatedBearers := 0
    matchAll := true
    classifierTable := some x }

namespace Linked

/-- The slots of a registered PDN: the match-all filter is alone. -/
theorem held_registered (hempty : ∀ j, j ≠ 0 → t.pdn.slot .default j = none) (bearerId : UInt8)
    (x : Ptr) : Held (t.pdn.registered bearerId x) [x] := by
  have hslot (j) : (t.pdn.registered bearerId x).slot .default j = if j = 0 then some x else none :=
      by
    have hset : (t.pdn.registered bearerId x).slot .default j =
        (t.pdn.setSlot .default 0 (some x) 1).slot .default j := rfl
    rw [hset, slot_setSlot]
    by_cases hj : j = 0
    · simp [hj]
    · simp [hj, hempty j hj]
  have hlive : ∀ k, ¬ (t.pdn.registered bearerId x).Live (.dedicated k) := fun k =>
    Nat.not_lt_zero k.val
  constructor
  · intro y
    rw [List.mem_singleton]
    constructor
    · rintro rfl
      exact ⟨.default, 0, trivial, by rw [hslot, if_pos rfl]⟩
    · rintro ⟨b, j, hb, hy⟩
      cases b with
      | default =>
        rw [hslot] at hy
        split_ifs at hy
        exact (some.inj hy).symm
      | dedicated k => exact absurd hb (hlive k)
  · intro b j b' j' y hb hb' hy hy'
    cases b with
    | dedicated k => exact absurd hb (hlive k)
    | default =>
      cases b' with
      | dedicated k => exact absurd hb' (hlive k)
      | default =>
        rw [hslot] at hy hy'
        split_ifs at hy hy' with hj hj'
        exact ⟨rfl, hj.trans hj'.symm⟩

/-- The bearer set-up of `QA_ProcessRegConf_Lte` and `QA_Process_PdnConn_Cnf`.  The
old list is given up, so all that matters of it is that fresh memory is fresh. -/
theorem registerDefaultBearer (hfresh : ∀ y, t.mem.brk ≤ y → t.mem.heap y = none)
    (hsafe : RegisterSafe t) (bearerId : UInt8) :
    Ends t ps (Classifier.registerDefaultBearer t bearerId) := by
  rcases hsafe with ⟨hmem, hempty⟩
  rcases t.mem.kmalloc_cases with ⟨hfree, _⟩ | ⟨_, m, hsome, hfill⟩
  · exact absurd hfree hmem
  · let f := PacketFilter.matchAll (t.mem.garbage t.mem.brk) bearerId
    have hcell : (t.mem.grow f).heap t.mem.brk = some ⟨f, none, none⟩ := update_self _ _ _
    have haim := Mem.aim_heap_self hcell none none
    have hframe (y) (hne : y ≠ t.mem.brk) :
        ((t.mem.grow f).aim t.mem.brk none none).heap y = t.mem.heap y :=
      (Mem.aim_heap_of_ne hne _ _).trans (update_of_ne hne _ _)
    refine ⟨⟨(t.mem.grow f).aim t.mem.brk none none, t.pdn.registered bearerId t.mem.brk⟩, .success,
      [t.mem.brk], ?_, ⟨?_, rfl, pairwise_singleton _ _, ?_, ?_, ?_, ?_⟩, ?_⟩
    · simp only [Classifier.registerDefaultBearer, hsome, hfill, bind_eq_bind, bind_some]
      rw [← bind_assoc, Mem.setNext_setPrev hcell, bind_some]
      rfl
    · exact ⟨_, haim, rfl, rfl, trivial⟩
    · simp
    · exact nofun
    · simpa using held_registered hempty bearerId t.mem.brk
    · intro y hy
      have hlt : t.mem.brk < y := hy
      rw [hframe y (Nat.ne_of_gt hlt)]
      exact hfresh y (Nat.le_of_lt hlt)
    · refine ⟨Nat.le_succ _, ?_, ?_⟩
      · intro y _ hlt
        exact hframe y (Nat.ne_of_lt hlt)
      · intro y hy
        rw [List.mem_singleton] at hy
        exact Or.inr (Nat.le_of_eq hy.symm)

end Linked

end LteModemKernel.Classifier
