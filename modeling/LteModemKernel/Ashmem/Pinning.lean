import LteModemKernel.Ashmem.Ranges
import LteModemKernel.Lib.Align

/-!
# Pinning refines page sets

For the user an area is a set of unpinned pages.  A request takes pages out of the set, puts pages
into it or asks about them, and the shrinker may take away the contents of unpinned pages.  The
theorem of this module relates every call of `ashmem_pin_unpin` to these sets.

The list that the shrinker walks through names the ranges that are not purged, of all areas.  Every
change of a list of ranges is a sequence of allocations, deletions and replacements
(`Moves`); each of them keeps both lists in step.

A request of length 0 stands for all pages from the offset on.  If the offset is the end of the
area there is none, and the last page is one less than the first: `ashmem_unpin` puts an empty
range into the list, and `ashmem_get_pin_status` finds pages in it that nobody unpinned.

Main results:

- Theorem `pinning_refines_page_sets`: the refinement in every run without requests for zero
  pages and without areas of more than 0xFFFFF000 bytes.
- Theorem `pinned_page_reported_unpinned`: a request for zero pages.
-/

namespace LteModemKernel.Ashmem

open Lib List Option UInt32 Range

variable {len offset : UInt32} {id : Nat}

/-! ## The two lists -/

/-- The list of the shrinker has the ranges of an area that are not purged; the ranges have
different names. -/
structure Listed (asma : Nat) (lru : Lru) (ranges : List Range) : Prop where
  mem_iff : ∀ id, (asma, id) ∈ lru.list ↔ ∃ range ∈ ranges, range.purged = false ∧ range.id = id
  nodup : lru.list.Nodup
  fresh : ∀ range ∈ ranges, range.id < lru.next
  distinct : (ranges.map Range.id).Nodup

variable {asma : Nat} {lru lru' lru'' : Lru} {range range' : Range}
  {ranges ranges' ranges'' before behind : List Range} {pgstart pgend : UInt32}

theorem Listed.perm (h : Listed asma lru ranges) (hperm : ranges.Perm ranges') :
    Listed asma lru ranges' where
  mem_iff id := by simp [h.mem_iff, hperm.mem_iff]
  nodup := h.nodup
  fresh r hr := h.fresh r (hperm.mem_iff.mpr hr)
  distinct := (hperm.map _).nodup_iff.mp h.distinct

/-- A range that is taken from the list of the shrinker. -/
theorem Listed.mem_erase (h : Listed asma lru (range :: ranges)) :
    (asma, id) ∈ lru.list.erase (asma, range.id) ↔ ∃ r ∈ ranges, r.purged = false ∧ r.id = id := by
  have hdistinct := (nodup_cons.mp h.distinct).1
  rw [h.nodup.mem_erase_iff, h.mem_iff]
  simp only [mem_cons, exists_eq_or_imp]
  constructor
  · rintro ⟨hne, ⟨-, rfl⟩ | hmem⟩
    · exact absurd rfl hne
    · exact hmem
  · rintro ⟨r, hr, hpurged, rfl⟩
    refine ⟨fun heq => hdistinct ?_, .inr ⟨r, hr, hpurged, rfl⟩⟩
    rw [← (Prod.mk.inj heq).2]
    exact mem_map_of_mem hr

/-- A change of the ranges of an area that keeps both lists in step, whatever ranges stand in
front. -/
structure Moves (asma : Nat) (lru lru' : Lru) (ranges ranges' : List Range) : Prop where
  listed : ∀ before, Listed asma lru (before ++ ranges) → Listed asma lru' (before ++ ranges')
  others : ∀ {a id}, a ≠ asma → ((a, id) ∈ lru'.list ↔ (a, id) ∈ lru.list)
  next_le : lru.next ≤ lru'.next

namespace Moves

theorem refl : Moves asma lru lru ranges ranges where
  listed _ h := h
  others _ := .rfl
  next_le := le_rfl

theorem trans (h : Moves asma lru lru' ranges ranges')
    (h' : Moves asma lru' lru'' ranges' ranges'') : Moves asma lru lru'' ranges ranges'' where
  listed before hlisted := h'.listed before (h.listed before hlisted)
  others ha := (h'.others ha).trans (h.others ha)
  next_le := h.next_le.trans h'.next_le

theorem append (h : Moves asma lru lru' ranges ranges') (before : List Range) :
    Moves asma lru lru' (before ++ ranges) (before ++ ranges') := by
  refine { h with listed := fun front hlisted => ?_ }
  rw [← append_assoc] at hlisted ⊢
  exact h.listed _ hlisted

theorem cons (h : Moves asma lru lru' ranges ranges') :
    Moves asma lru lru' (range :: ranges) (range :: ranges') :=
  h.append [range]

/-- A change of the first ranges. -/
theorem of_front (front front' : List Range)
    (h : ∀ {l}, Listed asma lru (front ++ l) → Listed asma lru' (front' ++ l))
    (hothers : ∀ {a id}, a ≠ asma → ((a, id) ∈ lru'.list ↔ (a, id) ∈ lru.list))
    (hnext : lru.next ≤ lru'.next) :
    Moves asma lru lru' (front ++ ranges) (front' ++ ranges) where
  listed _ hlisted := (h (hlisted.perm (perm_append_comm_assoc _ _ _))).perm
    (perm_append_comm_assoc _ _ _)
  others := hothers
  next_le := hnext

theorem others_erase {a : Nat} {list : List (Nat × Nat)} (ha : a ≠ asma) :
    (a, id) ∈ list.erase (asma, range.id) ↔ (a, id) ∈ list :=
  mem_erase_of_ne fun heq => ha (Prod.mk.inj heq).1

theorem del : Moves asma lru (lru.rangeDel asma range) (range :: ranges) ranges := by
  unfold Lru.rangeDel
  split
  · rename_i hpurged
    refine of_front [range] [] (fun h => ?_) (fun _ => .rfl) le_rfl
    exact {
      mem_iff := fun id => by rw [h.mem_iff]; simp [hpurged]
      nodup := h.nodup
      fresh := (forall_mem_cons.mp h.fresh).2
      distinct := (nodup_cons.mp h.distinct).2 }
  · refine of_front [range] [] (fun h => ?_) others_erase le_rfl
    exact {
      mem_iff := fun _ => h.mem_erase
      nodup := h.nodup.erase _
      fresh := (forall_mem_cons.mp h.fresh).2
      distinct := (nodup_cons.mp h.distinct).2 }

/-- Another range with the name and the mark of the first one, such as `range_shrink`
leaves. -/
theorem replace (hlist : lru'.list = lru.list) (hnext : lru'.next = lru.next)
    (hid : range'.id = range.id) (hpurged : range'.purged = range.purged) :
    Moves asma lru lru' (range :: ranges) (range' :: ranges) := by
  refine of_front [range] [range'] (fun h => ?_) (fun _ => by rw [hlist])
    hnext.ge
  exact {
    mem_iff := fun id => by rw [hlist, h.mem_iff]; simp [hid, hpurged]
    nodup := hlist ▸ h.nodup
    fresh := forall_mem_cons.mpr (by simpa only [hid, hnext] using forall_mem_cons.mp h.fresh)
    distinct := by simpa only [singleton_append, map_cons, hid] using h.distinct }

theorem shrink (range range' : Range) (hid : range'.id = range.id)
    (hpurged : range'.purged = range.purged) :
    Moves asma lru (lru.rangeShrink range range') (range :: ranges) (range' :: ranges) := by
  unfold Lru.rangeShrink
  split <;> exact replace rfl rfl hid hpurged

/-- `range_alloc` in front. -/
theorem alloc (purged : Bool) (pgstart pgend : UInt32) :
    Moves asma lru (lru.rangeAlloc asma purged pgstart pgend).2 ranges
      ((lru.rangeAlloc asma purged pgstart pgend).1 :: ranges) := by
  have hnew {l : List Range} (h : Listed asma lru l) : ∀ r ∈ l, r.id ≠ lru.next :=
    fun r hr => (h.fresh r hr).ne
  have hids {l : List Range} (h : Listed asma lru l) : lru.next ∉ l.map Range.id := fun hmem => by
    rcases mem_map.mp hmem with ⟨r, hr, hid⟩
    exact hnew h r hr hid
  have hfresh {l : List Range} (h : Listed asma lru l) :
      ∀ r ∈ (⟨lru.next, pgstart, pgend, purged⟩ : Range) :: l, r.id < lru.next + 1 :=
    forall_mem_cons.mpr ⟨Nat.lt_succ_self _, fun r hr => Nat.lt_succ_of_lt (h.fresh r hr)⟩
  unfold Lru.rangeAlloc
  split
  · rename_i hpurged
    refine of_front [] [_] (fun h => ?_) (fun _ => Iff.rfl) (Nat.le_succ _)
    exact {
      mem_iff := fun id => by rw [h.mem_iff]; simp [hpurged]
      nodup := h.nodup
      fresh := hfresh h
      distinct := nodup_cons.mpr ⟨hids h, h.distinct⟩ }
  · rename_i hpurged
    refine of_front [] [_] (fun h => ?_) (fun ha => ?_) (Nat.le_succ _)
    · refine {
        mem_iff := fun id => ?_
        nodup := nodup_append.mpr ⟨h.nodup, nodup_singleton _, ?_⟩
        fresh := hfresh h
        distinct := nodup_cons.mpr ⟨hids h, h.distinct⟩ }
      · rw [mem_append, h.mem_iff, or_comm]
        simp [hpurged, eq_comm (a := id)]
      · rintro entry hentry _ hnext rfl
        cases mem_singleton.mp hnext
        rcases (h.mem_iff _).mp hentry with ⟨r, hr, -, hid⟩
        exact hnew h r hr hid
    · simp [ha]

theorem mark :
    Moves asma lru (lru.del asma range) (range :: ranges)
      ({ range with purged := true } :: ranges) := by
  refine of_front [range] [_] (fun h => ?_) others_erase le_rfl
  exact {
    mem_iff := fun id => h.mem_erase.trans (by simp)
    nodup := h.nodup.erase _
    fresh := forall_mem_cons.mpr (forall_mem_cons.mp h.fresh)
    distinct := h.distinct }

/-- `ashmem_pin` keeps both lists in step. -/
theorem pinRanges :
    Moves asma lru (pinRanges true asma pgstart pgend ranges lru).2.1 ranges
      (pinRanges true asma pgstart pgend ranges lru).1 := by
  induction ranges generalizing lru with
  | nil => exact refl
  | cons range next ih =>
    rw [pinRanges]
    split
    · exact refl
    split
    · split
      · exact del.trans ih
      split
      · exact (shrink range { range with pgstart := pgend + 1 } rfl rfl).trans ih.cons
      split
      · exact (shrink range { range with pgend := pgstart - 1 } rfl rfl).trans ih.cons
      · exact (alloc range.purged (pgend + 1) range.pgend).trans
          (shrink range { range with pgend := pgstart - 1 } rfl rfl).cons
    · exact ih.cons

/-- `ashmem_unpin` keeps both lists in step. -/
theorem unpinRanges {fuel : Nat} {mem mark : Bool} {ret : Int} (hshape : Shape ranges)
    (hle : pgstart.toNat ≤ pgend.toNat)
    (h : unpinRanges mem asma fuel pgstart pgend mark ranges lru = some (ranges', lru', ret)) :
    Moves asma lru lru' ranges ranges' := by
  induction fuel generalizing pgstart pgend mark ranges lru with
  | zero => cases h
  | succ fuel ih =>
    rw [unpinRanges] at h
    have hspec := walk_spec hshape hle
    generalize walk pgstart pgend ranges = w at hspec h
    cases w with
    | held =>
      cases h
      exact refl
    | overlap before range behind =>
      rcases hspec with ⟨rfl, -⟩
      rcases hshape.apart with ⟨hne, hrest, -⟩
      have hlo := toNat_min range.pgstart pgstart
      have hhi := toNat_max range.pgend pgend
      exact (del.append before).trans (ih hrest (by omega) h)
    | place before behind =>
      rcases hspec with ⟨rfl, -⟩
      cases mem with
      | false =>
        cases h
        exact refl
      | true =>
        cases h
        exact (alloc mark pgstart pgend).append before

theorem delAll :
    Moves asma lru (ranges.foldl (fun lru range => lru.rangeDel asma range) lru) ranges [] := by
  induction ranges generalizing lru with
  | nil => exact refl
  | cons range ranges ih => exact del.trans ih

end Moves

/-! ## Requests -/

/-- The pages a request is about: from the offset on, up to the end of the area if the length
is 0. -/
def Requested (size offset len : UInt32) (page : Nat) : Prop :=
  offset.toNat ≤ page * 4096 ∧
    page * 4096 < if len = 0 then size.toNat else offset.toNat + len.toNat

/-- A request for whole pages of an area with a backing file. -/
def Accepts (area : Area) (offset len : UInt32) : Prop :=
  area.file = true ∧ offset.toNat % 4096 = 0 ∧ len.toNat % 4096 = 0 ∧
    offset.toNat + len.toNat ≤ (area.size.toNat + 4095) / 4096 * 4096

/-- The size can be rounded up to whole pages, and the request is not one of length 0 at the
end. -/
def requestGuard (s : State) : Label → Prop
  | .pinUnpin asma _ offset len => (s.area asma).size.toNat ≤ 0xFFFFF000 ∧
      ¬(len = 0 ∧ offset = pageAlign (s.area asma).size)
  | _ => True

instance (s : State) (label : Label) : Decidable (requestGuard s label) := by
  cases label <;> unfold requestGuard <;> infer_instance

theorem toNat_pageAlign {size : UInt32} (h : size.toNat ≤ 0xFFFFF000) :
    (pageAlign size).toNat = (size.toNat + 4095) / 4096 * 4096 := by
  have hmask : (0xFFFFF000 : UInt32).toNat = (2 ^ (32 - 12) - 1) <<< 12 := rfl
  have hones : (4095 : UInt32).toNat = 4095 := rfl
  have hsum : (size + 4095).toNat = size.toNat + 4095 := by
    rw [UInt32.toNat_add, hones]
    omega
  rw [pageAlign, UInt32.toNat_and, hmask, hsum]
  exact and_clearLow (by omega)

theorem or_and_low_eq_zero {a b : UInt32} :
    (a ||| b) &&& 0xFFF = 0 ↔ a.toNat % 4096 = 0 ∧ b.toNat % 4096 = 0 := by
  have hmask : (0xFFF : UInt32).toNat = 2 ^ 12 - 1 := rfl
  rw [← UInt32.toNat_inj, UInt32.toNat_and, UInt32.toNat_or, hmask]
  exact or_and_ones_eq_zero

/-- The length with 0 replaced by the distance to the end, which wraps for an offset behind it. -/
theorem toNat_len (size offset len : UInt32) :
    len.toNat = 0 ∧ (if len = 0 then pageAlign size - offset else len).toNat =
        (2 ^ 32 - offset.toNat + (pageAlign size).toNat) % 2 ^ 32 ∨
      len.toNat ≠ 0 ∧ (if len = 0 then pageAlign size - offset else len).toNat = len.toNat := by
  by_cases hlen : len = 0
  · rw [if_pos hlen]
    exact .inl ⟨congrArg UInt32.toNat hlen, UInt32.toNat_sub _ _⟩
  · rw [if_neg hlen]
    exact .inr ⟨fun hzero => hlen (UInt32.toNat_inj.mp hzero), rfl⟩

theorem max_sub_lt_iff : 0xFFFFFFFF - offset < len ↔ 2 ^ 32 ≤ offset.toNat + len.toNat := by
  have hmax : (0xFFFFFFFF : UInt32).toNat = 2 ^ 32 - 1 := rfl
  have hoffset := offset.toNat_lt
  rw [UInt32.lt_iff_toNat_lt, UInt32.toNat_sub, hmax]
  omega

theorem pages_iff (hoffset : offset.toNat % 4096 = 0) (hlen : len.toNat % 4096 = 0)
    (hpos : 0 < len.toNat) (hsum : offset.toNat + len.toNat < 2 ^ 32) :
    (offset / 4096).toNat ≤ (offset / 4096 + len / 4096 - 1).toNat ∧
      ∀ page, (offset / 4096).toNat ≤ page ∧ page ≤ (offset / 4096 + len / 4096 - 1).toNat ↔
        offset.toNat ≤ page * 4096 ∧ page * 4096 < offset.toNat + len.toNat := by
  have hpage : (4096 : UInt32).toNat = 4096 := rfl
  have hone : (1 : UInt32).toNat = 1 := rfl
  have hend : (offset / 4096 + len / 4096 - 1).toNat =
      offset.toNat / 4096 + len.toNat / 4096 - 1 := by
    rw [UInt32.toNat_sub, UInt32.toNat_add, UInt32.toNat_div, UInt32.toNat_div, hpage, hone]
    omega
  rw [hend, UInt32.toNat_div, hpage]
  constructor
  · omega
  · intro page
    omega

theorem State.pinUnpin_cases {s : State} {asma : Nat} {cmd : Cmd} (mem : Bool)
    (hguard : requestGuard s (.pinUnpin asma cmd offset len)) :
    (s.pinUnpin mem asma cmd offset len = some (s, -einval) ∧ ¬Accepts (s.area asma) offset len) ∨
      ∃ pgstart pgend, s.pinUnpin mem asma cmd offset len = s.onPages mem asma cmd pgstart pgend ∧
        Accepts (s.area asma) offset len ∧ pgstart.toNat ≤ pgend.toNat ∧
        ∀ page, Within pgstart pgend page ↔ Requested (s.area asma).size offset len page := by
  rcases hguard with ⟨hsize, hend⟩
  unfold pinUnpin Accepts Requested
  by_cases hfile : (s.area asma).file = true
  swap
  · left
    simp [hfile]
  simp only [hfile, Bool.not_true, Bool.false_eq_true, if_false, true_and]
  generalize (s.area asma).size = size at hsize hend ⊢
  have hlen := toNat_len size offset len
  have halign := toNat_pageAlign hsize
  have hzero : len = 0 ↔ len.toNat = 0 := UInt32.toNat_inj.symm
  rw [hzero, ← UInt32.toNat_inj] at hend
  have hoffset := offset.toNat_lt
  generalize (if len = 0 then pageAlign size - offset else len) = l at hlen ⊢
  by_cases hlow : (offset ||| l) &&& 0xFFF = 0
  swap
  · refine .inl ⟨by rw [if_pos hlow], ?_⟩
    rw [or_and_low_eq_zero] at hlow
    omega
  rw [if_neg (not_not.mpr hlow)]
  rw [or_and_low_eq_zero] at hlow
  by_cases hwrap : 0xFFFFFFFF - offset < l
  · refine .inl ⟨by rw [if_pos hwrap], ?_⟩
    rw [max_sub_lt_iff] at hwrap
    omega
  rw [if_neg hwrap]
  rw [max_sub_lt_iff] at hwrap
  have hsum : (offset + l).toNat = offset.toNat + l.toNat := by
    rw [UInt32.toNat_add]
    omega
  by_cases hbehind : pageAlign size < offset + l
  · refine .inl ⟨by rw [if_pos hbehind], ?_⟩
    rw [lt_iff_toNat_lt, hsum] at hbehind
    omega
  rw [if_neg hbehind]
  rw [lt_iff_toNat_lt, hsum] at hbehind
  rcases pages_iff hlow.1 hlow.2 (by omega) (by omega) with ⟨hle, hpages⟩
  refine .inr ⟨_, _, rfl, by omega, hle, fun page => ?_⟩
  rw [Within, hpages]
  split_ifs with hlen' <;> rw [hzero] at hlen' <;> omega

/-! ## The invariant of all areas -/

/-- The set of unpinned pages of an area. -/
def State.unpinnedPages (s : State) (asma : Nat) : Set Nat :=
  {page | Unpinned (s.area asma).unpinned page}

/-- The pages of an area in ranges that are marked as purged. -/
def State.purgedPages (s : State) (asma : Nat) : Set Nat :=
  {page | Purged (s.area asma).unpinned page}

variable {page : Nat}

namespace State

variable {s s' : State} {a : Nat} {area : Area}

theorem mem_unpinnedPages : page ∈ s.unpinnedPages a ↔ Unpinned (s.area a).unpinned page :=
  .rfl

theorem mem_purgedPages : page ∈ s.purgedPages a ↔ Purged (s.area a).unpinned page :=
  .rfl

@[simp]
theorem setArea_area_self : (s.setArea asma area lru).area asma = area :=
  Function.update_self _ _ _

theorem setArea_area_of_ne (h : a ≠ asma) : (s.setArea asma area lru).area a = s.area a :=
  Function.update_of_ne h _ _

@[simp]
theorem setArea_lru : (s.setArea asma area lru).lru = lru :=
  rfl

theorem forall_setArea {P : Area → Prop} (hself : P area) (hothers : ∀ a, P (s.area a)) (a : Nat) :
    P ((s.setArea asma area lru).area a) := by
  by_cases ha : a = asma
  · rw [ha, setArea_area_self]
    exact hself
  · rw [setArea_area_of_ne ha]
    exact hothers a

/-- What holds between the calls; about purged pages, if `p` says that no memory was missing. -/
structure Sound (p : Prop) (s : State) : Prop where
  shape : ∀ a, Shape (s.area a).unpinned
  file : ∀ a, (s.area a).unpinned ≠ [] → (s.area a).file = true
  truncated : p → ∀ a page, (s.area a).truncated page = true → page ∈ s.purgedPages a
  listed : ∀ a, Listed a s.lru (s.area a).unpinned

variable {p : Prop}

theorem sound_init : init.Sound p where
  shape _ := .nil
  file _ h := absurd rfl h
  truncated _ _ _ h := absurd h Bool.false_ne_true
  listed _ := ⟨by simp [init, Area.opened], nodup_nil, nofun, nodup_nil⟩

/-- A change of one area that keeps both lists in step. -/
theorem Sound.setArea (h : s.Sound p)
    (hmoves : Moves asma s.lru lru (s.area asma).unpinned area.unpinned)
    (hshape : Shape area.unpinned) (hfile : area.unpinned ≠ [] → area.file = true)
    (htruncated : p → ∀ page, area.truncated page = true → Purged area.unpinned page) :
    (s.setArea asma area lru).Sound p := by
  have hlisted := hmoves.listed [] (h.listed asma)
  -- every field is about one area: the changed one, or another one
  constructor
  case shape => exact forall_setArea (P := fun area => Shape area.unpinned) hshape h.shape
  case file => exact forall_setArea (P := fun area => area.unpinned ≠ [] → area.file) hfile h.file
  case truncated =>
    intro hp
    exact forall_setArea (P := fun area => ∀ page, area.truncated page → Purged area.unpinned page)
      (htruncated hp) (h.truncated hp)
  case listed =>
    intro a
    by_cases ha : a = asma
    · rw [ha, setArea_area_self]
      exact hlisted
    · rw [setArea_area_of_ne ha]
      exact {
        mem_iff := fun id => (hmoves.others ha).trans ((h.listed a).mem_iff id)
        nodup := hlisted.nodup
        fresh := fun range hrange => ((h.listed a).fresh range hrange).trans_le hmoves.next_le
        distinct := (h.listed a).distinct }

end State

/-! ## The shrinker -/

theorem Range.mark_pgstart (id : Nat) (range : Range) :
    (range.mark id).pgstart = range.pgstart := by
  unfold mark
  split <;> rfl

theorem Range.mark_pgend (id : Nat) (range : Range) : (range.mark id).pgend = range.pgend := by
  unfold mark
  split <;> rfl

theorem Range.mark_has (id : Nat) (range : Range) : (range.mark id).Has page ↔ range.Has page := by
  rw [Range.Has, mark_pgstart, mark_pgend, Range.Has]

theorem Range.mark_purged {range : Range} (h : range.purged = true ∨ range.id = id) :
    (range.mark id).purged = true := by
  unfold mark
  split
  · rfl
  · rename_i hne
    rcases h with h | h
    · exact h
    · exact absurd h hne

theorem shape_map_mark (h : Shape ranges) : Shape (ranges.map (mark id)) where
  nonempty range' hrange' := by
    rcases mem_map.mp hrange' with ⟨range, hrange, rfl⟩
    rw [mark_pgstart, mark_pgend]
    exact h.nonempty range hrange
  decreasing := by
    rw [pairwise_map]
    simp only [mark_pgstart, mark_pgend]
    exact h.decreasing

theorem unpinned_map_mark : Unpinned (ranges.map (mark id)) page ↔ Unpinned ranges page := by
  simp [Unpinned, exists_exists_and_eq_and, mark_has]

theorem map_mark_eq (hid : range.id = id) (h : ((before ++ range :: behind).map Range.id).Nodup) :
    (before ++ range :: behind).map (mark id) =
      before ++ { range with purged := true } :: behind ∧
    (before ++ range :: behind).find? (fun r => r.id == id) = some range := by
  rw [map_append, map_cons, nodup_append, nodup_cons] at h
  rcases h with ⟨-, ⟨hbehind, -⟩, hbefore⟩
  have hbefore' (r : Range) (hr : r ∈ before) : r.id ≠ id := fun heq =>
    hbefore r.id (mem_map_of_mem hr) range.id mem_cons_self (heq.trans hid.symm)
  have hbehind' (r : Range) (hr : r ∈ behind) : r.id ≠ id := fun heq =>
    hbehind (hid.trans heq.symm ▸ mem_map_of_mem hr)
  have hsame (l : List Range) (hl : ∀ r ∈ l, r.id ≠ id) : l.map (.mark id) = l := by
    have hmark : ∀ r ∈ l, .mark id r = r := fun r hr => if_neg (hl r hr)
    rw [List.map_congr_left hmark, List.map_id']
  constructor
  · rw [map_append, map_cons, hsame before hbefore', hsame behind hbehind', mark,
      if_pos hid]
  · have hnone : before.find? (fun r => r.id == id) = none :=
      find?_eq_none.mpr fun r hr => by simpa using hbefore' r hr
    rw [find?_append, hnone, none_or, find?_cons, beq_iff_eq.mpr hid]

namespace State

variable {s : State} {p : Prop}

/-- A round of the shrinker marks the range it truncates. -/
theorem Sound.purge {id : Nat} (h : s.Sound p) (hmem : (asma, id) ∈ s.lru.list) :
    ∃ s' range, s.purge asma id = some (s', range) ∧ s'.Sound p ∧
      s'.lru.list = s.lru.list.erase (asma, id) ∧
      ∀ a, s'.unpinnedPages a = s.unpinnedPages a := by
  rcases ((h.listed asma).mem_iff id).mp hmem with ⟨range, hrange, hpurged, hid⟩
  have hfile := h.file asma (ne_nil_of_mem hrange)
  have hshape := h.shape asma
  have hdistinct := (h.listed asma).distinct
  rcases append_of_mem hrange with ⟨before, behind, hranges⟩
  rcases map_mark_eq hid (hranges ▸ hdistinct) with ⟨hmap, hfind⟩
  rw [← hranges] at hmap hfind
  simp only [State.purge, hfind, hfile, if_true]
  refine ⟨_, _, rfl, h.setArea ?_ (shape_map_mark hshape) (fun _ => rfl) ?_, ?_, ?_⟩
  · rw [hmap, hranges]
    exact Moves.mark.append before
  · intro hp page hpage
    simp only [Bool.or_eq_true, Bool.and_eq_true, decide_eq_true_eq] at hpage
    rcases hpage with hpage | hpage
    · rcases h.truncated hp asma page hpage with ⟨r, hr, hmark, hhas⟩
      exact ⟨r.mark id, mem_map_of_mem hr, mark_purged (.inl hmark),
        (r.mark_has id).mpr hhas⟩
    · exact ⟨range.mark id, mem_map_of_mem hrange, mark_purged (.inr hid),
        (range.mark_has id).mpr hpage⟩
  · rw [← hid]
    rfl
  · intro a
    ext page
    rw [mem_unpinnedPages, mem_unpinnedPages]
    by_cases ha : a = asma
    · subst ha
      rw [setArea_area_self, unpinned_map_mark]
    · rw [setArea_area_of_ne ha]

theorem Sound.shrinkLoop {entries : List (Nat × Nat)} (nrToScan : Int32) (h : s.Sound p)
    (hentries : s.lru.list = entries) :
    ∃ s', shrinkLoop entries nrToScan s = some s' ∧ s'.Sound p ∧
      ∀ a, s'.unpinnedPages a = s.unpinnedPages a := by
  induction entries generalizing s nrToScan with
  | nil => exact ⟨s, rfl, h, fun _ => rfl⟩
  | cons entry next ih =>
    rcases entry with ⟨asma, id⟩
    rcases h.purge (hentries ▸ mem_cons_self) with ⟨s', range, hpurge, hsound, hlist, hpages⟩
    rw [hentries, erase_cons_head] at hlist
    rw [shrinkLoop, hpurge]
    simp only
    split
    · exact ⟨s', rfl, hsound, hpages⟩
    · rcases ih _ hsound hlist with ⟨s'', hrest, hsound', hpages'⟩
      exact ⟨s'', hrest, hsound', fun a => (hpages' a).trans (hpages a)⟩

theorem Sound.shrink (h : s.Sound p) (nrToScan : Int32) (fs : Bool) :
    ∃ s' ret, s.shrink nrToScan fs = some (s', ret) ∧ s'.Sound p ∧
      ∀ a, s'.unpinnedPages a = s.unpinnedPages a := by
  unfold State.shrink
  split
  · exact ⟨s, _, rfl, h, fun _ => rfl⟩
  · split
    · exact ⟨s, _, rfl, h, fun _ => rfl⟩
    · rcases h.shrinkLoop nrToScan rfl with ⟨s', hloop, hsound, hpages⟩
      rw [hloop]
      exact ⟨s', _, rfl, hsound, hpages⟩

end State

/-! ## Every call -/

/-- `ASHMEM_WAS_PURGED` -/
def wasPurged : Int := 1

/-- `ASHMEM_IS_UNPINNED` -/
def isUnpinned : Int := 0

/-- A call of `ashmem_pin_unpin` in terms of page sets. -/
structure Refines (s s' : State) (asma : Nat) (cmd : Cmd) (offset len : UInt32) (ret : Int) :
    Prop where
  accepted_iff : 0 ≤ ret ↔ Accepts (s.area asma) offset len
  rejected : ret < 0 → s' = s
  others : ∀ a ≠ asma, s'.unpinnedPages a = s.unpinnedPages a
  pin : cmd = .pin → 0 ≤ ret →
    s'.unpinnedPages asma =
      s.unpinnedPages asma \ {page | Requested (s.area asma).size offset len page} ∧
    (ret = wasPurged ↔
      ∃ page, Requested (s.area asma).size offset len page ∧ page ∈ s.purgedPages asma)
  unpin : cmd = .unpin → 0 ≤ ret →
    s'.unpinnedPages asma =
      s.unpinnedPages asma ∪ {page | Requested (s.area asma).size offset len page}
  status : cmd = .getPinStatus → 0 ≤ ret → s' = s ∧
    (ret = isUnpinned ↔
      ∃ page, Requested (s.area asma).size offset len page ∧ page ∈ s.unpinnedPages asma)

namespace State

variable {s s' : State} {mem : Bool} {cmd : Cmd} {ret : Int} {p : Prop} {area : Area}

theorem unpinnedPages_setArea_self :
    (s.setArea asma area lru).unpinnedPages asma = {page | Unpinned area.unpinned page} := by
  rw [unpinnedPages, setArea_area_self]

theorem unpinnedPages_setArea_of_ne {a : Nat} (ha : a ≠ asma) :
    (s.setArea asma area lru).unpinnedPages a = s.unpinnedPages a := by
  rw [unpinnedPages, setArea_area_of_ne ha]
  rfl

theorem Sound.onPages (h : s.Sound p) (hp : p → mem = true) (hle : pgstart.toNat ≤ pgend.toNat)
    (haccepts : Accepts (s.area asma) offset len) (hpages : ∀ page, Within pgstart pgend page ↔
      Requested (s.area asma).size offset len page) :
    ∃ s' ret, s.onPages mem asma cmd pgstart pgend = some (s', ret) ∧ s'.Sound p ∧
      (mem = true → Refines s s' asma cmd offset len ret) := by
  have hshape := h.shape asma
  cases cmd with
  | pin =>
    rcases pinRanges_mem mem asma hshape hle with ⟨last, hlast, heq⟩
    have hlast' (hmem : mem = true) : last = pgend :=
      hlast.resolve_right fun hfalse => absurd (hmem.symm.trans hfalse.1) (by decide)
    have hle' : pgstart.toNat ≤ last.toNat := by
      rcases hlast with rfl | ⟨-, r, -, -, hend, rfl⟩
      · exact hle
      · exact hle.trans (lt_iff_toNat_lt.mp hend).le
    rcases pinRanges_spec asma s.lru hshape hle' with ⟨hpinned, hret⟩
    simp only [onPages, heq]
    refine ⟨_, _, rfl, h.setArea .pinRanges hpinned.shape (fun _ => haccepts.1) ?_, ?_⟩
    · intro hp' page hpage
      simp only [Bool.and_eq_true, Bool.not_eq_true', Bool.and_eq_false_iff,
        decide_eq_false_iff_not, ← not_and_or] at hpage
      cases hlast' (hp hp')
      exact (hpinned.covers_iff true page).mpr ⟨h.truncated hp' asma page hpage.1, hpage.2⟩
    · intro hmem
      cases hlast' hmem
      refine {
        accepted_iff := iff_of_true (by split <;> decide) haccepts
        rejected := fun hneg => absurd hneg (by split <;> decide)
        others := fun a ha => unpinnedPages_setArea_of_ne ha
        pin := fun _ _ => ⟨?_, ?_⟩
        unpin := by simp
        status := by simp }
      · ext page
        rw [unpinnedPages_setArea_self, Set.mem_sdiff, Set.mem_ofPred_eq, Set.mem_ofPred_eq,
          ← hpages]
        exact hpinned.unpinned_iff
      · simp only [mem_purgedPages, ← hpages, Purged]
        rw [← any_meets_iff purged hshape hle, ← hret]
        cases (pinRanges true asma pgstart pgend (s.area asma).unpinned s.lru).2.2 <;> decide
  | unpin =>
    rcases unpinRanges_spec mem asma s.lru hshape hle
      (Nat.lt_succ_self _) (fun hmark => absurd hmark Bool.false_ne_true) with
      ⟨ranges', lru', ret, heq, hshape', hunpins⟩
    refine ⟨s.setArea asma { s.area asma with unpinned := ranges' } lru', ret, ?_, h.setArea
      (.unpinRanges hshape hle heq) hshape' (fun _ => haccepts.1) (fun hp' page hpage =>
        (hunpins (hp hp')).2.purged page (.inl (h.truncated hp' asma page hpage))), ?_⟩
    · simp [onPages, heq]
    · intro hmem
      rcases hunpins hmem with ⟨rfl, hadds⟩
      refine {
        accepted_iff := iff_of_true le_rfl haccepts
        rejected := fun hneg => absurd hneg (lt_irrefl 0)
        others := fun a ha => unpinnedPages_setArea_of_ne ha
        pin := by simp
        unpin := fun _ _ => ?_
        status := by simp }
      ext page
      rw [unpinnedPages_setArea_self, Set.mem_union, Set.mem_ofPred_eq, Set.mem_ofPred_eq, ← hpages]
      exact hadds.unpinned_iff page
  | getPinStatus =>
    refine ⟨s, _, rfl, h, fun _ => ?_⟩
    refine {
      accepted_iff := iff_of_true (by split <;> decide) haccepts
      rejected := fun _ => rfl
      others := fun _ _ => rfl
      pin := by simp
      unpin := by simp
      status := fun _ _ => ⟨rfl, ?_⟩ }
    simp only [mem_unpinnedPages, ← hpages]
    rw [← getPinStatus_iff hshape hle]
    cases getPinStatus pgstart pgend (s.area asma).unpinned <;> decide

theorem Sound.pinUnpin (h : s.Sound p) (hp : p → mem = true)
    (hguard : requestGuard s (.pinUnpin asma cmd offset len)) :
    ∃ s' ret, s.pinUnpin mem asma cmd offset len = some (s', ret) ∧ s'.Sound p ∧
      (mem = true → Refines s s' asma cmd offset len ret) := by
  rcases pinUnpin_cases mem hguard with
    ⟨heq, hrefused⟩ | ⟨pgstart, pgend, heq, haccepts, hle, hpages⟩
  · have hneg : ¬(0 : Int) ≤ -einval := by decide
    refine ⟨s, -einval, heq, h, fun _ => ?_⟩
    exact {
      accepted_iff := iff_of_false hneg hrefused
      rejected := fun _ => rfl
      others := fun _ _ => rfl
      pin := fun _ hret => absurd hret hneg
      unpin := fun _ hret => absurd hret hneg
      status := fun _ hret => absurd hret hneg }
  · rw [heq]
    exact h.onPages hp hle haccepts hpages

theorem Sound.execMem {label : Label} (h : s.Sound p) (hp : p → mem = true)
    (hguard : requestGuard s label) (hexec : s.execMem mem label = some (s', ret)) :
    s'.Sound p := by
  cases label with
  | pinUnpin asma cmd offset len =>
    rcases h.pinUnpin hp hguard with ⟨s'', ret', hcall, hsound, -⟩
    cases hcall.symm.trans hexec
    exact hsound
  | shrink nrToScan fs =>
    rcases h.shrink nrToScan fs with ⟨s'', ret', hcall, hsound, -⟩
    cases hcall.symm.trans hexec
    exact hsound
  | purgeAllCaches =>
    rcases h.shrink s.lru.count.toInt32 true with ⟨s'', ret', hcall, hsound, -⟩
    rcases map_eq_some_iff.mp hexec with ⟨⟨t, ret''⟩, hshrink, ⟨⟩⟩
    cases hcall.symm.trans hshrink
    exact hsound
  | setSize asma _ | mmap asma =>
    simp only [State.execMem, State.exec, State.setSize, State.mmap, Option.some.injEq] at hexec
    split at hexec
    · cases hexec
      exact h
    · cases hexec
      refine h.setArea .refl (h.shape asma) ?_ fun hp => h.truncated hp asma
      first | exact h.file asma | exact fun _ => rfl
  | release asma =>
    cases hexec
    exact h.setArea .delAll .nil (fun hne => absurd rfl hne)
      fun _ page hpage => absurd hpage Bool.false_ne_true

theorem sound_of_reachable (hs : system.ReachableUnder requestGuard s) : s.Sound True := by
  refine TransitionSystem.ReachableUnder.invariant (P := State.Sound True) ?_ ?_ hs
  · rintro s rfl
    exact sound_init
  · rintro s label s' h hguard ⟨ret, hexec⟩
    exact h.execMem (fun _ => rfl) hguard (by cases label <;> exact hexec)

end State

/-- In every run without requests of length 0 at the end of an area and without requests on an
area of more than 0xFFFFF000 bytes: the ranges of every area go down without overlap; the pages
that the shrinker truncated since they were unpinned are in purged ranges; every request returns
and does to the sets of pages what it stands for; and the shrinker returns and leaves the sets of
unpinned pages as they are. -/
theorem pinning_refines_page_sets {s : State} (hs : system.ReachableUnder requestGuard s) :
    (∀ asma, Shape (s.area asma).unpinned) ∧
    (∀ asma page, (s.area asma).truncated page = true → page ∈ s.purgedPages asma) ∧
    (∀ asma cmd offset len, requestGuard s (.pinUnpin asma cmd offset len) →
      ∃ s' ret, s.exec (.pinUnpin asma cmd offset len) = some (s', ret) ∧
        Refines s s' asma cmd offset len ret) ∧
    ∀ nrToScan fs, ∃ s' ret, s.exec (.shrink nrToScan fs) = some (s', ret) ∧
      ∀ asma, s'.unpinnedPages asma = s.unpinnedPages asma := by
  have hsound := State.sound_of_reachable hs
  refine ⟨hsound.shape, hsound.truncated trivial, ?_, ?_⟩
  · intro asma cmd offset len hguard
    rcases hsound.pinUnpin (fun _ => rfl) hguard with ⟨s', ret, hexec, -, hrefines⟩
    exact ⟨s', ret, hexec, hrefines rfl⟩
  · intro nrToScan fs
    rcases hsound.shrink nrToScan fs with ⟨s', ret, hexec, -, hpages⟩
    exact ⟨s', ret, hexec, hpages⟩

/-- Four pages of an area are unpinned and purged, and one of them in the middle is pinned; the
rest stays purged. -/
theorem pinning_refines_page_sets_hole :
    ∃ s, system.ReachableUnder requestGuard s ∧
      (s.area 0).unpinned = [⟨3, 2, 3, true⟩, ⟨2, 0, 0, true⟩] ∧
      (∀ asma, Shape (s.area asma).unpinned) ∧
      ∃ s' ret, s.exec (.pinUnpin 0 .pin 0 0) = some (s', ret) ∧ Refines s s' 0 .pin 0 0 ret := by
  have hstart : system.ReachableUnder requestGuard .init := .init rfl
  rcases hstart.exists_observed_of (fun _ _ _ => TransitionSystem.exists_of_map_fst)
    (P := fun s : State => (s.area 0).unpinned = [⟨3, 2, 3, true⟩, ⟨2, 0, 0, true⟩] ∧
      requestGuard s (.pinUnpin 0 .pin 0 0))
    [.setSize 0 0x4000, .mmap 0, .pinUnpin 0 .unpin 0 0x1000, .pinUnpin 0 .unpin 0x2000 0x2000,
      .pinUnpin 0 .unpin 0 0, .shrink 1 true, .pinUnpin 0 .pin 0x1000 0x1000]
    (by decide +kernel) with ⟨s, hs, hranges, hguard⟩
  have hrefines := pinning_refines_page_sets hs
  exact ⟨s, hs, hranges, hrefines.1, hrefines.2.2.1 0 .pin 0 0 hguard⟩

/-- A request of length 0 at the end of an area of one page puts an empty range into its list, and
then its only page, which nobody unpinned, is reported as unpinned. -/
theorem pinned_page_reported_unpinned :
    ∃ s, system.Reachable s ∧ (s.area 0).unpinned = [⟨0, 1, 0, false⟩] ∧
      ¬Shape (s.area 0).unpinned ∧ s.unpinnedPages 0 = ∅ ∧
      (s.exec (.pinUnpin 0 .getPinStatus 0 0x1000)).map Prod.snd = some isUnpinned := by
  have hstart : system.Reachable .init := .start rfl
  rcases TransitionSystem.ReachableUnder.exists_observed_of
      (fun _ _ _ => TransitionSystem.exists_of_map_fst)
    (P := fun s : State => (s.area 0).unpinned = [⟨0, 1, 0, false⟩] ∧
      (s.exec (.pinUnpin 0 .getPinStatus 0 0x1000)).map Prod.snd = some isUnpinned)
    [.setSize 0 0x1000, .mmap 0, .pinUnpin 0 .unpin 0x1000 0]
    hstart ⟨.trivial _ _, by decide +kernel⟩ with ⟨s, hs, hranges, hstatus⟩
  refine ⟨s, hs, hranges, ?_, ?_, hstatus⟩
  · rw [hranges, shape_singleton]
    decide
  · ext page
    rw [State.mem_unpinnedPages, hranges]
    refine iff_of_false ?_ (Set.notMem_empty page)
    rintro ⟨range, hrange, hlo, hhi⟩
    cases mem_singleton.mp hrange
    exact absurd (hlo.trans hhi) (by decide)

end LteModemKernel.Ashmem
