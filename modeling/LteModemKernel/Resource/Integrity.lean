import LteModemKernel.Lib.Intervals
import LteModemKernel.Resource.Model

/-!
# Integrity of the resource tree

The children of every resource follow each other in the order of their addresses without
overlap, lie inside it, and point back to it.  The invariant `Forest.Valid` is a
recursion over the chain of siblings with a running lower bound: the address behind the
sibling before.  Every function changes the chain of children of one resource; what lies
outside of that resource is not affected (`Tree.update_spec`).

`adjust_resource` computes the new end as `start + size - 1`.  For a size of 0, or
where the sum wraps, the end lies in front of the start, and no check refuses it.

Main results:

- Theorem `resource_tree_integrity`: in every run in which the ranges given to
  `adjust_resource` are not empty and do not wrap, every tree reached has the
  integrity, every call returns, and a call that fails leaves the tree as it is.
- Theorem `adjusted_to_empty_range`: without that condition a child ends before it
  starts.
-/

namespace LteModemKernel.Resource

open Lib List UInt32 Forest

/-! ## The invariant of a chain of siblings -/

/-- The resource may stand below `parent`, at `lo` or behind. -/
structure Res.Fits (parent : Res) (lo : Nat) (res : Res) : Prop where
  back : res.parent = some parent.id
  lo_le : lo ≤ res.start.toNat
  le : res.start.toNat ≤ res.stop.toNat
  stop_le : res.stop.toNat ≤ parent.stop.toNat

variable {n : Res × Forest} {ε α : Type*}

namespace Forest

/-- A chain of children of `parent` at `lo` or behind, with everything below. -/
def Valid : Res → Nat → Forest → Prop
  | _, _, nil => True
  | parent, lo, cons res child sibling =>
    Res.Fits parent lo res ∧ Valid res res.start.toNat child ∧
      Valid parent (res.stop.toNat + 1) sibling

variable {parent parent' root new res : Res} {lo lo' : Nat} {f f' child sibling : Forest}

@[simp]
theorem valid_nil : Valid parent lo nil :=
  trivial

@[simp]
theorem ids_nil : ids nil = [] :=
  rfl

@[simp]
theorem ids_cons : ids (cons res child sibling) = res.id :: (child.ids ++ sibling.ids) := by
  rw [ids, nodes, map_cons, map_append]
  rfl

section

variable (h : Valid parent lo f)
include h

theorem Valid.start_at (hhead : ∀ r ∈ f.row.head?, lo' ≤ r.start.toNat) : Valid parent lo' f := by
  cases f with
  | nil => trivial
  | cons res child sibling =>
    have hfits : Res.Fits parent lo' res := { h.1 with lo_le := hhead res rfl }
    exact ⟨hfits, h.2⟩

/-- The lower bound may be moved down. -/
theorem Valid.mono (hle : lo' ≤ lo) : Valid parent lo' f := by
  apply h.start_at
  intro r hr
  cases f with
  | nil => cases hr
  | cons res child sibling =>
    cases hr
    exact hle.trans h.1.lo_le

/-- The parent may be changed in its range, as long as the chain stays inside. -/
theorem Valid.rebound (hid : parent'.id = parent.id)
    (hinside : ∀ r ∈ f.row, lo' ≤ r.start.toNat ∧ r.stop.toNat ≤ parent'.stop.toNat) :
    Valid parent' lo' f := by
  induction f generalizing lo lo' with
  | nil => trivial
  | cons res child sibling _ ih =>
    rcases h with ⟨hfits, hchild, hsibling⟩
    have hres := hinside res mem_cons_self
    refine ⟨⟨hid ▸ hfits.back, hres.1, hfits.le, hres.2⟩, hchild, ?_⟩
    have hmono : Valid parent' lo' sibling :=
      ih hsibling fun r hr => hinside r (mem_cons_of_mem _ hr)
    apply hmono.start_at
    intro r hr
    cases sibling with
    | nil => cases hr
    | cons next _ _ =>
      cases hr
      exact hsibling.1.lo_le

theorem Valid.reparent (p : Option Id) : Valid { parent with parent := p } lo f := by
  induction f generalizing lo with
  | nil => trivial
  | cons res child sibling _ ih => exact ⟨{ h.1 with }, h.2.1, ih h.2.2⟩

/-- The chain of children of every resource in it is such a chain. -/
theorem Valid.of_mem (hn : n ∈ f.nodes) : Valid n.1 n.1.start.toNat n.2 := by
  induction f generalizing parent lo with
  | nil => cases hn
  | cons res child sibling ihc ihs =>
    rcases h with ⟨-, hchild, hsibling⟩
    rcases mem_cons.mp hn with rfl | hn
    · exact hchild
    · rcases mem_append.mp hn with hn | hn
      · exact ihc hchild hn
      · exact ihs hsibling hn

/-- The ranges of a chain are ordered intervals. -/
theorem Valid.ordered (hlo : lo ≤ parent.stop.toNat + 1) :
    Ordered (fun r : Res => r.start.toNat) (fun r => r.stop.toNat + 1) lo f.row
      (parent.stop.toNat + 1) := by
  induction f generalizing lo with
  | nil => exact hlo
  | cons res child sibling _ ih =>
    rcases h with ⟨hfits, -, hsibling⟩
    exact ⟨hfits.lo_le, Nat.lt_succ_of_le hfits.le, ih hsibling (Nat.succ_le_succ hfits.stop_le)⟩

/-- Every resource of a chain points back to the parent. -/
theorem Valid.parent_eq : ∀ r ∈ f.row, r.parent = some parent.id := by
  induction f generalizing lo with
  | nil => intro r hr; cases hr
  | cons res child sibling _ ih =>
    intro r hr
    rcases mem_cons.mp hr with rfl | hr
    · exact h.1.back
    · exact ih h.2.2 r hr

theorem Valid.lo_le : ∀ r ∈ f.row, lo ≤ parent.stop.toNat := by
  intro r hr
  cases f with
  | nil => cases hr
  | cons res child sibling =>
    exact h.1.lo_le.trans (h.1.le.trans h.1.stop_le)

end

end Forest

/-! ## The functions on one chain of children -/

theorem map_eq_ok {β : Type*} {f : α → β} {x : Except ε α} {y : β} :
    x.map f = .ok y ↔ ∃ a, x = .ok a ∧ f a = y := by
  cases x <;> simp [Except.map]

theorem map_eq_error {β : Type*} {f : α → β} {x : Except ε α} {e : ε} :
    x.map f = .error e ↔ x = .error e := by
  cases x <;> simp [Except.map]

theorem toOption_eq_some {x : Except ε α} {a : α} : x.toOption = some a ↔ x = .ok a := by
  cases x <;> simp [Except.toOption]

variable {parent root new res conflict : Res} {lo fuel : Nat}
  {f f' child sibling children children' : Forest} {old : Id} {start stop : UInt32} {news : List Id}

/-- A new resource of the range of `new` between `lo` and the end of the parent. -/
structure Res.Between (parent : Res) (lo : Nat) (new : Res) : Prop where
  lo_le : lo ≤ new.start.toNat
  le : new.start.toNat ≤ new.stop.toNat
  stop_le : new.stop.toNat ≤ parent.stop.toNat

theorem Res.between_of_not_outside (h : parent.outside new = false) :
    Res.Between parent parent.start.toNat new := by
  simp only [Res.outside, Bool.or_eq_false_iff, decide_eq_false_iff_not, UInt32.not_lt,
    UInt32.le_iff_toNat_le] at h
  exact ⟨h.1.2, h.1.1, h.2⟩

theorem Res.Between.fits (h : Res.Between parent lo new) :
    Res.Fits parent lo { new with parent := some parent.id } :=
  ⟨rfl, h.lo_le, h.le, h.stop_le⟩

/-- What an insertion of `new` leaves: a chain in order, with one more name. -/
def Res.Inserted (parent : Res) (lo : Nat) (new : Res) (f f' : Forest) : Prop :=
  f'.Valid parent lo ∧ f'.ids.Perm (new.id :: f.ids)

/-- A `new` without children in front of a chain that starts behind its end. -/
theorem Res.Between.front (hnew : Res.Between parent lo new) (h : f.Valid parent lo)
    (hlt : ∀ r ∈ f.row.head?, new.stop < r.start) :
    parent.Inserted lo new f (.cons { new with parent := some parent.id } .nil f) := by
  refine ⟨⟨hnew.fits, valid_nil, h.start_at ?_⟩, by simp⟩
  intro r hr
  exact lt_iff_toNat_lt.mp (hlt r hr)

/-- An insertion behind the first resource of a chain. -/
theorem Res.Inserted.behind (hrest : parent.Inserted (res.stop.toNat + 1) new sibling f')
    (h : (cons res child sibling).Valid parent lo) :
    parent.Inserted lo new (cons res child sibling) (cons res child f') := by
  refine ⟨⟨h.1, h.2.1, hrest.1⟩, ?_⟩
  rw [ids_cons, ids_cons]
  refine .trans (.cons _ (hrest.2.append_left _)) ?_
  exact (Perm.cons _ perm_middle).trans (Perm.swap _ _ _)

/-- What the loop of `__request_resource` leaves. -/
theorem link_spec (hlink : link root new f = .ok f') (hnew : Res.Between root lo new)
    (h : f.Valid root lo) : root.Inserted lo new f f' := by
  induction f generalizing lo f' with
  | nil =>
    cases hlink
    exact hnew.front h nofun
  | cons tmp child sibling _ ih =>
    unfold link at hlink
    split at hlink
    · rename_i hlt
      cases hlink
      exact hnew.front h (by simpa [row] using hlt)
    · split at hlink
      · rename_i hpass
        rcases map_eq_ok.mp hlink with ⟨sibling', hsibling', rfl⟩
        exact .behind (ih hsibling' ⟨lt_iff_toNat_lt.mp hpass, hnew.le, hnew.stop_le⟩ h.2.2) h
      · cases hlink

/-- A chain without one of its resources. -/
theorem release_spec (hrelease : f.release old = some f') (h : f.Valid parent lo) :
    f'.Valid parent lo ∧ f'.ids.Sublist f.ids := by
  induction f generalizing lo f' with
  | nil => cases hrelease
  | cons tmp child sibling _ ih =>
    unfold release at hrelease
    rw [ids_cons]
    split at hrelease
    · cases hrelease
      have hlo := h.1.lo_le
      have hle := h.1.le
      refine ⟨h.2.2.mono (by omega), ?_⟩
      exact ((sublist_append_right _ _).trans (sublist_cons_self _ _))
    · rcases Option.map_eq_some_iff.mp hrelease with ⟨sibling', hsibling', rfl⟩
      rcases ih hsibling' h.2.2 with ⟨hvalid, hsub⟩
      refine ⟨⟨h.1, h.2.1, hvalid⟩, ?_⟩
      rw [ids_cons]
      exact .cons_cons _ (hsub.append_left _)

theorem swallow_spec {run rest : Forest} (hswallow : swallow new f = .ok (run, rest))
    (h : f.Valid root lo) :
    run.Valid new lo ∧ (∀ r ∈ run.row, new.start.toNat ≤ r.start.toNat) ∧
      rest.Valid root (new.stop.toNat + 1) ∧ run.ids ++ rest.ids = f.ids := by
  induction f generalizing lo run rest with
  | nil =>
    cases hswallow
    exact ⟨trivial, nofun, trivial, rfl⟩
  | cons next child sibling _ ih =>
    rcases h with ⟨hfits, hchild, hsibling⟩
    unfold swallow at hswallow
    split at hswallow
    · cases hswallow
    · rename_i hinside
      simp only [Bool.or_eq_true, decide_eq_true_eq, not_or, UInt32.not_lt,
        UInt32.le_iff_toNat_le] at hinside
      have hnext : Res.Fits new lo { next with parent := some new.id } :=
        ⟨rfl, hfits.lo_le, hfits.le, hinside.2⟩
      have hstart : ∀ r ∈ [{ next with parent := some new.id }],
          new.start.toNat ≤ r.start.toNat := forall_mem_singleton.mpr hinside.1
      have hbelow : child.Valid { next with parent := some new.id } next.start.toNat :=
        hchild.reparent _
      cases sibling with
      | nil =>
        cases hswallow
        exact ⟨⟨hnext, hbelow, trivial⟩, hstart, trivial, by simp⟩
      | cons second child' sibling' =>
        simp only at hswallow
        split at hswallow
        · rename_i hlt
          cases hswallow
          refine ⟨⟨hnext, hbelow, trivial⟩, hstart, hsibling.start_at ?_, by simp⟩
          rintro r ⟨⟩
          exact UInt32.lt_iff_toNat_lt.mp hlt
        · rcases map_eq_ok.mp hswallow with ⟨⟨run', rest'⟩, hparts, ⟨⟩⟩
          rcases ih hparts hsibling with ⟨hrun, hruns, hrest, hids⟩
          refine ⟨⟨hnext, hbelow, hrun⟩, forall_mem_cons.mpr ⟨hinside.1, hruns⟩, hrest, ?_⟩
          rw [ids_cons, ids_cons, cons_append, append_assoc, hids]

/-- What `__insert_resource` leaves where siblings become children. -/
theorem adopt_spec (hadopt : adopt parent new f = .ok f') (hnew : Res.Between parent lo new)
    (h : f.Valid parent lo) : parent.Inserted lo new f f' := by
  rcases map_eq_ok.mp hadopt with ⟨⟨run, rest⟩, hswallow, rfl⟩
  rcases swallow_spec hswallow h with ⟨hrun, hstart, hrest, hids⟩
  refine ⟨⟨hnew.fits, ?_, hrest⟩, ?_⟩
  · refine hrun.rebound rfl fun r hr => ⟨hstart r hr, ?_⟩
    exact Nat.le_of_lt_succ ((hrun.ordered (Nat.le_succ_of_le (hrun.lo_le r hr))).of_mem hr).2.2
  · rw [ids_cons, hids]

/-- What the loops of `__insert_resource` leave. -/
theorem descend_spec (hdescend : descend new parent f = .ok f')
    (hnew : Res.Between parent lo new) (h : f.Valid parent lo) : parent.Inserted lo new f f' := by
  induction f generalizing parent lo f' with
  | nil =>
    cases hdescend
    exact hnew.front h nofun
  | cons first child sibling ihc ihs =>
    unfold descend at hdescend
    split at hdescend
    · rename_i hlt
      cases hdescend
      exact hnew.front h (by simpa [row] using hlt)
    split at hdescend
    · rename_i hpass
      rcases map_eq_ok.mp hdescend with ⟨sibling', hsibling', rfl⟩
      exact .behind (ihs hsibling' ⟨lt_iff_toNat_lt.mp hpass, hnew.le, hnew.stop_le⟩ h.2.2) h
    split at hdescend
    · exact adopt_spec hdescend hnew h
    split at hdescend
    · cases hdescend
    · rename_i hin
      rcases map_eq_ok.mp hdescend with ⟨child', hchild', rfl⟩
      have hnew' := Res.between_of_not_outside (Bool.not_eq_true _ ▸ hin)
      rcases ihc hchild' hnew' h.2.1 with ⟨hvalid, hperm⟩
      refine ⟨⟨h.1, hvalid, h.2.2⟩, ?_⟩
      rw [ids_cons, ids_cons]
      exact (Perm.cons _ (hperm.append_right _)).trans (Perm.swap _ _ _)

/-- A registered resource with the ranges of its children in order, before and after. -/
def Keeps (news : List Id) (g : Res → Forest → Option Forest) : Prop :=
  ∀ root children children', g root children = some children' →
    children.Valid root root.start.toNat →
      children'.Valid root root.start.toNat ∧ children'.ids.Subperm (news ++ children.ids)

theorem keeps_requestResource (new : Res) :
    Keeps [new.id] fun root children => (requestResource root children new).toOption := by
  intro root children children' hrequest h
  have hok := toOption_eq_some.mp hrequest
  unfold requestResource at hok
  split at hok
  · cases hok
  · rename_i hin
    have hnew := Res.between_of_not_outside (Bool.not_eq_true _ ▸ hin)
    rcases link_spec hok hnew h with ⟨hvalid, hperm⟩
    exact ⟨hvalid, hperm.subperm⟩

theorem insertResource_spec (hok : insertResource root children new = .ok children')
    (h : children.Valid root root.start.toNat) :
    root.Inserted root.start.toNat new children children' := by
  unfold insertResource at hok
  split at hok
  · cases hok
  · rename_i hin
    exact descend_spec hok (Res.between_of_not_outside (Bool.not_eq_true _ ▸ hin)) h

theorem keeps_insertResource (new : Res) :
    Keeps [new.id] fun root children => (insertResource root children new).toOption := by
  intro root children children' hinsert h
  rcases insertResource_spec (toOption_eq_some.mp hinsert) h with ⟨hvalid, hperm⟩
  exact ⟨hvalid, hperm.subperm⟩

theorem keeps_allocateResource (q : Request) (new : Id) :
    Keeps [new] fun root children => allocateResource q root children new := by
  intro root children children' hallocate h
  simp only [allocateResource] at hallocate
  split at hallocate
  · cases hallocate
  · exact keeps_requestResource _ root children children' hallocate h

theorem keeps_release (old : Id) : Keeps [] fun _ children => children.release old := by
  intro root children children' hrelease h
  rcases release_spec hrelease h with ⟨hvalid, hsub⟩
  exact ⟨hvalid, hsub.subperm⟩

/-- The loop of `insert_resource_expand_to_fit` ends with an insertion of the new
resource in some range, or without a change. -/
theorem expandToFit_cases (h : expandToFit root children fuel new = some children') :
    children' = children ∨
      ∃ new' : Res, new'.id = new.id ∧ insertResource root children new' = .ok children' := by
  induction fuel generalizing new with
  | zero => cases h
  | succ fuel ih =>
    unfold expandToFit at h
    split at h
    · rename_i children'' hok
      cases h
      exact .inr ⟨new, rfl, hok⟩
    · split at h
      · cases h
        exact .inl rfl
      · have hnext := ih h
        exact hnext

theorem keeps_expandToFit (new : Res) :
    Keeps [new.id] fun root children =>
      expandToFit root children (children.nodes.length + 1) new := by
  intro root children children' hexpand h
  rcases expandToFit_cases hexpand with rfl | ⟨new', hid, hok⟩
  · exact ⟨h, (sublist_cons_self _ _).subperm⟩
  · rcases insertResource_spec hok h with ⟨hvalid, hperm⟩
    exact ⟨hvalid, hid ▸ hperm.subperm⟩

/-- A range that is not turned around takes the place of the range of a child. -/
theorem adjust_spec {prev : Option Res} {id : Id}
    (hadjust : f.adjust parent id start stop prev = some f') (h : f.Valid parent lo)
    (hle : start ≤ stop)
    (hprev : parent.start ≤ start → prev.any (fun tmp => decide (start ≤ tmp.stop)) = false →
      lo ≤ start.toNat) : f'.Valid parent lo ∧ f'.ids = f.ids := by
  induction f generalizing lo prev f' with
  | nil => cases hadjust
  | cons res child sibling _ ih =>
    rcases h with ⟨hfits, hchild, hsibling⟩
    unfold adjust at hadjust
    split at hadjust
    · split at hadjust
      · cases hadjust
      rename_i hin
      split at hadjust
      · cases hadjust
      rename_i hchildren
      split at hadjust
      · cases hadjust
      rename_i hnext
      split at hadjust
      · cases hadjust
      rename_i hbefore
      cases hadjust
      simp only [Bool.or_eq_true, decide_eq_true_eq, not_or, UInt32.not_lt] at hin
      refine ⟨⟨?_, ?_, ?_⟩, by simp⟩
      · exact ⟨hfits.back, hprev hin.1 (Bool.not_eq_true _ ▸ hbefore),
          UInt32.le_iff_toNat_le.mp hle, UInt32.le_iff_toNat_le.mp hin.2⟩
      · refine hchild.rebound rfl fun r hr => ?_
        simp only [any_eq_true, Bool.or_eq_true, decide_eq_true_eq, not_exists, not_and,
          not_or, UInt32.not_lt, UInt32.le_iff_toNat_le] at hchildren
        exact hchildren r hr
      · refine hsibling.start_at fun r hr => ?_
        rw [hr] at hnext
        simpa [lt_iff_toNat_lt, Nat.succ_le_iff] using hnext
    · rcases Option.map_eq_some_iff.mp hadjust with ⟨sibling', hsibling', rfl⟩
      have hbehind (_ : parent.start ≤ start)
          (hbefore : (some res).any (fun tmp => decide (start ≤ tmp.stop)) = false) :
          res.stop.toNat + 1 ≤ start.toNat := by
        simpa [lt_iff_toNat_lt, Nat.succ_le_iff] using hbefore
      rcases ih hsibling' hsibling hbehind with ⟨hvalid, hids⟩
      refine ⟨⟨hfits, hchild, hvalid⟩, ?_⟩
      rw [ids_cons, ids_cons, hids]

theorem keeps_adjust (id : Id) (hle : start ≤ stop) :
    Keeps [] fun parent children => children.adjust parent id start stop none := by
  intro root children children' hadjust h
  rcases adjust_spec hadjust h hle fun hstart _ => le_iff_toNat_le.mp hstart with
    ⟨hvalid, hids⟩
  exact ⟨hvalid, hids ▸ .refl _⟩

/-! ## Expanding comes to an end -/

/-- A registered resource sticks out of `new`. -/
def Res.sticksOut (new : Res) (n : Res × Forest) : Bool :=
  n.1.start < new.start || new.stop < n.1.stop

/-- A conflict in the run of siblings sticks out. -/
theorem swallow_error (h : swallow new f = .error conflict) :
    ∃ n ∈ f.nodes, n.1 = conflict ∧ new.sticksOut n = true := by
  induction f with
  | nil => cases h
  | cons next child sibling _ ih =>
    unfold swallow at h
    split at h
    · rename_i hout
      cases h
      exact ⟨(_, child), mem_cons_self, rfl, hout⟩
    · cases sibling with
      | nil => cases h
      | cons second child' sibling' =>
        simp only at h
        split at h
        · cases h
        · rcases ih (map_eq_error.mp h) with ⟨n, hn, hout⟩
          exact ⟨n, mem_cons_of_mem _ (mem_append_right _ hn), hout⟩

theorem descend_error (h : descend new parent f = .error conflict) (hle : new.start ≤ new.stop) :
    ∃ n ∈ f.nodes, n.1 = conflict ∧ new.sticksOut n = true := by
  induction f generalizing parent with
  | nil => cases h
  | cons first child sibling ihc ihs =>
    unfold descend at h
    split at h
    · cases h
    split at h
    · rcases ihs (map_eq_error.mp h) with ⟨n, hn, hout⟩
      exact ⟨n, mem_cons_of_mem _ (mem_append_right _ hn), hout⟩
    split at h
    · exact swallow_error (map_eq_error.mp h)
    split at h
    · -- a conflict that is larger than the new resource contains it
      rename_i hlarger hout
      simp only [Res.outside, Bool.or_eq_true, decide_eq_true_eq, not_or, lt_iff_toNat_lt,
        le_iff_toNat_le] at hlarger hout hle
      omega
    · rcases ihc (map_eq_error.mp h) with ⟨n, hn, hout⟩
      exact ⟨n, mem_cons_of_mem _ (mem_append_left _ hn), hout⟩

theorem Res.sticksOut_expand (h : (new.expand conflict).sticksOut n = true) :
    new.sticksOut n = true ∧ n.1 ≠ conflict := by
  simp only [Res.sticksOut, Res.expand, Bool.or_eq_true, decide_eq_true_eq,
    lt_iff_toNat_lt] at h ⊢
  constructor
  · split at h <;> split at h <;> omega
  · rintro rfl
    split at h <;> split at h <;> omega

theorem countP_lt_countP {p q : α → Bool} {l : List α} {x : α}
    (himp : ∀ y ∈ l, p y = true → q y = true) (hx : x ∈ l) (hp : ¬p x = true) (hq : q x = true) :
    l.countP p < l.countP q := by
  rcases append_of_mem hx with ⟨s, t, rfl⟩
  have hs : s.countP p ≤ s.countP q :=
    countP_mono_left fun y hy => himp y (mem_append_left _ hy)
  have ht : t.countP p ≤ t.countP q :=
    countP_mono_left fun y hy => himp y (mem_append_right _ (mem_cons_of_mem _ hy))
  simp only [countP_append, countP_cons_of_neg hp, countP_cons_of_pos hq]
  omega

/-- A round of `insert_resource_expand_to_fit` is the last one, or fewer resources stick out
of the new one afterwards. -/
theorem expandToFit_round (root : Res) (f : Forest) (fuel : Nat) (new : Res) :
    (expandToFit root f (fuel + 1) new).isSome = true ∨
      ∃ new' : Res, f.nodes.countP new'.sticksOut < f.nodes.countP new.sticksOut ∧
        expandToFit root f (fuel + 1) new = expandToFit root f fuel new' := by
  rw [expandToFit]
  split
  · exact .inl rfl
  · rename_i conflict herror
    split
    · exact .inl rfl
    · rename_i hne
      unfold insertResource at herror
      split at herror
      · cases herror
        exact absurd rfl hne
      · rename_i hin
        have hbetween := Res.between_of_not_outside (Bool.not_eq_true _ ▸ hin)
        rcases descend_error herror (le_iff_toNat_le.mpr hbetween.le) with
          ⟨n, hn, rfl, hout⟩
        refine .inr ⟨new.expand n.1, ?_, rfl⟩
        exact countP_lt_countP (fun m _ hm => (Res.sticksOut_expand hm).1) hn
          (fun hm => (Res.sticksOut_expand hm).2 rfl) hout

theorem expandToFit_returns (h : f.nodes.countP new.sticksOut ≤ fuel) :
    (expandToFit root f (fuel + 1) new).isSome = true := by
  induction fuel generalizing new with
  | zero =>
    rcases expandToFit_round root f 0 new with hsome | ⟨new', hlt, -⟩
    · exact hsome
    · omega
  | succ fuel ih =>
    rcases expandToFit_round root f (fuel + 1) new with hsome | ⟨new', hlt, heq⟩
    · exact hsome
    · rw [heq]
      exact ih (by omega)

/-! ## The chain of children of one resource in the tree -/

section Update

variable {p : Id} {g : Res → Forest → Option Forest}

/-- A replaced chain of children: the names outside of it stay, and what contains it stays the same
or in order if the chain does. -/
inductive Replaced (g : Res → Forest → Option Forest) (ids ids' : List Id)
    (Same Before After : Prop) : Prop where
  | mk (root : Res) (children children' : Forest) (before behind : List Id)
      (hg : g root children = some children')
      (hids : ids = before ++ (children.ids ++ behind))
      (hids' : ids' = before ++ (children'.ids ++ behind))
      (hsame : children' = children → Same)
      (hvalid : Before → children.Valid root root.start.toNat ∧
        (children'.Valid root root.start.toNat → After))

theorem Replaced.around {ids ids' l l' : List Id} {S S' B B' A A' : Prop}
    (h : Replaced g ids ids' S B A) (pre post : List Id) (hl : l = pre ++ (ids ++ post))
    (hl' : l' = pre ++ (ids' ++ post)) (hsame : S → S') (hvalid : B' → B ∧ (A → A')) :
    Replaced g l l' S' B' A' := by
  rcases h with ⟨root, c, c', before, behind, hg, rfl, rfl, hc, hin⟩
  refine ⟨root, c, c', pre ++ before, behind ++ post, hg, by simp [hl], by simp [hl'],
    fun heq => hsame (hc heq), fun hB => ?_⟩
  rcases hin (hvalid hB).1 with ⟨hvalid', hA⟩
  exact ⟨hvalid', fun hc' => (hvalid hB).2 (hA hc')⟩

theorem Forest.update_spec (h : f.update p g = some f') :
    Replaced g f.ids f'.ids (f' = f) (f.Valid parent lo) (f'.Valid parent lo) := by
  induction f generalizing f' parent lo with
  | nil => cases h
  | cons res child sibling ihc ihs =>
    unfold update at h
    split at h
    · rcases Option.map_eq_some_iff.mp h with ⟨child', hchild', rfl⟩
      exact ⟨res, child, child', [res.id], sibling.ids, hchild', by simp, by simp,
        fun heq => by rw [heq], fun hvalid => ⟨hvalid.2.1, fun hc => ⟨hvalid.1, hc, hvalid.2.2⟩⟩⟩
    · split at h
      · rename_i child' hupdate
        cases h
        exact (ihc hupdate).around [res.id] sibling.ids ids_cons ids_cons
          (fun heq => by rw [heq]) fun hvalid => ⟨hvalid.2.1, fun hc => ⟨hvalid.1, hc, hvalid.2.2⟩⟩
      · rcases Option.map_eq_some_iff.mp h with ⟨sibling', hupdate, rfl⟩
        exact (ihs hupdate).around (res.id :: child.ids) [] (by simp) (by simp)
          (fun heq => by rw [heq]) fun hvalid => ⟨hvalid.2.2, fun hc => ⟨hvalid.1, hvalid.2.1, hc⟩⟩

/-- The chain of a registered resource is found. -/
theorem Forest.update_isSome (hp : p ∈ f.ids)
    (hg : ∀ root children, (g root children).isSome = true) :
    (f.update p g).isSome = true := by
  induction f with
  | nil => cases hp
  | cons res child sibling ihc ihs =>
    unfold update
    split
    · rw [Option.isSome_map]
      exact hg _ _
    · rename_i hne
      split
      · rfl
      · rename_i hnone
        rw [Option.isSome_map]
        rw [ids_cons] at hp
        rcases mem_cons.mp hp with heq | hp
        · exact absurd heq.symm hne
        · rcases mem_append.mp hp with hp | hp
          · have hsome := ihc hp
            rw [hnone] at hsome
            cases hsome
          · exact ihs hp

namespace Tree

variable {t t' : Tree}

theorem update_spec (h : t.update p g = some t') :
    t'.root = t.root ∧ Replaced g t.ids t'.ids (t' = t)
      (t.children.Valid t.root t.root.start.toNat)
      (t'.children.Valid t.root t.root.start.toNat) := by
  unfold update at h
  split at h
  · rcases Option.map_eq_some_iff.mp h with ⟨children', hg, rfl⟩
    exact ⟨rfl, t.root, t.children, children', [t.root.id], [], hg, by simp [ids], by simp [ids],
      fun heq => by rw [heq], fun hvalid => ⟨hvalid, id⟩⟩
  · rcases Option.map_eq_some_iff.mp h with ⟨f', hupdate, rfl⟩
    exact ⟨rfl, (update_spec hupdate).around [t.root.id] [] (by simp [ids]) (by simp [ids])
      (fun heq => by rw [heq]) fun hvalid => ⟨hvalid, id⟩⟩

theorem update_isSome (hp : p ∈ t.ids) (hg : ∀ root children, (g root children).isSome = true) :
    (t.update p g).isSome = true := by
  unfold update
  split
  · rw [Option.isSome_map]
    exact hg _ _
  · rename_i hne
    rw [Option.isSome_map]
    rcases mem_cons.mp hp with heq | hp
    · exact absurd heq.symm hne
    · exact Forest.update_isSome hp hg

/-- The invariant: the chains are in order, and the names are different. -/
structure Sound (t : Tree) : Prop where
  valid : t.children.Valid t.root t.root.start.toNat
  distinct : t.ids.Nodup

/-- A function that keeps a chain of children in order keeps the tree. -/
theorem Sound.update (h : t.Sound) (hg : Keeps news g) (hnews : (news ++ t.ids).Nodup)
    (hupdate : t.update p g = some t') : t'.Sound := by
  rcases update_spec hupdate with
    ⟨hroot, root, c, c', before, behind, hc', hids, hids', -, hvalid⟩
  rcases hvalid h.valid with ⟨hc, himp⟩
  rcases hg root c c' hc' hc with ⟨hkept, hsub⟩
  refine ⟨hroot.symm ▸ himp hkept, nodup_iff_count_le_one.mpr fun id => ?_⟩
  -- a name in the chain was there before or is new
  have hcount := hsub.count_le id
  have honce := nodup_iff_count_le_one.mp hnews id
  rw [hids] at honce
  rw [hids']
  simp only [count_append] at hcount honce ⊢
  omega

end Tree

end Update

/-! ## Every call -/

/-- The ranges given to `adjust_resource` are not empty and do not wrap. -/
def adjustGuard (_ : Tree) : Call → Prop
  | .adjust _ start size => 1 ≤ size.toNat ∧ start.toNat + size.toNat ≤ 2 ^ 32
  | _ => True

instance (t : Tree) (call : Call) : Decidable (adjustGuard t call) := by
  cases call <;> unfold adjustGuard <;> infer_instance

theorem le_add_sub_one {size : UInt32} (hpos : 1 ≤ size.toNat)
    (hsum : start.toNat + size.toNat ≤ 2 ^ 32) : start ≤ start + size - 1 := by
  have hone : (1 : UInt32).toNat = 1 := rfl
  rw [UInt32.le_iff_toNat_le, UInt32.toNat_sub, UInt32.toNat_add, hone]
  omega

namespace Tree

variable {t t' : Tree} {code errno : Int} {g : Res → Forest → Option Forest} {call : Call}

/-- A call changes nothing, or replaces the chain of children of one resource. -/
theorem Sound.answer {p : Id} (h : t.Sound) (hg : Keeps news g) (hnews : (news ++ t.ids).Nodup)
    (hanswer : t.answer errno (t.update p g) = (t', code)) : t'.Sound := by
  cases hupdate : t.update p g with
  | none =>
    rw [hupdate] at hanswer
    cases hanswer
    exact h
  | some t'' =>
    rw [hupdate] at hanswer
    cases hanswer
    exact h.update hg hnews hupdate

/-- The same for a child of the resource its back pointer names. -/
theorem Sound.answer_parent (h : t.Sound) (hg : Keeps [] g)
    (hanswer : t.answer errno (t.updateParent res g) = (t', code)) : t'.Sound := by
  cases hparent : res.parent with
  | none =>
    rw [updateParent, hparent] at hanswer
    cases hanswer
    exact h
  | some p =>
    rw [updateParent, hparent] at hanswer
    exact h.answer hg h.distinct hanswer

theorem Sound.nodup_of_placeable {parent new : Id} (h : t.Sound)
    (hplace : t.placeable parent new = true) : ([new] ++ t.ids).Nodup := by
  simp only [placeable, Bool.and_eq_true, Bool.not_eq_true', contains_eq_mem,
    decide_eq_false_iff_not] at hplace
  exact nodup_cons.mpr ⟨hplace.2, h.distinct⟩

theorem Sound.exec (h : t.Sound) (hguard : adjustGuard t call)
    (hexec : t.exec call = some (t', code)) : t'.Sound := by
  cases call with
  | request parent new start stop =>
    rcases Option.ite_none_right_eq_some.mp hexec with ⟨hplace, heq⟩
    exact h.answer (keeps_requestResource ⟨new, start, stop, none⟩)
      (h.nodup_of_placeable hplace) (Option.some.inj heq)
  | release old =>
    simp only [Tree.exec] at hexec
    split at hexec
    · exact h.answer_parent (keeps_release old) (Option.some.inj hexec)
    · cases hexec
  | insert parent new start stop =>
    rcases Option.ite_none_right_eq_some.mp hexec with ⟨hplace, heq⟩
    exact h.answer (keeps_insertResource ⟨new, start, stop, none⟩)
      (h.nodup_of_placeable hplace) (Option.some.inj heq)
  | insertExpandToFit parent new start stop =>
    simp only [Tree.exec] at hexec
    split at hexec
    · cases hexec
      exact h
    · rcases Option.ite_none_right_eq_some.mp hexec with ⟨hplace, hsome⟩
      rcases Option.map_eq_some_iff.mp hsome with ⟨t'', hupdate, ⟨⟩⟩
      exact h.update (keeps_expandToFit ⟨new, start, stop, none⟩)
        (h.nodup_of_placeable hplace) hupdate
  | adjust id start size =>
    simp only [Tree.exec] at hexec
    split at hexec
    · exact h.answer_parent (keeps_adjust id (le_add_sub_one hguard.1 hguard.2))
        (Option.some.inj hexec)
    · cases hexec
  | allocate parent new q =>
    rcases Option.ite_none_right_eq_some.mp hexec with ⟨hplace, heq⟩
    exact h.answer (keeps_allocateResource q new) (h.nodup_of_placeable hplace)
      (Option.some.inj heq)

/-- What a reader of the tree relies on: for every resource with its children. -/
structure Integrity (t : Tree) : Prop where
  increasing : ∀ n ∈ t.nodes, n.2.row.Pairwise fun a b => a.stop < b.start
  inside : ∀ n ∈ t.nodes, ∀ r ∈ n.2.row, n.1.start ≤ r.start ∧ r.start ≤ r.stop ∧ r.stop ≤ n.1.stop
  back : ∀ n ∈ t.nodes, ∀ r ∈ n.2.row, r.parent = some n.1.id
  distinct : (t.nodes.map fun n => n.1.id).Nodup

theorem Sound.of_mem (h : t.Sound) (hn : n ∈ t.nodes) : n.2.Valid n.1 n.1.start.toNat := by
  rcases mem_cons.mp hn with rfl | hn
  · exact h.valid
  · exact h.valid.of_mem hn

theorem Sound.integrity (h : t.Sound) : t.Integrity where
  increasing n hn := by
    have hvalid := h.of_mem hn
    cases hrow : n.2.row with
    | nil => exact .nil
    | cons r rest =>
      have hlo := hvalid.lo_le r (hrow ▸ mem_cons_self)
      rw [← hrow]
      exact (hvalid.ordered (Nat.le_succ_of_le hlo)).pairwise.imp lt_iff_toNat_lt.mpr
  inside n hn r hr := by
    have hvalid := h.of_mem hn
    have hmem := (hvalid.ordered (Nat.le_succ_of_le (hvalid.lo_le r hr))).of_mem hr
    exact ⟨hmem.1, Nat.le_of_lt_succ hmem.2.1, Nat.le_of_succ_le_succ hmem.2.2⟩
  back n hn := (h.of_mem hn).parent_eq
  distinct := h.distinct

/-- A call with an error code leaves the tree as it is. -/
theorem exec_error (hexec : t.exec call = some (t', code)) (hcode : code ≠ 0) : t' = t := by
  have hanswer (errno : Int) (result : Option Tree)
      (heq : some (t.answer errno result) = some (t', code)) : t' = t := by
    cases result with
    | none => cases heq; rfl
    | some t'' => cases heq; exact absurd rfl hcode
  cases call with
  | insertExpandToFit parent new start stop =>
    simp only [exec] at hexec
    split at hexec
    · cases hexec
      rfl
    · split at hexec
      · rcases Option.map_eq_some_iff.mp hexec with ⟨t'', -, ⟨⟩⟩
        exact absurd rfl hcode
      · cases hexec
  | _ =>
    simp only [exec] at hexec
    split at hexec
    · exact hanswer _ _ hexec
    · cases hexec

theorem exec_insertExpandToFit {parent new : Id} (start stop : UInt32)
    (hplace : t.placeable parent new = true) (hsound : t.Sound) :
    ∃ t', t.exec (.insertExpandToFit parent new start stop) = some (t', 0) ∧
      (new ∈ t'.ids ∨ t' = t) := by
  have hmem := hplace
  simp only [placeable, Bool.and_eq_true, Bool.not_eq_true', contains_eq_mem,
    decide_eq_false_iff_not, decide_eq_true_eq] at hmem
  have hnew : ¬t.children.ids.contains new = true := by
    rw [contains_eq_mem, decide_eq_true_eq]
    exact fun hin => hmem.2 (mem_cons_of_mem _ hin)
  have hsome := update_isSome hmem.1 (t := t) (g := fun root children =>
    expandToFit root children (children.nodes.length + 1) ⟨new, start, stop, none⟩)
    fun root children => expandToFit_returns countP_le_length
  rcases Option.isSome_iff_exists.mp hsome with ⟨t', ht'⟩
  refine ⟨t', ?_, ?_⟩
  · simp only [exec, if_neg hnew, if_pos hplace, ht', Option.map_some]
  · rcases update_spec ht' with ⟨-, root, c, c', before, behind, hc', -, hids', hsame, hvalid⟩
    rcases expandToFit_cases hc' with heq | ⟨new', hid, hok⟩
    · exact .inr (hsame heq)
    · have hperm := (insertResource_spec hok (hvalid hsound.valid).1).2
      have hin : new ∈ c'.ids := hperm.mem_iff.mpr (hid ▸ mem_cons_self)
      rw [hids']
      exact .inl (mem_append_right _ (mem_append_left _ hin))

end Tree

/-- In every run in which the ranges given to `adjust_resource` are not empty and do not
wrap, the children of every resource follow each other without overlap, lie inside it and point
back to it; a call that fails leaves the tree as it is, and
`insert_resource_expand_to_fit` returns, with the new resource registered or with the tree
as it was. -/
theorem resource_tree_integrity {t : Tree} (ht : system.ReachableUnder adjustGuard t) :
    t.Integrity ∧
      (∀ call t' code, t.exec call = some (t', code) → code ≠ 0 → t' = t) ∧
      ∀ parent new start stop, t.placeable parent new = true →
        ∃ t', t.exec (.insertExpandToFit parent new start stop) = some (t', 0) ∧
          (new ∈ t'.ids ∨ t' = t) := by
  have hsound : t.Sound := by
    refine TransitionSystem.ReachableUnder.invariant (P := Tree.Sound) ?_ ?_ ht
    · rintro ⟨root, _⟩ ⟨-, rfl⟩
      exact ⟨trivial, nodup_singleton _⟩
    · rintro t call t' h hguard ⟨code, hexec⟩
      exact h.exec hguard hexec
  refine ⟨hsound.integrity, ?_, ?_⟩
  · intro call t' code hexec hcode
    exact Tree.exec_error hexec hcode
  · intro parent new start stop hplace
    exact Tree.exec_insertExpandToFit start stop hplace hsound

/-- All addresses, without children. -/
def wholeSpace : Tree :=
  ⟨⟨0, 0, 0xFFFFFFFF, none⟩, .nil⟩

/-- Two siblings below a new resource, which is below one that was expanded, and an allocated
resource behind. -/
theorem resource_tree_integrity_nested :
    ∃ t, system.ReachableUnder adjustGuard t ∧ t.Integrity ∧ t.ids = [0, 4, 3, 1, 2, 5] := by
  have hstart : system.ReachableUnder adjustGuard wholeSpace := .init ⟨rfl, rfl⟩
  rcases hstart.exists_observed_of (fun _ _ _ => TransitionSystem.exists_of_map_fst)
    (P := fun t : Tree => t.ids = [0, 4, 3, 1, 2, 5])
    [.request 0 1 0x1000 0x1FFF, .request 0 2 0x3000 0x3FFF, .insert 0 3 0 0xFFFF,
      .insertExpandToFit 0 4 0x8000 0x1FFFF, .adjust 1 0x800 0x1000,
      .allocate 0 5 ⟨0x100, 0, 0xFFFFFFFF, 0x100, none⟩]
    (by decide +kernel) with ⟨t, ht, hobs⟩
  exact ⟨t, ht, (resource_tree_integrity ht).1, hobs⟩

/-- `adjust_resource` with size 0 succeeds and turns the range of the child around. -/
theorem adjusted_to_empty_range : ∃ t, system.Reachable t ∧ ¬t.Integrity := by
  have hstart : system.Reachable wholeSpace := .start ⟨rfl, rfl⟩
  rcases TransitionSystem.ReachableUnder.exists_observed_of
      (fun _ _ _ => TransitionSystem.exists_of_map_fst)
    (P := fun t : Tree => ∃ n ∈ t.nodes, ∃ r ∈ n.2.row, r.stop < r.start)
    [.request 0 1 0x1000 0x1FFF, .adjust 1 0x1000 0]
    hstart ⟨.trivial _ _, by decide +kernel⟩ with ⟨t, ht, n, hn, r, hr, hlt⟩
  refine ⟨t, ht, fun h => ?_⟩
  exact absurd hlt (UInt32.not_lt.mpr (h.inside n hn r hr).2.1)

end LteModemKernel.Resource
