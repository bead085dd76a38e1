import LteModemKernel.Classifier.Bearers

/-!
# The dedicated bearers as a map

The array of dedicated bearers of a PDN, seen as a map from the bearer id to the filters of
the bearer.  A message acts on the map of the PDN it addresses as a map operation does, if
no id is created twice and dedicated bearers are deleted from the end of the array.

Main results:

- Theorem `Tracked.handle`: what every message of that kind does to the maps.
- Theorem `dedicated_bearers_map`: in every run of such messages the arrays are the maps.
-/

namespace LteModemKernel.Classifier

open Lib List Option PdnClassifier Nat TransitionSystem
open Function (update update_eq_self_iff update_of_ne update_self)

variable {t t' : Table} {bearerId : UInt8} {k : Fin maxDedicatedBearerPerPdn}
  {result : Option (Table × RetCode)} {b : Bearer} {ps' : List Ptr} {ret : RetCode}

/-! ## Maps -/

/-- What a message does to a map: nothing, empty it, or store, change or erase the value of
one key. -/
inductive MapOp (κ : Type) where
  | keep
  | clear
  | put (key : κ)
  | change (key : κ)
  | erase (key : κ)

namespace MapOp

variable {κ ν : Type} [DecidableEq κ]

/-- The effect of a map operation: a key is stored only if it is not there, and changed only
if it is there. -/
def Acts : MapOp κ → (κ → Option ν) → (κ → Option ν) → Prop
  | .keep, m, m' => m' = m
  | .clear, _, m' => ∀ key, m' key = none
  | .put key, m, m' => m key = none ∧ ∃ v, m' = update m key (some v)
  | .change key, m, m' =>
    (m key = none ∧ m' = m) ∨ (m key ≠ none ∧ ∃ v, m' = update m key (some v))
  | .erase key, m, m' => m' = update m key none

/-- The operation names a key that is not there. -/
def Unknown (m : κ → Option ν) : MapOp κ → Prop
  | .change key => m key = none
  | .erase key => m key = none
  | _ => False

end MapOp

/-- The filters of a bearer, slot by slot. -/
abbrev FilterSet := Fin maxFiltersPerTft → Option PacketFilter

/-- The dedicated bearers of a PDN as a map, by the search that all routines use. -/
def Table.bearerMap (t : Table) (bearerId : UInt8) : Option FilterSet :=
  (t.pdn.findDedicated bearerId).map fun k => t.filterAt (.dedicated k)

theorem bearerMap_eq_none : t.bearerMap bearerId = none ↔ t.pdn.findDedicated bearerId = none := by
  rw [Table.bearerMap, map_eq_none_iff]

namespace PdnClassifier

variable {pdn : PdnClassifier}

/-- No two counted entries have the same id. -/
structure Indexed (pdn : PdnClassifier) : Prop where
  bound : pdn.numDedicatedBearers ≤ maxDedicatedBearerPerPdn
  inj : ∀ k k' : Fin maxDedicatedBearerPerPdn, k.val < pdn.numDedicatedBearers →
    k'.val < pdn.numDedicatedBearers →
    (pdn.dedicatedBearer k).epsBearerId = (pdn.dedicatedBearer k').epsBearerId → k = k'

/-- The ids of the counted entries. -/
def ids (pdn : PdnClassifier) : List UInt8 :=
  ((finRange maxDedicatedBearerPerPdn).take pdn.numDedicatedBearers).map fun k =>
    (pdn.dedicatedBearer k).epsBearerId

theorem findDedicated_eq_none :
    pdn.findDedicated bearerId = none ↔ ∀ k : Fin maxDedicatedBearerPerPdn,
      k.val < pdn.numDedicatedBearers → (pdn.dedicatedBearer k).epsBearerId ≠ bearerId := by
  simp [findDedicated]

theorem Indexed.findDedicated (h : pdn.Indexed) (hk : k.val < pdn.numDedicatedBearers) :
    pdn.findDedicated (pdn.dedicatedBearer k).epsBearerId = some k := by
  cases hfind : pdn.findDedicated (pdn.dedicatedBearer k).epsBearerId with
  | none => exact absurd rfl (findDedicated_eq_none.mp hfind k hk)
  | some k' =>
    rcases findDedicated_eq_some hfind with ⟨hlive, hid⟩
    rw [h.inj k' k hlive hk hid]

/-- The search sees nothing but the counted entries with the id. -/
theorem findDedicated_congr {pdn' : PdnClassifier} (h : ∀ k : Fin maxDedicatedBearerPerPdn,
      (k.val < pdn'.numDedicatedBearers ∧ (pdn'.dedicatedBearer k).epsBearerId = bearerId) ↔
        (k.val < pdn.numDedicatedBearers ∧ (pdn.dedicatedBearer k).epsBearerId = bearerId)) :
    pdn'.findDedicated bearerId = pdn.findDedicated bearerId := by
  rw [findDedicated, findDedicated]
  congr 1
  funext k
  rw [Bool.eq_iff_iff]
  simpa only [Bool.and_eq_true, decide_eq_true_eq, beq_iff_eq] using h k

theorem mem_ids : bearerId ∈ pdn.ids ↔ pdn.findDedicated bearerId ≠ none := by
  rw [ne_eq, findDedicated_eq_none]
  simp only [ids, List.mem_map, List.mem_take_iff_getElem, List.getElem_finRange]
  push Not
  constructor
  · rintro ⟨k, ⟨i, hi, rfl⟩, hid⟩
    exact ⟨_, (lt_min_iff.mp hi).1, hid⟩
  · rintro ⟨k, hk, hid⟩
    refine ⟨k, ⟨k.val, ?_, ?_⟩, hid⟩
    · exact lt_min hk k.isLt
    · rfl

theorem Indexed.length_ids (h : pdn.Indexed) : pdn.ids.length = pdn.numDedicatedBearers := by
  simp only [ids, length_map, length_take, length_finRange]
  exact min_eq_left h.bound

theorem Indexed.nodup_ids (h : pdn.Indexed) : pdn.ids.Nodup := by
  rw [ids, nodup_map_iff_inj_on ((nodup_finRange _).take)]
  intro k hk k' hk' hid
  have hlt (i) (hi : i ∈ (finRange maxDedicatedBearerPerPdn).take pdn.numDedicatedBearers) : i.val <
      pdn.numDedicatedBearers := by
    rcases mem_take_iff_getElem.mp hi with ⟨n, hn, rfl⟩
    rw [getElem_finRange]
    exact (lt_min_iff.mp hn).1
  exact h.inj k k' (hlt k hk) (hlt k' hk') hid

theorem Indexed.of_zero (h : pdn.numDedicatedBearers = 0) : pdn.Indexed := by
  exact ⟨by omega, fun k _ hk => by omega⟩

end PdnClassifier

/-! ## One PDN -/

theorem bearerMap_of_find (hk : t.pdn.findDedicated bearerId = some k) :
    t.bearerMap bearerId = some (t.filterAt (.dedicated k)) := by
  rw [Table.bearerMap, hk, map_some]

theorem bearerMap_congr (hfind : t'.pdn.findDedicated bearerId = t.pdn.findDedicated bearerId)
    (hfilters : ∀ k, t.pdn.findDedicated bearerId = some k →
      t'.filterAt (.dedicated k) = t.filterAt (.dedicated k)) :
    t'.bearerMap bearerId = t.bearerMap bearerId := by
  rw [Table.bearerMap, Table.bearerMap, hfind]
  exact map_congr fun k hk => hfilters k hk

/-- The value of an id is untouched if its search finds the same entry and that entry is one
of another bearer. -/
theorem Isolated.bearerMap_eq {ps : List Ptr} (h : Isolated b t ps t' ps')
    (hlinked : Linked t ps []) (hb : t.pdn.Live b ∨ t.pdn.Bare b)
    (hfind : t'.pdn.findDedicated bearerId = t.pdn.findDedicated bearerId)
    (hne : ∀ k, t.pdn.findDedicated bearerId = some k → .dedicated k ≠ b) :
    t'.bearerMap bearerId = t.bearerMap bearerId := by
  refine bearerMap_congr hfind fun k hk => funext fun j => ?_
  exact h.filter hlinked hb (findDedicated_eq_some hk).1 (hne k hk) j

/-- A routine on one PDN that acts on its map as `op` does. -/
def Tracks (op : MapOp UInt8) (t : Table) (ps : List Ptr) (result : Option (Table × RetCode)) :
    Prop :=
  ∃ t' ret ps', result = some (t', ret) ∧ Linked t' ps' [] ∧ Keeps t.mem ps t'.mem ps' ∧
    t'.pdn.Indexed ∧ op.Acts t.bearerMap t'.bearerMap ∧ (op.Unknown t.bearerMap → t' = t)

/-- What a deletion does to the map. -/
def deleteMapOp (pdn : PdnClassifier) (bearerId : UInt8) : MapOp UInt8 :=
  if pdn.defaultBearer.epsBearerId = bearerId ∨ bearerId = 0 then .clear else .erase bearerId

/-- What a TFT operation does to the map; operations on the default bearer leave it alone. -/
def tftMapOp (pdn : PdnClassifier) (bearerId linkedBearerId : UInt8) : TftOperation → MapOp UInt8
  | .createNewTft _ => if bearerId = linkedBearerId then .keep else .put bearerId
  | .deleteExistingTft => deleteMapOp pdn bearerId
  | .noTftOperation => .keep
  | _ => if bearerId = linkedBearerId then .keep else .change bearerId

/-- A dedicated bearer is deleted from the end of the array. -/
def DeletesLast (pdn : PdnClassifier) (bearerId : UInt8) : Prop :=
  pdn.defaultBearer.epsBearerId = bearerId ∨ bearerId = 0 ∨
    ∀ k ∈ pdn.findDedicated bearerId, k.val + 1 = pdn.numDedicatedBearers

/-- A TFT operation creates a dedicated bearer with a new id only, and deletes one from the
end of the array only. -/
def TftKeepsMap (pdn : PdnClassifier) (bearerId linkedBearerId : UInt8) : TftOperation → Prop
  | .createNewTft _ => bearerId = linkedBearerId ∨ pdn.findDedicated bearerId = none
  | .deleteExistingTft => DeletesLast pdn bearerId
  | _ => True

theorem bearerMap_of_zero (h : t.pdn.numDedicatedBearers = 0) (bearerId : UInt8) :
    t.bearerMap bearerId = none := by
  rw [bearerMap_eq_none, findDedicated_eq_none]
  omega

/-- Deleting the default bearer leaves no dedicated bearer. -/
theorem bearerDelete_default_num
    (hdefault : t.pdn.defaultBearer.epsBearerId = bearerId ∨ bearerId = 0)
    (hrun : bearerDelete t bearerId = some (t', ret)) : t'.pdn.numDedicatedBearers = 0 := by
  simp only [bearerDelete, hdefault, if_true, map_eq_some_iff, Prod.mk.injEq] at hrun
  rcases hrun with ⟨t'', hdelete, rfl, _⟩
  rcases bind_eq_some_iff.mp hdelete with ⟨mem, _, ⟨⟩⟩
  rfl

theorem registerDefaultBearer_num (hrun : registerDefaultBearer t bearerId = some (t', ret)) :
    t'.pdn.numDedicatedBearers = 0 := by
  rcases bind_eq_some_iff.mp hrun with ⟨⟨temp, mem⟩, _, hrun⟩
  rcases bind_eq_some_iff.mp hrun with ⟨_, _, hrun⟩
  rcases bind_eq_some_iff.mp hrun with ⟨_, _, hrun⟩
  rcases bind_eq_some_iff.mp hrun with ⟨_, _, hrun⟩
  cases hrun
  rfl

namespace Linked

variable {ps : List Ptr} {linkedBearerId : UInt8}

theorem moves_id (h : Moves b t ps [] t' ps' []) (k : Fin maxDedicatedBearerPerPdn) :
    (t'.pdn.dedicatedBearer k).epsBearerId = (t.pdn.dedicatedBearer k).epsBearerId := by
  by_cases hk : .dedicated k = b
  · have hid := h.ids
    rwa [← hk] at hid
  · exact congrArg Tft.epsBearerId (h.tfts (.dedicated k) hk)

theorem moves_findDedicated (h : Moves b t ps [] t' ps' []) (bearerId : UInt8) :
    t'.pdn.findDedicated bearerId = t.pdn.findDedicated bearerId :=
  findDedicated_congr fun k => by rw [h.num, moves_id h k]

theorem moves_indexed (h : Moves b t ps [] t' ps' [])
    (hindexed : t.pdn.Indexed) : t'.pdn.Indexed := by
  refine ⟨h.num ▸ hindexed.bound, fun k k' hk hk' hid => ?_⟩
  rw [h.num] at hk hk'
  rw [moves_id h, moves_id h] at hid
  exact hindexed.inj k k' hk hk' hid

section

variable (h : Linked t ps []) (hindexed : t.pdn.Indexed) {tft : TftOperation}
include h hindexed

theorem tracks_same (op : MapOp UInt8) (hop : op.Acts t.bearerMap t.bearerMap) (ret : RetCode) :
    Tracks op t ps (some (t, ret)) :=
  ⟨t, ret, ps, rfl, h, .refl _ _, hindexed, hop, fun _ => rfl⟩

theorem tracks_default (hyields : Yields .default t ps result) : Tracks .keep t ps result := by
  rcases hyields with ⟨t', ret, ps', hrun, hlinked, hmoves⟩
  refine ⟨t', ret, ps', hrun, hlinked, hmoves.isolated.keeps, moves_indexed hmoves hindexed, ?_,
    False.elim⟩
  funext bearerId
  exact hmoves.isolated.bearerMap_eq h (.inl trivial) (moves_findDedicated hmoves bearerId)
    fun k _ hk => Bearer.noConfusion hk

theorem tracks_dedicated (hk : t.pdn.findDedicated bearerId = some k)
    (hyields : Yields (.dedicated k) t ps result) : Tracks (.change bearerId) t ps result := by
  rcases hyields with ⟨t', ret, ps', hrun, hlinked, hmoves⟩
  have hknown : t.bearerMap bearerId ≠ none := by simp [bearerMap_of_find hk]
  refine ⟨t', ret, ps', hrun, hlinked, hmoves.isolated.keeps, moves_indexed hmoves hindexed,
    .inr ⟨hknown, t'.filterAt (.dedicated k), ?_⟩, fun hunknown => absurd hunknown hknown⟩
  rcases findDedicated_eq_some hk with ⟨hlive, hid⟩
  funext bearerId'
  by_cases heq : bearerId' = bearerId
  · subst heq
    rw [update_self, bearerMap_of_find ((moves_findDedicated hmoves _).trans hk)]
  · rw [update_of_ne heq]
    refine hmoves.isolated.bearerMap_eq h (.inl hlive) (moves_findDedicated hmoves bearerId') ?_
    rintro k' hk' ⟨⟩
    exact heq ((findDedicated_eq_some hk').2.symm.trans hid)

theorem tracks_create (hne : bearerId ≠ linkedBearerId) (hsafe : CreateSafe t.pdn)
    (hnew : t.pdn.findDedicated bearerId = none) (filters : Recvd PacketFilter) :
    Tracks (.put bearerId) t ps (createTft t bearerId linkedBearerId filters.val) := by
  rcases hsafe with ⟨hlt, hbare⟩
  rcases h.createDedicated hne hlt hbare filters with
    ⟨t', ret, ps', hrun, hlinked, hisolated, hnum, hid⟩
  let k₀ : Fin maxDedicatedBearerPerPdn := ⟨t.pdn.numDedicatedBearers, hlt⟩
  have hid₀ : (t'.pdn.dedicatedBearer k₀).epsBearerId = bearerId := hid
  have hold (k : Fin maxDedicatedBearerPerPdn) (hk : k.val < t.pdn.numDedicatedBearers) :
      t'.pdn.dedicatedBearer k = t.pdn.dedicatedBearer k := by
    refine hisolated.tfts (.dedicated k) fun heq => ?_
    cases heq
    exact lt_irrefl _ hk
  -- a counted entry is the new one or an old one
  have hcases (k : Fin maxDedicatedBearerPerPdn) (hk : k.val < t'.pdn.numDedicatedBearers) : k =
      k₀ ∨ k.val < t.pdn.numDedicatedBearers := by
    rw [hnum] at hk
    exact (Nat.lt_succ_iff_lt_or_eq.mp hk).symm.imp_left Fin.ext
  have hfresh := findDedicated_eq_none.mp hnew
  have hindexed' : t'.pdn.Indexed := by
    refine ⟨hnum ▸ hlt, fun k k' hk hk' hsame => ?_⟩
    rcases hcases k hk with rfl | hk <;> rcases hcases k' hk' with rfl | hk'
    · rfl
    · rw [hid₀, hold k' hk'] at hsame
      exact absurd hsame.symm (hfresh k' hk')
    · rw [hid₀, hold k hk] at hsame
      exact absurd hsame (hfresh k hk)
    · rw [hold k hk, hold k' hk'] at hsame
      exact hindexed.inj k k' hk hk' hsame
  refine ⟨t', ret, ps', hrun, hlinked, hisolated.keeps, hindexed',
    ⟨bearerMap_eq_none.mpr hnew, t'.filterAt (.dedicated k₀), ?_⟩, False.elim⟩
  funext bearerId'
  by_cases heq : bearerId' = bearerId
  · subst heq
    have hfind := hindexed'.findDedicated (k := k₀) (hnum ▸ lt_succ_self _)
    rw [hid₀] at hfind
    rw [update_self, bearerMap_of_find hfind]
  · rw [update_of_ne heq]
    refine hisolated.bearerMap_eq h (.inr hbare) (findDedicated_congr ?_) ?_
    · intro k
      constructor
      · rintro ⟨hk, hid'⟩
        rcases hcases k hk with rfl | hk
        · exact absurd (hid'.symm.trans hid₀) heq
        · exact ⟨hk, hold k hk ▸ hid'⟩
      · rintro ⟨hk, hid'⟩
        exact ⟨hnum ▸ lt_succ_of_lt hk, hold k hk ▸ hid'⟩
    · rintro k hk ⟨⟩
      exact lt_irrefl _ (findDedicated_eq_some hk).1

theorem tracks_deleteLast (hk : t.pdn.findDedicated bearerId = some k)
    (hsafe : DedicatedDeleteSafe t.pdn k) (hlast : k.val + 1 = t.pdn.numDedicatedBearers) :
    Tracks (.erase bearerId) t ps
      ((Classifier.deleteDedicatedBearer t k).map fun t => (t, RetCode.success)) := by
  rcases findDedicated_eq_some hk with ⟨hlive, hid⟩
  rcases h.deleteDedicatedBearer hlive hsafe.1 hsafe.2 with
    ⟨t', ps', hrun, hlinked, hisolated, _, hnum⟩
  have hold (k' : Fin maxDedicatedBearerPerPdn) (hk' : k'.val < t'.pdn.numDedicatedBearers) :
      t'.pdn.dedicatedBearer k' = t.pdn.dedicatedBearer k' := by
    refine hisolated.tfts (.dedicated k') fun heq => ?_
    cases heq
    omega
  have hindexed' : t'.pdn.Indexed := by
    refine ⟨by omega, fun k₁ k₂ hk₁ hk₂ hsame => ?_⟩
    rw [hold k₁ hk₁, hold k₂ hk₂] at hsame
    exact hindexed.inj k₁ k₂ (by omega) (by omega) hsame
  have hknown : t.bearerMap bearerId ≠ none := by simp [bearerMap_of_find hk]
  refine ⟨t', .success, ps', by rw [hrun]; rfl, hlinked, hisolated.keeps, hindexed', ?_,
    fun hunknown => absurd hunknown hknown⟩
  funext bearerId'
  by_cases heq : bearerId' = bearerId
  · subst heq
    rw [update_self, bearerMap_eq_none, findDedicated_eq_none]
    intro k' hk' hid'
    rw [hold k' hk'] at hid'
    have hsame := hindexed.inj k' k (by omega) hlive (hid'.trans hid.symm)
    omega
  · rw [update_of_ne heq]
    refine hisolated.bearerMap_eq h (.inl hlive) (findDedicated_congr ?_) ?_
    · intro k'
      constructor
      · rintro ⟨hk', hid'⟩
        exact ⟨by omega, hold k' hk' ▸ hid'⟩
      · rintro ⟨hk', hid'⟩
        have hne : k'.val ≠ k.val := by
          intro hval
          rw [Fin.ext hval] at hid'
          exact heq (hid'.symm.trans hid)
        have hlt : k'.val < t'.pdn.numDedicatedBearers := by omega
        exact ⟨hlt, hold k' hlt ▸ hid'⟩
    · rintro k' hk' ⟨⟩
      exact heq ((findDedicated_eq_some hk').2.symm.trans hid)

theorem tracks_bearerDelete (hsafe : DeleteSafe t.pdn bearerId)
    (hlast : DeletesLast t.pdn bearerId) :
    Tracks (deleteMapOp t.pdn bearerId) t ps (Classifier.bearerDelete t bearerId) := by
  by_cases hdefault : t.pdn.defaultBearer.epsBearerId = bearerId ∨ bearerId = 0
  · rcases h.bearerDelete hsafe with ⟨t', ret, ps', hrun, hlinked, hkeeps⟩
    have hzero := bearerDelete_default_num hdefault hrun
    rw [deleteMapOp, if_pos hdefault]
    refine ⟨t', ret, ps', hrun, hlinked, hkeeps, .of_zero hzero, ?_, False.elim⟩
    exact bearerMap_of_zero hzero
  · rw [deleteMapOp, if_neg hdefault]
    cases hfind : t.pdn.findDedicated bearerId with
    | none =>
      rw [bearerDelete_unknown hdefault hfind]
      refine h.tracks_same hindexed (.erase bearerId) ?_ .fail
      exact (update_eq_self_iff.mpr (bearerMap_eq_none.mpr hfind).symm).symm
    | some k =>
      have hk : DedicatedDeleteSafe t.pdn k ∧ k.val + 1 = t.pdn.numDedicatedBearers := by
        rw [not_or] at hdefault
        refine ⟨?_, ?_⟩
        · exact ((hsafe.resolve_left hdefault.1).resolve_left hdefault.2) k hfind
        · exact ((hlast.resolve_left hdefault.1).resolve_left hdefault.2) k hfind
      simp only [Classifier.bearerDelete, hdefault, if_false, hfind]
      exact h.tracks_deleteLast hindexed hfind hk.1 hk.2

theorem tracks_onFilters (htft : tft.OnFilters)
    (hb : targetBearer t.pdn bearerId linkedBearerId = some b)
    (hsafe : TftSafe t bearerId linkedBearerId tft) :
    Tracks (if bearerId = linkedBearerId then .keep else .change bearerId) t ps
      (Classifier.applyTft t bearerId linkedBearerId tft) := by
  have hresult := h.applyTft_onFilters hsafe htft hb
  by_cases hid : bearerId = linkedBearerId
  · rw [targetBearer, if_pos hid] at hb
    cases hb
    rw [if_pos hid]
    rcases hresult with ⟨_, hyields⟩ | hnone
    · exact h.tracks_default hindexed hyields
    · rw [hnone]
      exact h.tracks_same hindexed .keep rfl .success
  · rw [if_neg hid]
    rw [targetBearer, if_neg hid] at hb
    rcases map_eq_some_iff.mp hb with ⟨k, hk, rfl⟩
    cases hfind : t.pdn.findDedicated bearerId with
    | none =>
      -- the entry behind the last one is not live, so nothing was done
      rcases hresult with ⟨hlive, _⟩ | hnone
      · simp only [bearerIndex, hfind] at hk
        split_ifs at hk
        cases hk
        exact absurd hlive (lt_irrefl _)
      · rw [hnone]
        exact h.tracks_same hindexed (.change bearerId)
          (.inl ⟨bearerMap_eq_none.mpr hfind, rfl⟩) .success
    | some k' =>
      simp only [bearerIndex, hfind] at hk
      cases hk
      rcases hresult with ⟨_, hyields⟩ | hnone
      · exact h.tracks_dedicated hindexed hfind hyields
      · rw [hnone]
        have hvalue := bearerMap_of_find hfind
        exact h.tracks_same hindexed (.change bearerId)
          (.inr ⟨by simp [hvalue], _, (update_eq_self_iff.mpr hvalue.symm).symm⟩) .success

theorem tracks_applyTft (hsafe : TftSafe t bearerId linkedBearerId tft)
    (hmap : TftKeepsMap t.pdn bearerId linkedBearerId tft) :
    Tracks (tftMapOp t.pdn bearerId linkedBearerId tft) t ps
      (Classifier.applyTft t bearerId linkedBearerId tft) := by
  cases tft with
  | createNewTft filters =>
    by_cases hid : bearerId = linkedBearerId
    · simp only [TftSafe, hid, if_true] at hsafe
      simp only [Classifier.applyTft, createTft, tftMapOp, hid, if_true]
      exact h.tracks_default hindexed (h.addSafe trivial hsafe)
    · simp only [TftSafe, hid, if_false] at hsafe
      simp only [tftMapOp, hid, if_false]
      exact h.tracks_create hindexed hid hsafe (hmap.resolve_left hid) filters
  | deleteExistingTft => exact h.tracks_bearerDelete hindexed hsafe hmap
  | addPktFltrToExistingTft filters | replacePktFltrToExistingTft filters
  | deletePktFltrFromExistingTft pfidList =>
    rcases id hsafe with ⟨b, hb, _⟩
    exact h.tracks_onFilters hindexed trivial hb hsafe
  | noTftOperation => exact h.tracks_same hindexed .keep rfl .success

end

end Linked

/-! ## Messages -/

open Qa

/-- What a message does to the map of the PDN it works on. -/
def NasMsg.mapOp (pdn : PdnClassifier) : NasMsg → MapOp UInt8
  | .regConf _ => .keep
  | .pdnConnCnf _ => .keep
  | .bearerMod msgId bearerId linkedBearerId tft =>
    if bearerId = linkedBearerId ∧ (msgId = .allocInd ∨ msgId = .allocCnf) then .keep
    else tftMapOp pdn bearerId linkedBearerId tft
  | .bearerRel bearerId _ => deleteMapOp pdn bearerId
  | .bearerRelCnf bearerId => deleteMapOp pdn bearerId
  | .detachConf bearerId => deleteMapOp pdn bearerId

/-- What a message does to the map of the PDN `ct`. -/
def Qa.mapOp (s : Qa) (msg : NasMsg) (ct : Fin maxPdns) : MapOp UInt8 :=
  if s.addressed msg = some ct then msg.mapOp (s.gsQaLte ct) else .keep

/-- The further condition on a message: a registration finds no dedicated bearers, no id is
created twice, and dedicated bearers are deleted from the end of the array. -/
def KeepsMap (pdn : PdnClassifier) : NasMsg → Prop
  | .regConf _ => pdn.numDedicatedBearers = 0
  | .pdnConnCnf _ => pdn.numDedicatedBearers = 0
  | .bearerMod msgId bearerId linkedBearerId tft =>
    if bearerId = linkedBearerId ∧ (msgId = .allocInd ∨ msgId = .allocCnf) then
      pdn.numDedicatedBearers = 0
    else TftKeepsMap pdn bearerId linkedBearerId tft
  | .bearerRel bearerId _ => DeletesLast pdn bearerId
  | .bearerRelCnf bearerId => DeletesLast pdn bearerId
  | .detachConf _ => True

/-- The condition on a message under which the arrays stay maps. -/
def MapSafe (s : Qa) (msg : NasMsg) : Prop :=
  Admissible s msg ∧ ∀ ct ∈ s.addressed msg, KeepsMap (s.gsQaLte ct) msg

section Decidability

instance (pdn : PdnClassifier) (bearerId : UInt8) : Decidable (DeletesLast pdn bearerId) :=
  inferInstanceAs (Decidable (_ ∨ _))

instance (pdn : PdnClassifier) (bearerId linkedBearerId : UInt8) (tft : TftOperation) :
    Decidable (TftKeepsMap pdn bearerId linkedBearerId tft) := by
  apply @TftOperation.casesOn _ tft <;> intros <;> unfold TftKeepsMap <;> infer_instance

instance (pdn : PdnClassifier) (msg : NasMsg) : Decidable (KeepsMap pdn msg) := by
  apply @NasMsg.casesOn _ msg <;> intros <;> unfold KeepsMap <;> infer_instance

instance (s : Qa) (msg : NasMsg) : Decidable (MapSafe s msg) :=
  inferInstanceAs (Decidable (_ ∧ _))

end Decidability

/-- A sound state in which the arrays of dedicated bearers are maps. -/
structure Tracked (s : Qa) (lists : Fin maxPdns → List Ptr) : Prop where
  sound : Sound s lists
  indexed : ∀ ct, (s.gsQaLte ct).Indexed

/-- A message that addresses `target` is processed, and acts on the map there as
`op` says and on the other maps not at all. -/
def Follows (s : Qa) (target : Option (Fin maxPdns)) (op : PdnClassifier → MapOp UInt8)
    (result : Option (Qa × RetCode)) : Prop :=
  ∃ s' ret lists', result = some (s', ret) ∧ Tracked s' lists' ∧ ∀ ct,
    (if target = some ct then op (s.gsQaLte ct) else .keep).Acts
      (s.table ct).bearerMap (s'.table ct).bearerMap ∧
    ((if target = some ct then op (s.gsQaLte ct) else .keep).Unknown (s.table ct).bearerMap →
      s' = s)

namespace Tracked

variable {s : Qa} {lists : Fin maxPdns → List Ptr}

variable (h : Tracked s lists) {ct : Fin maxPdns}
include h

/-- The map of one PDN does not notice what happens in another. -/
theorem bearerMap_setTable {ct' : Fin maxPdns} (hct : ct' ≠ ct) {t' : Table}
    (hkeeps : Keeps s.mem (lists ct) t'.mem ps') :
    ((s.setTable ct t').table ct').bearerMap = (s.table ct').bearerMap := by
  funext bearerId
  have hpdn : ((s.setTable ct t').table ct').pdn = (s.table ct').pdn := update_of_ne hct _ _
  refine bearerMap_congr (by rw [hpdn]) fun k hk => funext fun j => ?_
  exact h.sound.pdn_filter hct hkeeps (findDedicated_eq_some hk).1 j

theorem follows_none (op : PdnClassifier → MapOp UInt8) (ret : RetCode) :
    Follows s none op (some (s, ret)) := by
  exact ⟨s, ret, lists, rfl, h, fun ct => ⟨rfl, False.elim⟩⟩

theorem follows_on {op : PdnClassifier → MapOp UInt8}
    (htracks : Tracks (op (s.gsQaLte ct)) (s.table ct) (lists ct) result) :
    Follows s (some ct) op (s.on ct result) := by
  rcases htracks with ⟨t', ret, ps', rfl, hlinked, hkeeps, hindexed, hacts, hunknown⟩
  refine ⟨s.setTable ct t', ret, _, rfl, ⟨h.sound.setTable hlinked hkeeps, ?_⟩, ?_⟩
  · intro ct'
    by_cases hct : ct' = ct
    · subst hct
      simpa [setTable] using hindexed
    · simpa [setTable, hct] using h.indexed ct'
  · intro ct'
    by_cases hct : ct' = ct
    · subst hct
      have hself : (s.setTable ct' t').table ct' = t' := by simp [setTable, table]
      rw [if_pos rfl, hself]
      refine ⟨hacts, fun hu => ?_⟩
      rw [hunknown hu, setTable_table]
    · rw [if_neg fun heq => hct (some.inj heq).symm]
      exact ⟨h.bearerMap_setTable hct hkeeps, False.elim⟩

theorem tracks_register (hsafe : RegisterSafe (s.table ct))
    (hzero : (s.gsQaLte ct).numDedicatedBearers = 0) (bearerId : UInt8) :
    Tracks .keep (s.table ct) (lists ct) (registerDefaultBearer (s.table ct) bearerId) := by
  rcases h.sound.register hsafe bearerId with ⟨t', ret, ps', hrun, hlinked, hkeeps⟩
  have hzero' := registerDefaultBearer_num hrun
  refine ⟨t', ret, ps', hrun, hlinked, hkeeps, .of_zero hzero', ?_, False.elim⟩
  funext key
  rw [bearerMap_of_zero hzero', bearerMap_of_zero hzero]

variable {msg : NasMsg} (hmsg : MapSafe s msg)
include hmsg

theorem tracks_onTable (hct : s.addressed msg = some ct) :
    Tracks (msg.mapOp (s.gsQaLte ct)) (s.table ct) (lists ct) (msg.onTable (s.table ct)) := by
  have hlinked := h.sound.linked ct
  have hindexed := h.indexed ct
  rcases hmsg with ⟨hsafe, hmap⟩
  replace hmap := hmap ct hct
  cases msg with
  | regConf bearerId =>
    cases hct
    exact h.tracks_register hsafe hmap bearerId
  | pdnConnCnf bearerId => exact h.tracks_register (hsafe ct hct) hmap bearerId
  | bearerMod msgId bearerId linkedBearerId tft =>
    simp only [Admissible, addressed, KeepsMap, NasMsg.onTable, NasMsg.mapOp] at hsafe hct hmap ⊢
    split_ifs at hsafe hct hmap ⊢
    · cases hct
      exact h.tracks_register hsafe hmap _
    · rcases hlinked.tracks_applyTft hindexed (hsafe ct hct) hmap with ⟨t', ret, ps', hrun, hrest⟩
      exact ⟨t', .success, ps', by rw [hrun]; rfl, hrest⟩
  | bearerRel bearerId _ | bearerRelCnf bearerId =>
    exact hlinked.tracks_bearerDelete hindexed (hsafe ct hct) hmap
  | detachConf bearerId =>
    have hfound := find?_some hct
    have hid := beq_iff_eq.mp hfound
    exact hlinked.tracks_bearerDelete hindexed (.inl hid) (.inl hid)

/-- What every message does to the maps. -/
theorem handle : Follows s (s.addressed msg) (fun pdn => msg.mapOp pdn) (s.handle msg) := by
  rw [handle_eq]
  cases hct : s.addressed msg with
  | none => exact h.follows_none _ .fail
  | some ct => exact h.follows_on (h.tracks_onTable hmsg hct)

end Tracked

/-! ## Runs -/

theorem tracked_of_reachable {s : Qa} (hs : system.ReachableUnder MapSafe s) :
    ∃ lists, Tracked s lists := by
  apply hs.invariant
  · intro s hinit
    rcases sound_of_reachable (.init hinit) with ⟨lists, hsound⟩
    rcases hinit with ⟨free, garbage, bearerId, ret, hstart⟩
    refine ⟨lists, hsound, fun ct => ?_⟩
    rcases map_eq_some_iff.mp hstart with ⟨⟨t', ret'⟩, hrun, ⟨⟩⟩
    apply Indexed.of_zero
    by_cases hct : ct = 0
    · subst hct
      exact registerDefaultBearer_num hrun
    · have hpdn : ((boot free garbage).setTable 0 t').gsQaLte ct = .zero := update_of_ne hct _ _
      rw [hpdn]
      rfl
  · rintro s msg s' ⟨lists, htracked⟩ hmsg ⟨ret, hstep⟩
    rcases htracked.handle hmsg with ⟨s'', ret', lists', hrun, htracked', _⟩
    cases hrun.symm.trans hstep
    exact ⟨lists', htracked'⟩

/-- The dedicated bearers of a PDN are a finite map: they are counted, there are not more
of them than entries, and the filters of each are in the list that packets are classified
by. -/
structure IsBearerMap (t : Table) : Prop where
  count : ∃ ids : List UInt8, ids.Nodup ∧ ids.length = t.pdn.numDedicatedBearers ∧
    ∀ bearerId, bearerId ∈ ids ↔ t.bearerMap bearerId ≠ none
  bound : t.pdn.numDedicatedBearers ≤ maxDedicatedBearerPerPdn
  listed : ∀ bearerId, ∀ k ∈ t.pdn.findDedicated bearerId, ∀ j, ∀ x ∈ t.pdn.slot (.dedicated k) j,
    x ∈ t.nodes

/-- In every run of messages that meet the condition, the dedicated bearers of every PDN are
a finite map, and every further such message acts on it as its map operation; if it names an
unknown bearer nothing changes. -/
theorem dedicated_bearers_map {s : Qa} (hs : system.ReachableUnder MapSafe s) :
    (∀ ct, IsBearerMap (s.table ct)) ∧
      ∀ msg, MapSafe s msg → ∃ s' ret, s.handle msg = some (s', ret) ∧ ∀ ct,
        (s.mapOp msg ct).Acts (s.table ct).bearerMap (s'.table ct).bearerMap ∧
          ((s.mapOp msg ct).Unknown (s.table ct).bearerMap → s' = s) := by
  rcases tracked_of_reachable hs with ⟨lists, htracked⟩
  constructor
  · intro ct
    have hindexed : (s.table ct).pdn.Indexed := htracked.indexed ct
    have hlinked := htracked.sound.linked ct
    refine ⟨⟨(s.table ct).pdn.ids, hindexed.nodup_ids, hindexed.length_ids, fun bearerId => ?_⟩,
      hindexed.bound, ?_⟩
    · rw [mem_ids, ne_eq, ne_eq, bearerMap_eq_none]
    · intro bearerId k hk j x hx
      rw [hlinked.nodes_eq]
      have hmem := hlinked.held.mem (findDedicated_eq_some hk).1 hx
      simpa using hmem
  · intro msg hmsg
    rcases htracked.handle hmsg with ⟨s', ret, _, hrun, _, hops⟩
    exact ⟨s', ret, hrun, hops⟩

/-- The condition is met by a run in which one of two dedicated bearers gets a filter and the
other one goes. -/
theorem dedicated_bearers_map_two : ∃ s : Qa, system.ReachableUnder MapSafe s ∧
    (s.table 0).pdn.numDedicatedBearers = 1 ∧ IsBearerMap (s.table 0) := by
  have hguard : Guarded act MapSafe attached
      (twoBearers ++ [.bearerMod .modInd 6 5
        (.addPktFltrToExistingTft ⟨[.numbered 6 2 20], by decide⟩), .bearerRelCnf 7]) := by
    decide +kernel
  have hs := reachable_attached hguard rfl
  exact ⟨_, hs, rfl, (dedicated_bearers_map hs).1 0⟩

/-- Without the condition: the deletion of the first of two dedicated bearers loses the
second one. -/
theorem second_bearer_lost : ∃ s s' : Qa, ∃ ret, system.Reachable s ∧
    s.handle (.bearerRel 6 5) = some (s', ret) ∧
    (s.table 0).bearerMap 7 ≠ none ∧ (s'.table 0).bearerMap 7 = none := by
  refine ⟨_, _, _, reachable_attached (l := twoBearers) (.trivial _ _) rfl, rfl, ?_, ?_⟩
  · decide +kernel
  · decide +kernel

end LteModemKernel.Classifier
