import Mathlib

/-!
# Tilings by aligned blocks

A buddy allocator cuts a range of numbered pages into blocks of `2 ^ k` pages, each at a
multiple of its size.  Two such blocks are disjoint or nested.  The *buddy* of a block is the other
half of the block of twice the size around it.

A set of blocks is given by a predicate on heads and orders.  It *tiles* a set of pages if the
blocks are aligned and every page lies in exactly one of them.  An allocator only ever replaces a
block by its two halves, or two halves by the block they make up.

Main results:

- Theorem `InBlock.nested`: aligned blocks that share a page are nested.
- Theorem `Tiling.buddy_head`: the buddy of a block starts a block that is not larger.
- Theorems `Tiling.split` and `Tiling.merge`: both replacements keep a tiling.
- Theorem `Tiling.eq_of_merged`: a tiling without two equal buddies is coarser than any
  other one, so that there is only one of a range.
-/

namespace LteModemKernel.Lib

open Nat

/-! ## Aligned blocks -/

/-- The page lies in the block of order `k` at `p`. -/
def InBlock (p k x : Nat) : Prop :=
  p ≤ x ∧ x < p + 2 ^ k

theorem inBlock_self (p k : Nat) : InBlock p k p :=
  ⟨le_rfl, Nat.lt_add_of_pos_right (Nat.two_pow_pos k)⟩

variable {p q k l x : Nat}

/-- Aligned blocks that share a page are nested. -/
theorem InBlock.nested (hp : 2 ^ k ∣ p) (hq : 2 ^ l ∣ q) (hkl : k ≤ l) (hx : InBlock p k x)
    (hx' : InBlock q l x) : q ≤ p ∧ p + 2 ^ k ≤ q + 2 ^ l := by
  rcases hp with ⟨a, rfl⟩
  have hdvd : 2 ^ k ∣ 2 ^ l := pow_dvd_pow 2 hkl
  rcases hdvd.trans hq with ⟨c, rfl⟩
  rcases hdvd with ⟨d, hd⟩
  rcases hx with ⟨hlow, hhigh⟩
  rcases hx' with ⟨hlow', hhigh'⟩
  rw [hd, ← mul_add] at hhigh' ⊢
  rw [← mul_succ] at hhigh ⊢
  have hca : c < a + 1 := Nat.lt_of_mul_lt_mul_left (hlow'.trans_lt hhigh)
  have hacd : a < c + d := Nat.lt_of_mul_lt_mul_left (hlow.trans_lt hhigh')
  exact ⟨Nat.mul_le_mul_left _ (Nat.lt_succ_iff.mp hca), Nat.mul_le_mul_left _ hacd⟩

theorem InBlock.head_eq (hp : 2 ^ k ∣ p) (hq : 2 ^ l ∣ q) (hlk : l ≤ k) (hx : InBlock q l p) :
    q = p := by
  have hnested := InBlock.nested hq hp hlk hx (inBlock_self p k)
  exact le_antisymm hx.1 hnested.1

/-- The head of the other half of the block of twice the size. -/
def buddy (p k : Nat) : Nat :=
  p ^^^ 2 ^ k

/-- The buddy of the lower half is the upper half, and the other way round. -/
theorem buddy_cases (hp : 2 ^ k ∣ p) :
    (2 ^ (k + 1) ∣ p ∧ buddy p k = p + 2 ^ k) ∨
      (2 ^ (k + 1) ∣ buddy p k ∧ p = buddy p k + 2 ^ k) := by
  rcases hp with ⟨m, rfl⟩
  have hbuddy : buddy (2 ^ k * m) k = 2 ^ k * (m ^^^ 1) := by
    have hshift := shiftLeft_xor_distrib (a := m) (b := 1) (i := k)
    rw [shiftLeft_eq, shiftLeft_eq, shiftLeft_eq, one_mul] at hshift
    rw [buddy, mul_comm, ← hshift, mul_comm]
  rw [hbuddy, pow_succ]
  have hmod : (m ^^^ 1) % 2 = (m + 1) % 2 := xor_mod_two_eq
  have hdiv : (m ^^^ 1) / 2 = m / 2 := by
    rw [xor_div_two]
    exact Nat.xor_zero _
  rcases mod_two_eq_zero_or_one m with hm | hm
  · have heq : m ^^^ 1 = m + 1 := by omega
    exact .inl ⟨mul_dvd_mul_left _ (dvd_of_mod_eq_zero hm), by rw [heq, mul_succ]⟩
  · have heq : m = (m ^^^ 1) + 1 := by omega
    refine .inr ⟨mul_dvd_mul_left _ (dvd_of_mod_eq_zero (by omega)), ?_⟩
    exact congrArg _ heq

theorem buddy_buddy (p k : Nat) : buddy (buddy p k) k = p := by
  rw [buddy, buddy, Nat.xor_assoc, Nat.xor_self, Nat.xor_zero]

theorem dvd_buddy (hp : 2 ^ k ∣ p) : 2 ^ k ∣ buddy p k := by
  have hdvd : 2 ^ k ∣ 2 ^ (k + 1) := pow_dvd_pow 2 (le_succ k)
  rcases buddy_cases hp with ⟨-, heq⟩ | ⟨hb, -⟩
  · rw [heq]
    exact dvd_add hp (dvd_refl _)
  · exact hdvd.trans hb

theorem buddy_ne (p k : Nat) : buddy p k ≠ p := by
  intro heq
  have hxor : p ^^^ (p ^^^ 2 ^ k) = 0 := by
    rw [← buddy, heq, Nat.xor_self]
  rw [← Nat.xor_assoc, Nat.xor_self, Nat.zero_xor] at hxor
  exact (Nat.two_pow_pos k).ne' hxor

/-- A half that starts the block of twice the size is the lower one. -/
theorem buddy_eq_add (hp : 2 ^ (k + 1) ∣ p) : buddy p k = p + 2 ^ k := by
  rcases buddy_cases ((pow_dvd_pow 2 (le_succ k)).trans hp) with ⟨-, heq⟩ | ⟨hb, heq⟩
  · exact heq
  · exfalso
    have hdvd : 2 ^ (k + 1) ∣ 2 ^ k := (Nat.dvd_add_right hb).mp (heq ▸ hp)
    have hle := Nat.le_of_dvd (Nat.two_pow_pos k) hdvd
    have hlt : 2 ^ k < 2 ^ (k + 1) := Nat.pow_lt_pow_right (by decide) (Nat.lt_succ_self k)
    omega

/-- The lower one of two buddies starts the block they make up. -/
theorem dvd_min_buddy (hp : 2 ^ k ∣ p) :
    2 ^ (k + 1) ∣ min p (buddy p k) ∧ max p (buddy p k) = min p (buddy p k) + 2 ^ k := by
  rcases buddy_cases hp with ⟨hdvd, heq⟩ | ⟨hdvd, heq⟩
  · have hle : p ≤ buddy p k := by omega
    rw [min_eq_left hle, max_eq_right hle]
    exact ⟨hdvd, heq⟩
  · have hle : buddy p k ≤ p := by omega
    rw [min_eq_right hle, max_eq_left hle]
    exact ⟨hdvd, heq⟩

theorem inBlock_succ : InBlock p (k + 1) x ↔ InBlock p k x ∨ InBlock (p + 2 ^ k) k x := by
  unfold InBlock
  omega

/-! ## Tilings -/

/-- The blocks are aligned, and every page of `R` lies in exactly one of them, and no other
page does. -/
structure Tiling (blk : Nat → Nat → Prop) (R : Nat → Prop) : Prop where
  aligned : ∀ {p k}, blk p k → 2 ^ k ∣ p
  inside : ∀ {p k x}, blk p k → InBlock p k x → R x
  apart : ∀ {p k q l x}, blk p k → blk q l → InBlock p k x → InBlock q l x → p = q ∧ k = l
  cover : ∀ {x}, R x → ∃ p k, blk p k ∧ InBlock p k x

namespace Tiling

variable {blk blk' : Nat → Nat → Prop} {R R' : Nat → Prop} {n : Nat}

section

variable (h : Tiling blk R)
include h

theorem order_unique (hk : blk p k) (hl : blk p l) : k = l :=
  (h.apart hk hl (inBlock_self p k) (inBlock_self p l)).2

theorem head_eq (hp : blk p k) (hq : blk q l) (hx : InBlock q l p) : q = p ∧ l = k :=
  h.apart hq hp hx (inBlock_self p k)

theorem congr (heq : ∀ p k, blk' p k ↔ blk p k) (hR : ∀ x, R' x ↔ R x) : Tiling blk' R' where
  aligned hb := h.aligned ((heq _ _).mp hb)
  inside hb hx := (hR _).mpr (h.inside ((heq _ _).mp hb) hx)
  apart hb hb' := h.apart ((heq _ _).mp hb) ((heq _ _).mp hb')
  cover hx := by
    rcases h.cover ((hR _).mp hx) with ⟨p, k, hb, hin⟩
    exact ⟨p, k, (heq _ _).mpr hb, hin⟩

/-- The buddy of a block is the head of a block that is not larger. -/
theorem buddy_head (hp : blk p k) (hR : R (buddy p k)) : ∃ l ≤ k, blk (buddy p k) l := by
  have hpk := h.aligned hp
  rcases h.cover hR with ⟨q, l, hq, hx⟩
  have hql := h.aligned hq
  have hlk : l ≤ k := by
    by_contra hlt
    -- a larger block around the buddy contains the block of twice the size, and so the block
    rcases dvd_min_buddy hpk with ⟨hdvd, hmax⟩
    have hinside : InBlock (min p (buddy p k)) (k + 1) (buddy p k) := by
      have hpow : 2 ^ (k + 1) = 2 ^ k + 2 ^ k := two_pow_succ k
      unfold InBlock
      omega
    have hnested := InBlock.nested hdvd hql (by omega) hinside hx
    have hin : InBlock q l p := by
      have hpow : 2 ^ (k + 1) = 2 ^ k + 2 ^ k := two_pow_succ k
      have hpos := Nat.two_pow_pos k
      unfold InBlock
      omega
    have heq := h.head_eq hp hq hin
    omega
  have heq : q = buddy p k := InBlock.head_eq (dvd_buddy hpk) hql hlk hx
  exact ⟨l, hlk, heq ▸ hq⟩

/-- The blocks without one of them. -/
theorem remove (hp : blk p k) :
    Tiling (fun q l => blk q l ∧ q ≠ p) (fun x => R x ∧ ¬InBlock p k x) where
  aligned hb := h.aligned hb.1
  inside hb hx := ⟨h.inside hb.1 hx, fun hx' => hb.2 (h.apart hb.1 hp hx hx').1⟩
  apart hb hb' := h.apart hb.1 hb'.1
  cover := by
    rintro x ⟨hx, hout⟩
    rcases h.cover hx with ⟨q, l, hq, hin⟩
    refine ⟨q, l, ⟨hq, ?_⟩, hin⟩
    rintro rfl
    exact hout (h.order_unique hq hp ▸ hin)

/-- The blocks of two sets without a common page. -/
theorem union (h' : Tiling blk' R') (hdisjoint : ∀ x, R x → ¬R' x) :
    Tiling (fun q l => blk q l ∨ blk' q l) (fun x => R x ∨ R' x) where
  aligned hb := hb.elim h.aligned h'.aligned
  inside hb hx := hb.imp (h.inside · hx) (h'.inside · hx)
  apart := by
    rintro q l q' l' x (hq | hq) (hq' | hq') hx hx'
    · exact h.apart hq hq' hx hx'
    · exact absurd (h'.inside hq' hx') (hdisjoint x (h.inside hq hx))
    · exact absurd (h'.inside hq hx) (hdisjoint x (h.inside hq' hx'))
    · exact h'.apart hq hq' hx hx'
  cover := by
    rintro x (hx | hx)
    · rcases h.cover hx with ⟨q, l, hq, hin⟩
      exact ⟨q, l, .inl hq, hin⟩
    · rcases h'.cover hx with ⟨q, l, hq, hin⟩
      exact ⟨q, l, .inr hq, hin⟩

end

theorem single (hdvd : 2 ^ k ∣ p) : Tiling (fun q l => q = p ∧ l = k) (InBlock p k) where
  aligned := by
    rintro q l ⟨rfl, rfl⟩
    exact hdvd
  inside := by
    rintro q l x ⟨rfl, rfl⟩ hx
    exact hx
  apart hq hq' _ _ := ⟨hq.1.trans hq'.1.symm, hq.2.trans hq'.2.symm⟩
  cover hx := ⟨p, k, ⟨rfl, rfl⟩, hx⟩

section

variable (h : Tiling blk R)
include h

/-- A block is replaced by its two halves. -/
theorem split (hp : blk p (k + 1)) :
    Tiling (fun q l => (blk q l ∧ q ≠ p) ∨ (l = k ∧ (q = p ∨ q = p + 2 ^ k))) R := by
  have hsub : 2 ^ k ∣ p := (pow_dvd_pow 2 (le_succ k)).trans (h.aligned hp)
  have hhalves := (single hsub).union (single (dvd_add hsub (dvd_refl _)))
    fun x hx hx' => absurd hx.2 (not_lt.mpr hx'.1)
  refine ((h.remove hp).union hhalves fun x hx => by
    rw [← inBlock_succ]
    exact hx.2).congr (fun q l => by tauto) fun x => ?_
  have hinside (hx : InBlock p (k + 1) x) : R x := h.inside hp hx
  rw [← inBlock_succ]
  tauto

/-- Two halves are replaced by the block they make up. -/
theorem merge (hp : blk p k) (hq : blk (p + 2 ^ k) k) (hdvd : 2 ^ (k + 1) ∣ p) :
    Tiling (fun q l => (blk q l ∧ q ≠ p ∧ q ≠ p + 2 ^ k) ∨ (q = p ∧ l = k + 1)) R := by
  have hne : p + 2 ^ k ≠ p := (Nat.lt_add_of_pos_right (Nat.two_pow_pos k)).ne'
  refine (((h.remove hp).remove ⟨hq, hne⟩).union (single hdvd) fun x hx => by
    rw [inBlock_succ]
    tauto).congr (fun q l => by tauto) fun x => ?_
  have hlow (hx : InBlock p k x) : R x := h.inside hp hx
  have hhigh (hx : InBlock (p + 2 ^ k) k x) : R x := h.inside hq hx
  rw [inBlock_succ]
  tauto

end

theorem empty : Tiling (fun _ _ => False) (fun x => x < 0) where
  aligned h := h.elim
  inside h := h.elim
  apart h := h.elim
  cover h := (not_lt_zero _ h).elim

/-- A block behind the end of the range. -/
theorem snoc (h : Tiling blk fun x => x < n) (hdvd : 2 ^ k ∣ n) :
    Tiling (fun q l => blk q l ∨ (q = n ∧ l = k)) fun x => x < n + 2 ^ k := by
  refine (h.union (single hdvd) fun x hx hx' => absurd hx (not_lt.mpr hx'.1)).congr
    (fun _ _ => .rfl) fun x => ?_
  unfold InBlock
  omega

/-! ## Merged tilings -/

/-- Without two buddies of one order, an aligned part of the range lies in one block. -/
theorem block_above (h : Tiling blk R) (hmerged : ∀ p k, blk p k → ¬blk (buddy p k) k)
    (hdvd : 2 ^ k ∣ p) (hinside : ∀ x, InBlock p k x → R x) :
    ∃ q l, blk q l ∧ k ≤ l ∧ InBlock q l p := by
  induction k generalizing p with
  | zero =>
    rcases h.cover (hinside p (inBlock_self p 0)) with ⟨q, l, hq, hin⟩
    exact ⟨q, l, hq, zero_le l, hin⟩
  | succ k ih =>
    have hsub : 2 ^ k ∣ p := (pow_dvd_pow 2 (le_succ k)).trans hdvd
    rcases ih hsub fun x hx => hinside x (inBlock_succ.mpr (.inl hx)) with
      ⟨q, l, hq, hl, hin⟩
    rcases ih (dvd_add hsub (dvd_refl _)) fun x hx =>
      hinside x (inBlock_succ.mpr (.inr hx)) with ⟨q', l', hq', hl', hin'⟩
    rcases lt_or_eq_of_le hl with hlt | rfl
    · exact ⟨q, l, hq, hlt, hin⟩
    · rcases lt_or_eq_of_le hl' with hlt' | rfl
      · -- the block around the upper half is large enough to contain the lower one
        have hupper : InBlock p (k + 1) (p + 2 ^ k) := inBlock_succ.mpr (.inr (inBlock_self _ _))
        have hnested := InBlock.nested hdvd (h.aligned hq') hlt' hupper hin'
        exact ⟨q', l', hq', hlt', hnested.1, by omega⟩
      · -- both halves are blocks: buddies of one order
        have hlow : q = p := InBlock.head_eq hsub (h.aligned hq) le_rfl hin
        have hhigh : q' = p + 2 ^ k :=
          InBlock.head_eq (dvd_add hsub (dvd_refl _)) (h.aligned hq') le_rfl hin'
        subst hlow hhigh
        rw [← buddy_eq_add hdvd] at hq'
        exact absurd hq' (hmerged q k hq)

/-- A tiling of a range whose blocks cannot be extended to twice their size is the only one without
two buddies of one order. -/
theorem eq_of_merged (h : Tiling blk R) (hmerged : ∀ p k, blk p k → ¬blk (buddy p k) k)
    (h' : Tiling blk' R)
    (hmax : ∀ p k, blk' p k → 2 ^ (k + 1) ∣ p ∧ ∃ x, InBlock p (k + 1) x ∧ ¬R x) :
    ∀ p k, blk p k ↔ blk' p k := by
  have hsub (p k : Nat) (hp : blk' p k) : blk p k := by
    rcases h.block_above hmerged (h'.aligned hp) fun x hx => h'.inside hp hx with
      ⟨q, l, hq, hl, hin⟩
    rcases hmax p k hp with ⟨hdvd, x, hx, hout⟩
    have hlk : l = k := by
      by_contra hne
      have hnested := InBlock.nested hdvd (h.aligned hq) (by omega) (inBlock_self p (k + 1)) hin
      exact hout (h.inside hq ⟨hnested.1.trans hx.1, hx.2.trans_le hnested.2⟩)
    subst hlk
    exact InBlock.head_eq (h'.aligned hp) (h.aligned hq) le_rfl hin ▸ hq
  intro p k
  constructor
  · intro hp
    rcases h'.cover (h.inside hp (inBlock_self p k)) with ⟨q, l, hq, hin⟩
    rcases h.head_eq hp (hsub q l hq) hin with ⟨rfl, rfl⟩
    exact hq
  · exact hsub p k

/-- Blocks that cannot be extended to twice their size have no buddy of their order. -/
theorem not_buddy_of_max (h : Tiling blk R)
    (hmax : ∀ p k, blk p k → 2 ^ (k + 1) ∣ p ∧ ∃ x, InBlock p (k + 1) x ∧ ¬R x)
    (hp : blk p k) : ¬blk (buddy p k) k := by
  rcases hmax p k hp with ⟨hdvd, x, hx, hout⟩
  rw [buddy_eq_add hdvd]
  intro hb
  rcases inBlock_succ.mp hx with hx | hx
  · exact hout (h.inside hp hx)
  · exact hout (h.inside hb hx)

/-- Behind a block of a range comes the end or another block. -/
theorem next_head (h : Tiling blk fun x => x < n) (hp : blk p k) :
    p + 2 ^ k = n ∨ ∃ l, blk (p + 2 ^ k) l := by
  have hpos := Nat.two_pow_pos k
  have hlast : p + 2 ^ k - 1 < n := h.inside hp ⟨by omega, by omega⟩
  rcases Nat.lt_or_ge (p + 2 ^ k) n with hlt | hge
  · right
    rcases h.cover hlt with ⟨q, l, hq, hin⟩
    have heq : q = p + 2 ^ k := by
      by_contra hne
      -- a block that starts before the next page shares a page with this one
      have hq' : InBlock q l (p + 2 ^ k - 1) := ⟨by have := hin.1; omega, by have := hin.2; omega⟩
      have hp' : InBlock p k (p + 2 ^ k - 1) := ⟨by omega, by omega⟩
      rcases h.apart hq hp hq' hp' with ⟨rfl, rfl⟩
      exact absurd hin.2 (lt_irrefl _)
    exact ⟨l, heq ▸ hq⟩
  · left
    omega

end Tiling

end LteModemKernel.Lib
