import LteModemKernel.Lib.LittleEndian
import LteModemKernel.Ts27010.Frame

/-!
# Errors that the check sequence detects

The table of `ts0710_crc_create_table` is linear in exclusive or.  So the check of a corrupted
string depends on the error pattern only, and a pattern in eight consecutive bits, the lowest bit
of each byte first, does not pass.

Main results:

- Theorem `fcs_detects_bursts`: a string with its check sequence passes the check, and fails it
  after an error in eight consecutive bits.
-/

namespace LteModemKernel.Ts27010

open List Lib UInt8

/-! ## Linearity -/

theorem xor_and_one (x y : UInt8) : (x ^^^ y) &&& 1 = (x &&& 1) ^^^ (y &&& 1) := by
  apply UInt8.toBitVec_inj.mp
  ext i hi
  simp [Bool.and_xor_distrib_right]

theorem and_one_cases (x : UInt8) : x &&& 1 = 0 ∨ x &&& 1 = 1 := by
  have hall : ∀ x : BitVec 8, x &&& 1 = 0 ∨ x &&& 1 = 1 := by decide
  exact (hall x.toBitVec).imp UInt8.toBitVec_inj.mp UInt8.toBitVec_inj.mp

theorem crcShift_xor (n : Nat) (a b s t : UInt8) :
    crcShift n (a ^^^ b) (s ^^^ t) = crcShift n a s ^^^ crcShift n b t := by
  induction n generalizing a b s t with
  | zero => rfl
  | succ n ih =>
    have hboth : ((a ^^^ b) &&& 1) ^^^ ((s ^^^ t) &&& 1) =
        ((a ^^^ s) &&& 1) ^^^ ((b ^^^ t) &&& 1) := by
      simp only [xor_and_one]
      ac_rfl
    have hcancel (x y k : UInt8) : (x ^^^ k) ^^^ (y ^^^ k) = x ^^^ y := by
      have hk : (x ^^^ k) ^^^ (y ^^^ k) = (x ^^^ y) ^^^ (k ^^^ k) := by ac_rfl
      rw [hk, UInt8.xor_self, UInt8.xor_zero]
    simp only [crcShift, shiftRight_xor, hboth]
    rw [← xor_and_one a s, ← xor_and_one b t, ← ih]
    congr 1
    rcases and_one_cases (a ^^^ s) with hu | hu <;> rcases and_one_cases (b ^^^ t) with hv | hv
    · simp [hu, hv]
    · simp [hu, hv, xor_assoc]
    · simp [hu, hv]
      ac_rfl
    · simp [hu, hv, hcancel]

/-- The check of a corrupted string: that of the string, and that of the error pattern. -/
theorem foldl_crcCalc_xor {d e : List UInt8} (f g : UInt8) (hlength : e.length = d.length) :
    (zipWith (· ^^^ ·) d e).foldl crcCalc (f ^^^ g) =
      d.foldl crcCalc f ^^^ e.foldl crcCalc g := by
  induction d generalizing e f g with
  | nil => rw [length_eq_zero_iff.mp hlength]; rfl
  | cons c d ih =>
    rcases exists_cons_of_length_eq_add_one hlength with ⟨x, e, rfl⟩
    have hbyte : crcCalc (f ^^^ g) (c ^^^ x) = crcCalc f c ^^^ crcCalc g x := by
      have hcomm : (f ^^^ g) ^^^ (c ^^^ x) = (f ^^^ c) ^^^ (g ^^^ x) := by ac_rfl
      rw [crcCalc, hcomm]
      exact crcShift_xor 8 _ _ 0 0
    rw [zipWith_cons_cons, foldl_cons, hbyte]
    exact ih _ _ (Nat.succ.inj hlength)

/-! ## Bursts -/

theorem crctable_eq_zero {x : UInt8} (h : crctable x = 0) : x = 0 := by
  have hall : ∀ x : BitVec 8, crctable ⟨x⟩ = 0 → x = 0 := by decide +kernel
  exact UInt8.toBitVec_inj.mp (hall x.toBitVec h)

/-- The rest of a burst in the next byte is never the state that the first byte leaves. -/
theorem crctable_burst : ∀ p < 8, ∀ b < 256,
    crctable (ofNat (b * 2 ^ p)) = ofNat (b * 2 ^ p / 256) → b = 0 := by
  decide +kernel

theorem foldl_last {n w : Nat} {f : UInt8} (hw : w < 256)
    (h : (leBytes n w).foldl crcCalc f = 0) : f = if n = 0 then 0 else ofNat w := by
  induction n generalizing w f with
  | zero => exact h
  | succ n ih =>
    rw [leBytes, foldl_cons, Nat.div_eq_of_lt hw] at h
    have hstate : crcCalc f (ofNat w) = 0 := (ih (Nat.zero_lt_succ _) h).trans (ite_self 0)
    exact UInt8.xor_eq_zero_iff.mp (crctable_eq_zero hstate)

/-- The check does not miss a burst of eight bits. -/
theorem foldl_burst {n b p : Nat} (hb : b < 256) (h : (leBytes n (b * 2 ^ p)).foldl crcCalc 0 = 0) :
    ∀ x ∈ leBytes n (b * 2 ^ p), x = 0 := by
  induction n generalizing p with
  | zero => simp [leBytes]
  | succ n ih =>
    rw [leBytes, foldl_cons] at h
    rw [leBytes, forall_mem_cons]
    by_cases hp : 8 ≤ p
    · rcases Nat.exists_eq_add_of_le' hp with ⟨q, rfl⟩
      have hshift : b * 2 ^ (q + 8) = 256 * (b * 2 ^ q) := by ring
      have hfirst : UInt8.ofNat (256 * (b * 2 ^ q)) = 0 := by
        apply UInt8.toNat_inj.mp
        simp
      rw [hshift, hfirst, Nat.mul_div_cancel_left _ (by decide)] at h ⊢
      exact ⟨rfl, ih h⟩
    · have hpow : 2 ^ p < 2 ^ 8 := Nat.pow_lt_pow_right (by decide) (by omega)
      have hrest : b * 2 ^ p / 256 < 256 := Nat.div_lt_of_lt_mul (Nat.mul_lt_mul'' hb hpow)
      have hlast := foldl_last hrest h
      rw [crcCalc, UInt8.zero_xor] at hlast
      cases n with
      | zero => exact ⟨crctable_eq_zero hlast, by simp [leBytes]⟩
      | succ n =>
        have hzero := crctable_burst p (by omega) b hb hlast
        subst hzero
        rw [Nat.zero_mul] at h ⊢
        exact ⟨rfl, ih (p := 0) h⟩

/-- A string with its check sequence passes the check, and fails it after an error in eight
consecutive bits of the string and its check sequence, the lowest bit of each byte first. -/
theorem fcs_detects_bursts (d : List UInt8) :
    crcCheck ((d ++ [crcData d]).foldl crcCalc crcStart) = true ∧
      ∀ b < 256, ∀ p, (∃ x ∈ leBytes (d.length + 1) (b * 2 ^ p), x ≠ 0) →
        crcCheck ((zipWith (· ^^^ ·) (d ++ [crcData d]) (leBytes (d.length + 1) (b * 2 ^ p))).foldl
          crcCalc crcStart) = false := by
  have hvalid : (d ++ [crcData d]).foldl crcCalc crcStart = crcValid := by
    rw [foldl_append]
    exact crcCalc_crcEnd _
  refine ⟨decide_eq_true hvalid, ?_⟩
  rintro b hb p ⟨x, hx, hne⟩
  refine decide_eq_false fun hpass => hne (foldl_burst hb ?_ x hx)
  have hxor := foldl_crcCalc_xor (d := d ++ [crcData d]) (e := leBytes (d.length + 1) (b * 2 ^ p))
    crcStart 0 (by simp)
  rw [xor_zero, hpass, hvalid] at hxor
  exact (UInt8.xor_right_inj crcValid).mp (hxor.symm.trans UInt8.xor_zero.symm)

/-- An error in the highest bit of an address byte and the lowest bit of its check sequence. -/
theorem fcs_detects_bursts_two_bytes :
    crcCheck ((zipWith (· ^^^ ·) ([7] ++ [crcData [7]]) [0x80, 1]).foldl crcCalc crcStart) =
      false :=
  (fcs_detects_bursts [7]).2 3 (by decide) 7 (by decide)

end LteModemKernel.Ts27010
