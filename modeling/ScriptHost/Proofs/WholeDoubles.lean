import ScriptHost.Proofs.Doubles

/-! # Order and whole part of doubles

Finite doubles are ordered as the numbers that they stand for. One with nothing behind its point is a whole number, from
which cutting off at the point takes nothing away; so within 32 bits it is cast to itself. -/

namespace ScriptHost.Decimal

open Float.Model (UnpackedFloat)
open Float.Model.UnpackedFloat (Sign)

namespace Dyadic

def size (d : Dyadic) : ℚ := d.mantissa * (2 : ℚ) ^ d.exponent

theorem value_eq_size (d : Dyadic) : d.value = if d.negative then -d.size else d.size := by
  unfold value signed size
  split
  · rw [Int.cast_neg, Int.cast_natCast, neg_mul]
  · rw [Int.cast_natCast]

theorem size_pos {d : Dyadic} (h : 0 < d.mantissa) : 0 < d.size := by
  unfold size
  positivity

theorem size_lt {d e : Dyadic} (hd : d.Canonical) (he : e.Canonical) (h : d.exponent < e.exponent) :
    d.size < e.size := by
  have hfull : (2 : ℚ) ^ 52 ≤ e.mantissa := by exact_mod_cast he.full (lt_of_le_of_lt hd.least h)
  have hsmall : (d.mantissa : ℚ) < 2 ^ 53 := by exact_mod_cast hd.small
  calc d.size < 2 ^ 53 * (2 : ℚ) ^ d.exponent := mul_lt_mul_of_pos_right hsmall (by positivity)
    _ = 2 ^ 52 * (2 : ℚ) ^ (d.exponent + 1) := by rw [zpow_add_one₀ (by norm_num)]; ring
    _ ≤ 2 ^ 52 * (2 : ℚ) ^ e.exponent := by gcongr <;> [norm_num; omega]
    _ ≤ e.size := by unfold size; gcongr

theorem size_le_iff {d e : Dyadic} (hd : d.Canonical) (he : e.Canonical) :
    ((compare d.exponent e.exponent).then (compare d.mantissa e.mantissa)).isLE = true ↔ d.size ≤ e.size := by
  rcases lt_trichotomy d.exponent e.exponent with hlt | heq | hgt
  · rw [compare_lt_iff_lt.mpr hlt]
    exact ⟨fun _ => (size_lt hd he hlt).le, fun _ => rfl⟩
  · have hpow : (0 : ℚ) < 2 ^ e.exponent := by positivity
    rw [compare_eq_iff_eq.mpr heq, size, size, heq, mul_le_mul_iff_left₀ hpow, Nat.cast_le]
    exact Nat.isLE_compare
  · rw [compare_gt_iff_gt.mpr hgt]
    exact ⟨nofun, fun hle => absurd (size_lt he hd hgt) (not_lt.mpr hle)⟩

end Dyadic

theorem swap_compare (e f : Int) (m n : Nat) :
    ((compare e f).then (compare m n)).swap = (compare f e).then (compare n m) := by
  rw [Ordering.swap_then, ← Std.OrientedCmp.eq_swap, ← Std.OrientedCmp.eq_swap]

/-- Of two numbers the signs are compared, and below one sign the exponents and then the mantissas. -/
theorem le_parts {u v : UnpackedFloat} {d e : Dyadic} (hu : readParts u = .finite d) (hv : readParts v = .finite e)
    (hd : d.Canonical) (he : e.Canonical) : u.le v = true ↔ d.value ≤ e.value := by
  rw [UnpackedFloat.le]
  -- a zero has neither exponent nor mantissa, so that next to one the sign of the other number decides
  cases u with
  | notANumber | infinity => cases hu
  | zero s =>
    cases hu
    rw [value_zero]
    cases v with
    | notANumber | infinity => cases hv
    | zero t =>
      cases hv
      rw [value_zero]
      exact ⟨fun _ => le_rfl, fun _ => rfl⟩
    | finite t n f hn =>
      cases hv
      have hsize := Dyadic.size_pos (d := ⟨isMinus t, n, f⟩) hn
      rw [Dyadic.value_eq_size]
      cases t with
      | negative => exact ⟨nofun, fun h => absurd hsize (not_lt.mpr (neg_nonneg.mp h))⟩
      | positive => exact ⟨fun _ => hsize.le, fun _ => rfl⟩
  | finite s m e hm =>
    cases hu
    have hsize := Dyadic.size_pos (d := ⟨isMinus s, m, e⟩) hm
    rw [Dyadic.value_eq_size]
    cases v with
    | notANumber | infinity => cases hv
    | zero t =>
      cases hv
      rw [value_zero]
      cases s with
      | negative => exact ⟨fun _ => neg_nonpos.mpr hsize.le, fun _ => rfl⟩
      | positive => exact ⟨nofun, fun h => absurd hsize (not_lt.mpr h)⟩
    | finite t n f hn =>
      cases hv
      have hsize' := Dyadic.size_pos (d := ⟨isMinus t, n, f⟩) hn
      rw [Dyadic.value_eq_size ⟨isMinus t, n, f⟩]
      cases s with
      | negative =>
        cases t with
        | negative =>
          change (((compare e f).then (compare m n)).swap.isLE) = true ↔ -_ ≤ -_
          rw [swap_compare, neg_le_neg_iff]
          exact Dyadic.size_le_iff he hd
        | positive => exact ⟨fun _ => (neg_nonpos.mpr hsize.le).trans hsize'.le, fun _ => rfl⟩
      | positive =>
        cases t with
        | negative => exact ⟨nofun, fun h => absurd (hsize.trans_le h) (not_lt.mpr (neg_nonpos.mpr hsize'.le))⟩
        | positive => exact Dyadic.size_le_iff hd he

theorem le_iff {x y : Float} {d e : Dyadic} (hx : read x = .finite d) (hy : read y = .finite e) :
    x ≤ y ↔ d.value ≤ e.value := by
  have h := le_parts ((read_eq x).symm.trans hx) ((read_eq y).symm.trans hy) (canonical_of_read hx)
    (canonical_of_read hy)
  rw [← h]
  change (decide (x.toModel ≤ y.toModel)) = true ↔ _
  rw [decide_eq_true_iff]
  rfl

theorem zpow_eq_div {b : ℚ} (hb : b ≠ 0) (e : Int) : b ^ e = b ^ e.toNat / b ^ (-e).toNat := by
  rw [← zpow_natCast, ← zpow_natCast, ← zpow_sub₀ hb]
  congr 1
  omega

namespace Dyadic

def cut (d : Dyadic) : Int :=
  let n : ℕ := d.mantissa * 2 ^ d.exponent.toNat / 2 ^ (-d.exponent).toNat
  if d.negative then -(n : Int) else n

/-- With nothing behind the point the whole part is the number. -/
theorem cut_eq_value {d : Dyadic} (h : d.fraction.mantissa = 0) : (d.cut : ℚ) = d.value := by
  have hdvd : 2 ^ (-d.exponent).toNat ∣ d.mantissa * 2 ^ d.exponent.toNat :=
    (Nat.dvd_of_mod_eq_zero h).mul_right _
  have hpow : (2 : ℚ) ^ d.exponent = 2 ^ d.exponent.toNat / 2 ^ (-d.exponent).toNat := zpow_eq_div (by norm_num) _
  have hsize : ((d.mantissa * 2 ^ d.exponent.toNat / 2 ^ (-d.exponent).toNat : ℕ) : ℚ) = d.size := by
    rw [Nat.cast_div hdvd (by positivity), size, hpow]
    push_cast
    ring
  rw [value_eq_size, ← hsize, cut]
  split <;> push_cast <;> rfl

theorem fraction_of_value {d : Dyadic} {n : Int} (h : d.value = n) : d.fraction.mantissa = 0 := by
  change d.mantissa % 2 ^ (-d.exponent).toNat = 0
  by_cases hpoint : 0 ≤ d.exponent
  · rw [show (-d.exponent).toNat = 0 by omega, pow_zero, Nat.mod_one]
  · obtain ⟨k, hk⟩ : ∃ k : ℕ, d.exponent = -(k : Int) := ⟨(-d.exponent).toNat, by omega⟩
    have hsigned : d.signed = n * 2 ^ k := by
      rw [value, hk, zpow_neg, zpow_natCast, mul_inv_eq_iff_eq_mul₀ (by positivity)] at h
      exact_mod_cast h
    have hmantissa : d.mantissa = n.natAbs * 2 ^ k := by
      rw [← natAbs_signed, hsigned, Int.natAbs_mul, Int.natAbs_pow]
      rfl
    rw [hk, neg_neg, Int.toNat_natCast, hmantissa, Nat.mul_mod_left]

end Dyadic

theorem mantissa_shiftRight (em : UnpackedFloat.ExtendedMantissa) (k : ℕ) :
    (em >>> k).mantissa = em.mantissa / 2 ^ k := by
  induction k with
  | zero => exact (Nat.div_one _).symm
  | succ k ih =>
    change (em >>> k).mantissa / 2 = _
    rw [ih, Nat.div_div_eq_div_mul, pow_succ]

theorem roundToInt_eq (s : Sign) (m : ℕ) (e : Int) :
    UnpackedFloat.roundToInt s m e = (⟨isMinus s, m, e⟩ : Dyadic).cut := by
  have hscaled : m <<< (e - 0).toNat = m * 2 ^ e.toNat := by rw [Nat.shiftLeft_eq, Int.sub_zero]
  have hplaces : (0 - (e - ((e - 0).toNat : Int))).toNat = (-e).toNat := by omega
  simp only [UnpackedFloat.roundToInt, UnpackedFloat.decreaseExponent, UnpackedFloat.shiftToExponent, hscaled, hplaces,
    mantissa_shiftRight]
  cases s <;> rfl

theorem toInt32_eq {x : Float} {d : Dyadic} (hx : read x = .finite d) : toInt32 x = Int32.ofIntClamp d.cut := by
  rw [read_eq] at hx
  change Int32.ofIntClamp (UnpackedFloat.toInt _ _ _) = _
  congr 1
  cases hparts : x.toModel.unpack with
  | notANumber | infinity =>
    rw [hparts] at hx
    cases hx
  | zero s =>
    rw [hparts] at hx
    cases hx
    simp only [UnpackedFloat.toInt, Dyadic.cut, Nat.zero_mul, Nat.zero_div, Int.natCast_zero, Int.neg_zero, ite_self]
  | finite s m e hm =>
    rw [hparts] at hx
    cases hx
    exact roundToInt_eq s m e

theorem hasNoFraction_iff (x : Float) : hasNoFraction x = true ↔ ∃ d, read x = .finite d ∧ d.fraction.mantissa = 0 := by
  unfold hasNoFraction fraction
  cases hread : read x with
  | notANumber | infinite => exact ⟨nofun, nofun⟩
  | finite d =>
    rw [beq_iff_eq]
    exact ⟨fun h => ⟨d, rfl, h⟩, fun ⟨e, he, h⟩ => by cases he; exact h⟩

end ScriptHost.Decimal
