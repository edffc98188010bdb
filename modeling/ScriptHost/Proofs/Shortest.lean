import ScriptHost.Decimal.Digits
import ScriptHost.Proofs.WholeDoubles

/-! # The fewest digits of a double

The digits that are chosen for a double are a number nearer to it than to any other double, as far as the format of
doubles goes. No number is that near to two of them, so the digits tell which double was meant. -/

namespace ScriptHost.Decimal

def Scaled.value (s : Scaled) : ℚ := s.digits * (10 : ℚ) ^ s.exponent

/-- A quotient is rounded by a half at most. -/
theorem roundQuotient_near (num : ℕ) {den : ℕ} (hden : 0 < den) :
    2 * num ≤ (2 * roundQuotient num den + 1) * den ∧ 2 * roundQuotient num den * den ≤ 2 * num + den := by
  have hdivision := Nat.div_add_mod num den
  have hmod := Nat.mod_lt num hden
  unfold roundQuotient
  simp only
  generalize num / den = q at *
  generalize num % den = r at *
  subst hdivision
  split
  · next hup =>
    have hhalf : den ≤ 2 * r := by omega
    constructor <;> linarith
  · next hdown =>
    have hhalf : 2 * r ≤ den := by omega
    constructor <;> linarith

theorem stripZeros_value (fuel : ℕ) (s : Scaled) : (stripZeros fuel s).value = s.value := by
  induction fuel generalizing s with
  | zero => rfl
  | succ fuel ih =>
    rw [stripZeros]
    split
    · next hzero =>
      have hdigits : (s.digits : ℚ) = 10 * (s.digits / 10 : ℕ) := by
        exact_mod_cast (Nat.mul_div_cancel' (Nat.dvd_of_mod_eq_zero hzero)).symm
      rw [ih, Scaled.value, Scaled.value, zpow_add_one₀ (by norm_num), hdigits]
      ring
    · rfl

section

variable (num : ℕ) {den : ℕ} (hden : 0 < den) (exponent : Int)

include hden

theorem unscaleTen_pos : 0 < (unscaleTen num den exponent).2 := Nat.mul_pos hden (Nat.pow_pos (by decide))

theorem unscaleTen_value : ((unscaleTen num den exponent).1 : ℚ) / (unscaleTen num den exponent).2 =
    num / den / 10 ^ exponent := by
  have hden' : (den : ℚ) ≠ 0 := Nat.cast_ne_zero.mpr hden.ne'
  rw [zpow_eq_div (by norm_num) exponent, unscaleTen]
  push_cast
  field_simp

/-- On a grid nothing is nearer to a fraction than its rounded quotient. -/
theorem grid_near : 2 * |(⟨roundQuotient (unscaleTen num den exponent).1 (unscaleTen num den exponent).2, exponent⟩ :
    Scaled).value - num / den| ≤ 10 ^ exponent := by
  have hpos : (0 : ℚ) < (unscaleTen num den exponent).2 := by exact_mod_cast unscaleTen_pos num hden exponent
  have hpow : (0 : ℚ) < 10 ^ exponent := by positivity
  have hvalue : (num : ℚ) / den =
      (unscaleTen num den exponent).1 / (unscaleTen num den exponent).2 * 10 ^ exponent := by
    rw [unscaleTen_value num hden, div_mul_cancel₀ _ hpow.ne']
  obtain ⟨hlow, hhigh⟩ := roundQuotient_near (unscaleTen num den exponent).1 (unscaleTen_pos num hden exponent)
  rw [hvalue, Scaled.value, ← sub_mul, abs_mul, abs_of_pos hpow, ← mul_assoc]
  refine mul_le_of_le_one_left hpow.le ?_
  generalize roundQuotient _ _ = q at *
  generalize (unscaleTen num den exponent).1 = n at *
  generalize (unscaleTen num den exponent).2 = d at *
  have hlow' : (2 : ℚ) * n ≤ (2 * q + 1) * d := by exact_mod_cast hlow
  have hhigh' : (2 : ℚ) * q * d ≤ 2 * n + d := by exact_mod_cast hhigh
  have hupper : (n : ℚ) / d ≤ q + 1 / 2 := by
    rw [div_le_iff₀ hpos]
    linarith
  have hlower : (q : ℚ) - 1 / 2 ≤ n / d := by
    rw [le_div_iff₀ hpos]
    linarith
  rw [← le_div_iff₀' (by norm_num), abs_le]
  constructor <;> linarith

theorem reaches_iff : reaches num den exponent = true ↔ (10 : ℚ) ^ exponent ≤ num / den := by
  have hpos : (0 : ℚ) < (unscaleTen num den exponent).2 := by exact_mod_cast unscaleTen_pos num hden exponent
  have hpow : (0 : ℚ) < 10 ^ exponent := by positivity
  rw [← one_le_div hpow, ← unscaleTen_value num hden, one_le_div hpos, Nat.cast_le, reaches]
  exact decide_eq_true_iff

end

theorem powers_near : ∀ k < 1100, 10 ^ (k * 30103 / 100000) ≤ 10 * 2 ^ k ∧ 2 ^ k ≤ 10 * 10 ^ (k * 30103 / 100000) := by
  decide +kernel

/-- Powers of two are guessed to within a digit, as far as doubles go. -/
theorem guess_le {k : Int} (hlow : -1100 < k) (hhigh : k < 1100) :
    (10 : ℚ) ^ (k * 30103 / 100000 - 1) ≤ 2 ^ k := by
  rcases Int.le_total 0 k with hsign | hsign
  · obtain ⟨n, rfl⟩ := Int.eq_ofNat_of_zero_le hsign
    have hnear : (10 : ℚ) ^ (n * 30103 / 100000) ≤ 10 * 2 ^ n := by exact_mod_cast (powers_near n (by omega)).1
    have hexponent : ((n : Int) * 30103 / 100000) = ((n * 30103 / 100000 : ℕ) : Int) := by push_cast; rfl
    rw [hexponent, zpow_sub_one₀ (by norm_num), zpow_natCast, zpow_natCast]
    linarith
  · obtain ⟨n, rfl⟩ := Int.exists_eq_neg_ofNat hsign
    have hnear : (2 : ℚ) ^ n ≤ 10 * 10 ^ (n * 30103 / 100000) := by exact_mod_cast (powers_near n (by omega)).2
    have hexponent : -(n : Int) * 30103 / 100000 - 1 ≤ -((n * 30103 / 100000 + 1 : ℕ) : Int) := by omega
    calc (10 : ℚ) ^ (-(n : Int) * 30103 / 100000 - 1)
        ≤ 10 ^ (-((n * 30103 / 100000 + 1 : ℕ) : Int)) := zpow_le_zpow_right₀ (by norm_num) hexponent
      _ = (10 ^ (n * 30103 / 100000 + 1))⁻¹ := by rw [zpow_neg, zpow_natCast]
      _ ≤ (2 ^ n)⁻¹ := by
        refine inv_anti₀ (by positivity) ?_
        rw [pow_succ]
        linarith
      _ = 2 ^ (-(n : Int)) := by rw [zpow_neg, zpow_natCast]

/-- Powers of two are guessed to within two digits from above. -/
theorem le_guess {k : Int} (hlow : -1100 < k) (hhigh : k < 1100) :
    (2 : ℚ) ^ k ≤ 10 ^ (k * 30103 / 100000 + 2) := by
  rcases Int.le_total 0 k with hsign | hsign
  · obtain ⟨n, rfl⟩ := Int.eq_ofNat_of_zero_le hsign
    have hnear : (2 : ℚ) ^ n ≤ 10 * 10 ^ (n * 30103 / 100000) := by exact_mod_cast (powers_near n (by omega)).2
    have hexponent : ((n : Int) * 30103 / 100000) = ((n * 30103 / 100000 : ℕ) : Int) := by push_cast; rfl
    have hpow : (0 : ℚ) < 10 ^ (n * 30103 / 100000) := by positivity
    rw [hexponent, zpow_add₀ (by norm_num), zpow_natCast, zpow_natCast]
    linarith
  · obtain ⟨n, rfl⟩ := Int.exists_eq_neg_ofNat hsign
    have hnear : (10 : ℚ) ^ (n * 30103 / 100000) ≤ 10 * 2 ^ n := by exact_mod_cast (powers_near n (by omega)).1
    have hexponent : 1 + -((n * 30103 / 100000 : ℕ) : Int) ≤ -(n : Int) * 30103 / 100000 + 2 := by omega
    calc (2 : ℚ) ^ (-(n : Int)) = (2 ^ n)⁻¹ := by rw [zpow_neg, zpow_natCast]
      _ = 10 * (10 * (2 : ℚ) ^ n)⁻¹ := by rw [mul_inv, mul_inv_cancel_left₀ (by norm_num)]
      _ ≤ 10 * ((10 : ℚ) ^ (n * 30103 / 100000))⁻¹ := by
        gcongr
      _ = 10 ^ (1 + -((n * 30103 / 100000 : ℕ) : Int)) := by
        rw [zpow_add₀ (by norm_num), zpow_neg, zpow_natCast, zpow_one]
      _ ≤ 10 ^ (-(n : Int) * 30103 / 100000 + 2) := zpow_le_zpow_right₀ (by norm_num) hexponent

theorem log2_quotient {num den : ℕ} (hnum : 0 < num) (hden : 0 < den) :
    (2 : ℚ) ^ ((num.log2 : Int) - den.log2 - 1) ≤ num / den := by
  have hlow : (2 : ℚ) ^ num.log2 ≤ num := by exact_mod_cast Nat.log2_self_le hnum.ne'
  have hhigh : (den : ℚ) ≤ 2 ^ (den.log2 + 1) := by exact_mod_cast Nat.lt_log2_self.le
  have hpos : (0 : ℚ) < den := Nat.cast_pos.mpr hden
  have hsplit : (2 : ℚ) ^ ((num.log2 : Int) - den.log2 - 1) = 2 ^ num.log2 / 2 ^ (den.log2 + 1) := by
    rw [sub_sub, zpow_sub₀ (by norm_num), zpow_natCast]
    rfl
  rw [hsplit]
  gcongr

theorem quotient_log2 (num : ℕ) {den : ℕ} (hden : 0 < den) :
    (num : ℚ) / den < 2 ^ ((num.log2 : Int) - den.log2 - 1 + 2) := by
  have hhigh : (num : ℚ) < 2 ^ (num.log2 + 1) := by exact_mod_cast Nat.lt_log2_self
  have hlow : (2 : ℚ) ^ den.log2 ≤ den := by exact_mod_cast Nat.log2_self_le hden.ne'
  have hsplit : (2 : ℚ) ^ ((num.log2 : Int) - den.log2 - 1 + 2) = 2 ^ (num.log2 + 1) / 2 ^ den.log2 := by
    rw [← zpow_natCast, ← zpow_natCast, ← zpow_sub₀ (by norm_num)]
    congr 1
    push_cast
    ring
  rw [hsplit]
  exact div_lt_div₀ hhigh hlow (by positivity) (by positivity)

theorem log_eq {q : ℚ} {e : Int} (hlow : 10 ^ e ≤ q) (hhigh : q < 10 ^ (e + 1)) : Int.log 10 q = e := by
  have hpos : 0 < q := lt_of_lt_of_le (by positivity) hlow
  have hle := (Int.zpow_le_iff_le_log (b := 10) (by norm_num) hpos).mp (by exact_mod_cast hlow)
  have hlt := (Int.lt_zpow_iff_log_lt (b := 10) (by norm_num) hpos).mp (by exact_mod_cast hhigh)
  omega

theorem zpow_log_le {q : ℚ} (hpos : 0 < q) : 10 ^ Int.log 10 q ≤ q := by
  exact_mod_cast Int.zpow_log_le_self (b := 10) (by norm_num) hpos

theorem lt_zpow_log (q : ℚ) : q < 10 ^ (Int.log 10 q + 1) := by
  exact_mod_cast Int.lt_zpow_succ_log_self (b := 10) (by norm_num) q

/-- The leading digit is not sought too high. -/
theorem leading_le {num den : ℕ} (hnum : 0 < num) (hden : 0 < den) (hlow : -1100 < (num.log2 : Int) - den.log2 - 1)
    (hhigh : (num.log2 : Int) - den.log2 - 1 < 1100) : (10 : ℚ) ^ leading num den ≤ num / den := by
  have hguess := (guess_le hlow hhigh).trans (log2_quotient hnum hden)
  unfold leading
  simp only
  split
  · next h => exact (reaches_iff num hden _).mp h
  split
  · next h => exact (reaches_iff num hden _).mp h
  split
  · next h => exact (reaches_iff num hden _).mp h
  · exact hguess

/-- The leading digit is found where it is, as far as doubles go. -/
theorem leading_eq_log {num den : ℕ} (hnum : 0 < num) (hden : 0 < den)
    (hlow : -1100 < (num.log2 : Int) - den.log2 - 1) (hhigh : (num.log2 : Int) - den.log2 - 1 < 1100) :
    leading num den = Int.log 10 (num / den : ℚ) := by
  refine (log_eq (leading_le hnum hden hlow hhigh) ?_).symm
  have hguess := le_guess hlow hhigh
  have hvalue := quotient_log2 num hden
  have hreaches (e : Int) : ¬ reaches num den e = true ↔ (num : ℚ) / den < 10 ^ e := by
    rw [reaches_iff num hden, not_le]
  unfold leading
  simp only
  generalize (num.log2 : Int) - den.log2 - 1 = k at *
  split
  · calc (num : ℚ) / den < 2 ^ (k + 2) := hvalue
      _ = 4 * 2 ^ k := by rw [zpow_add₀ (by norm_num)]; ring
      _ ≤ 10 * 10 ^ (k * 30103 / 100000 + 2) := by gcongr; norm_num
      _ = 10 ^ (k * 30103 / 100000 + 2 + 1) := by rw [zpow_add_one₀ (by norm_num)]; ring
  split
  · next h _ =>
    rw [add_assoc, one_add_one_eq_two]
    exact (hreaches _).mp h
  split
  · next h _ => exact (hreaches _).mp h
  · next h =>
    rw [sub_add_cancel]
    exact (hreaches _).mp h

namespace Dyadic

/-- The quarters of the last place by which a number may lie below. -/
def below (d : Dyadic) : ℕ := if d.mantissa = 2 ^ 52 ∧ -1074 < d.exponent then 1 else 2

theorem below_pos (d : Dyadic) : 0 < d.below := by
  unfold below
  split <;> decide

theorem below_le (d : Dyadic) : (d.below : ℚ) ≤ 2 := by
  unfold below
  split <;> norm_num

/-- A number that is nearer to a double than to any other; a number between two doubles counts for the even one. -/
def Covers (d : Dyadic) (x : ℚ) : Prop :=
  if d.mantissa % 2 = 0 then
    (4 * d.mantissa - d.below) * 2 ^ d.exponent ≤ 4 * x ∧ 4 * x ≤ (4 * d.mantissa + 2) * 2 ^ d.exponent
  else (4 * d.mantissa - d.below) * 2 ^ d.exponent < 4 * x ∧ 4 * x < (4 * d.mantissa + 2) * 2 ^ d.exponent

theorem Covers.le {d : Dyadic} {x : ℚ} (h : d.Covers x) :
    (4 * d.mantissa - d.below) * 2 ^ d.exponent ≤ 4 * x ∧ 4 * x ≤ (4 * d.mantissa + 2) * 2 ^ d.exponent := by
  unfold Covers at h
  split at h
  · exact h
  · exact ⟨h.1.le, h.2.le⟩

theorem Covers.lt_of_odd {d : Dyadic} {x : ℚ} (h : d.Covers x) (hodd : d.mantissa % 2 = 1) :
    (4 * d.mantissa - d.below) * 2 ^ d.exponent < 4 * x ∧ 4 * x < (4 * d.mantissa + 2) * 2 ^ d.exponent := by
  rwa [Covers, if_neg (by omega)] at h

theorem covers_of_near {d : Dyadic} {x : ℚ} (h : 4 * |x - d.size| < d.below * 2 ^ d.exponent) : d.Covers x := by
  have hwidth := mul_le_mul_of_nonneg_right d.below_le (show (0 : ℚ) ≤ 2 ^ d.exponent by positivity)
  have hinside : (4 * d.mantissa - d.below) * 2 ^ d.exponent < 4 * x ∧
      4 * x < (4 * d.mantissa + 2) * 2 ^ d.exponent := by
    have hsize : d.size = d.mantissa * 2 ^ d.exponent := rfl
    obtain ⟨hlow, hhigh⟩ := abs_lt.mp (show |x - d.size| < d.below * 2 ^ d.exponent / 4 by linarith)
    constructor <;> linarith
  unfold Covers
  split
  · exact ⟨hinside.1.le, hinside.2.le⟩
  · exact hinside

theorem covers_size (d : Dyadic) : d.Covers d.size := by
  have hbelow := d.below_pos
  refine covers_of_near ?_
  rw [sub_self, abs_zero, mul_zero]
  positivity

namespace Covers

variable {d : Dyadic}

theorem between {p q r : ℚ} (hp : d.Covers p) (hr : d.Covers r) (hpq : p ≤ q) (hqr : q ≤ r) : d.Covers q := by
  unfold Covers at *
  split
  · next heven =>
    rw [if_pos heven] at hp hr
    constructor <;> linarith
  · next hodd =>
    rw [if_neg hodd] at hp hr
    constructor <;> linarith

variable {q : ℚ} (h : d.Covers q)

include h

theorem pos (hpos : 0 < d.mantissa) : 0 < q := by
  have hbelow := d.below_le
  have hone : (1 : ℚ) ≤ d.mantissa := by exact_mod_cast hpos
  have hpow : (0 : ℚ) < 2 ^ d.exponent := by positivity
  have hlow := h.le.1
  nlinarith

theorem distance : |q - d.size| * 2 ≤ 2 ^ d.exponent := by
  have hwidth := mul_le_mul_of_nonneg_right d.below_le (show (0 : ℚ) ≤ 2 ^ d.exponent by positivity)
  have hsize : d.size = d.mantissa * 2 ^ d.exponent := rfl
  obtain ⟨hlow, hhigh⟩ := h.le
  rw [← le_div_iff₀ (by norm_num), abs_le]
  constructor <;> linarith

end Covers

theorem Canonical.le_lower_end {d : Dyadic} (hd : d.Canonical) (hleast : -1074 < d.exponent) :
    (2 ^ 54 - 1 : ℚ) ≤ 4 * d.mantissa - d.below := by
  have hfull := hd.full hleast
  have hroom : 2 ^ 54 - 1 + d.below ≤ 4 * d.mantissa := by
    unfold below
    split <;> omega
  have hcast : ((2 ^ 54 - 1 + d.below : ℕ) : ℚ) ≤ ((4 * d.mantissa : ℕ) : ℚ) := Nat.cast_le.mpr hroom
  push_cast at hcast
  linarith

section

variable {d e : Dyadic} (hd : d.Canonical) {x : ℚ} (hdx : d.Covers x) (hex : e.Covers x)

include hd hdx hex

/-- With the greater exponent there is at least the half of a place on either side, where a power of two leaves a quarter
only. -/
theorem not_covers_both_of_exponent_lt (he : e.Canonical) (hlt : d.exponent < e.exponent) : False := by
  have hpow : (0 : ℚ) < 2 ^ d.exponent := by positivity
  have hhigh := hdx.le.2
  have hlow := hex.le.1
  have hsmall := hd.small
  have hstep : (2 : ℚ) * 2 ^ d.exponent ≤ 2 ^ e.exponent := by
    rw [mul_comm, ← zpow_add_one₀ (by norm_num)]
    exact zpow_le_zpow_right₀ (by norm_num) (by omega)
  have hroom := he.le_lower_end (lt_of_le_of_lt hd.least hlt)
  have hstart : (2 ^ 54 - 1 : ℚ) * (2 * 2 ^ d.exponent) ≤ (4 * e.mantissa - e.below) * 2 ^ e.exponent := by
    gcongr
  rcases Nat.mod_two_eq_zero_or_one d.mantissa with heven | hodd
  · have hend : (d.mantissa : ℚ) + 2 ≤ 2 ^ 53 := by exact_mod_cast (show d.mantissa + 2 ≤ 2 ^ 53 by omega)
    nlinarith
  · have hend : (d.mantissa : ℚ) + 1 ≤ 2 ^ 53 := by exact_mod_cast hsmall
    have hstrict := (hdx.lt_of_odd hodd).2
    nlinarith

/-- With the same exponent there is half a place on either side, and neighbours are not both even. -/
theorem not_covers_both_of_mantissa_lt (heq : d.exponent = e.exponent) (hlt : d.mantissa < e.mantissa) : False := by
  have hpow : (0 : ℚ) < 2 ^ d.exponent := by positivity
  have hbelow : e.below = 2 := by
    refine if_neg fun ⟨hfirst, hleast⟩ => ?_
    have hfull := hd.full (heq ▸ hleast)
    omega
  have hhigh := hdx.le.2
  have hlow := hex.le.1
  rw [hbelow, ← heq] at hlow
  push_cast at hlow
  rcases Nat.mod_two_eq_zero_or_one d.mantissa with heven | hodd
  · rcases Nat.mod_two_eq_zero_or_one e.mantissa with heven' | hodd'
    · have hapart : (d.mantissa : ℚ) + 2 ≤ e.mantissa := by exact_mod_cast (show d.mantissa + 2 ≤ e.mantissa by omega)
      nlinarith
    · have hnext : (d.mantissa : ℚ) + 1 ≤ e.mantissa := by exact_mod_cast hlt
      have hstrict := (hex.lt_of_odd hodd').1
      rw [hbelow, ← heq] at hstrict
      push_cast at hstrict
      nlinarith
  · have hnext : (d.mantissa : ℚ) + 1 ≤ e.mantissa := by exact_mod_cast hlt
    have hstrict := (hdx.lt_of_odd hodd).2
    nlinarith

/-- Between a double and a greater one nothing counts for both. -/
theorem not_covers_both (he : e.Canonical)
    (h : d.exponent < e.exponent ∨ d.exponent = e.exponent ∧ d.mantissa < e.mantissa) : False := by
  rcases h with hlt | ⟨heq, hlt⟩
  · exact not_covers_both_of_exponent_lt hd hdx hex he hlt
  · exact not_covers_both_of_mantissa_lt hd hdx hex heq hlt

end

theorem Covers.unique {d e : Dyadic} {x : ℚ} (hdx : d.Covers x) (hex : e.Covers x) (hd : d.Canonical)
    (he : e.Canonical) : d.mantissa = e.mantissa ∧ d.exponent = e.exponent := by
  rcases lt_trichotomy d.exponent e.exponent with hlt | heq | hgt
  · exact (not_covers_both hd hdx hex he (.inl hlt)).elim
  · rcases lt_trichotomy d.mantissa e.mantissa with hlt' | heq' | hgt'
    · exact (not_covers_both hd hdx hex he (.inr ⟨heq, hlt'⟩)).elim
    · exact ⟨heq', heq⟩
    · exact (not_covers_both he hex hdx hd (.inr ⟨heq.symm, hgt'⟩)).elim
  · exact (not_covers_both he hex hdx hd (.inl hgt)).elim

end Dyadic

namespace Interval

variable (i : Interval)

theorem holds_iff (hden : 0 < i.den) (s : Scaled) : i.holds s = true ↔
    if i.closed then (i.low : ℚ) / i.den ≤ s.value ∧ s.value ≤ i.high / i.den
    else (i.low : ℚ) / i.den < s.value ∧ s.value < i.high / i.den := by
  have hden' : (0 : ℚ) < i.den := Nat.cast_pos.mpr hden
  have hpow : (0 : ℚ) < 10 ^ (-s.exponent).toNat := by positivity
  have hvalue : s.value = s.digits * 10 ^ s.exponent.toNat / 10 ^ (-s.exponent).toNat := by
    rw [Scaled.value, zpow_eq_div (by norm_num), mul_div_assoc]
  rw [hvalue, div_le_div_iff₀ hden' hpow, div_le_div_iff₀ hpow hden', div_lt_div_iff₀ hden' hpow,
    div_lt_div_iff₀ hpow hden', holds]
  split <;> rw [Bool.and_eq_true, decide_eq_true_iff, decide_eq_true_iff] <;> norm_cast

theorem holds_of_onGrid {exponent : Int} {s : Scaled} (h : i.onGrid exponent = some s) : i.holds s = true := by
  unfold onGrid at h
  simp only at h
  split_ifs at h <;> exact Option.some.inj h ▸ ‹_›

def rounded (exponent : Int) : Scaled :=
  ⟨roundQuotient (unscaleTen i.value i.den exponent).1 (unscaleTen i.value i.den exponent).2, exponent⟩

/-- A point is found if at least the finest grid has one. -/
theorem holds_shortestFrom {fuel : ℕ} {exponent : Int} (h : i.holds (i.rounded (exponent - fuel)) = true) :
    i.holds (i.shortestFrom fuel exponent) = true := by
  induction fuel generalizing exponent with
  | zero => rwa [Nat.cast_zero, sub_zero] at h
  | succ fuel ih =>
    rw [shortestFrom]
    cases hgrid : i.onGrid exponent with
    | some s => exact i.holds_of_onGrid hgrid
    | none =>
      refine ih ?_
      rwa [Nat.cast_succ, add_comm, ← sub_sub] at h

theorem rounded_near (hden : 0 < i.den) (exponent : Int) :
    2 * |(i.rounded exponent).value - i.value / i.den| ≤ 10 ^ exponent := grid_near i.value hden exponent

end Interval

namespace Dyadic

variable {d : Dyadic}

theorem zero_lt_den (m : ℕ) (e : Int) : 0 < (interval m e).den := by
  unfold interval
  positivity

theorem value_interval (d : Dyadic) :
    ((interval d.mantissa d.exponent).value : ℚ) / (interval d.mantissa d.exponent).den = d.size := by
  rw [size, zpow_eq_div (by norm_num), interval]
  push_cast
  field_simp

theorem holds_interval (hpos : 0 < d.mantissa) (s : Scaled) :
    (interval d.mantissa d.exponent).holds s = true ↔ d.Covers s.value := by
  have hbelow : d.below ≤ 4 * d.mantissa := by
    unfold below
    split <;> omega
  have hlow : ((interval d.mantissa d.exponent).low : ℚ) / (interval d.mantissa d.exponent).den =
      (4 * d.mantissa - d.below) * 2 ^ d.exponent / 4 := by
    change (((4 * d.mantissa - d.below) * 2 ^ d.exponent.toNat : ℕ) : ℚ) / ((4 * 2 ^ (-d.exponent).toNat : ℕ) : ℚ) = _
    rw [zpow_eq_div (by norm_num) d.exponent, Nat.cast_mul, Nat.cast_sub hbelow]
    push_cast
    field_simp
  have hhigh : ((interval d.mantissa d.exponent).high : ℚ) / (interval d.mantissa d.exponent).den =
      (4 * d.mantissa + 2) * 2 ^ d.exponent / 4 := by
    rw [zpow_eq_div (by norm_num) d.exponent, interval]
    push_cast
    field_simp
  have hfour : (0 : ℚ) < 4 := by norm_num
  rw [Interval.holds_iff _ (zero_lt_den _ _), hlow, hhigh, Covers]
  simp only [div_le_iff₀' hfour, le_div_iff₀' hfour, div_lt_iff₀' hfour, lt_div_iff₀' hfour, interval,
    decide_eq_true_iff]

theorem leading_of_size (hd : d.Canonical) (hmost : d.exponent < 1000) (hpos : 0 < d.mantissa) {num den : ℕ}
    (hden : 0 < den) (h : (num : ℚ) / den = d.size) : leading num den = Int.log 10 d.size := by
  have hsize : 0 < d.size := size_pos hpos
  have hnum : 0 < num := by
    rw [← h] at hsize
    refine Nat.pos_of_ne_zero fun hzero => ?_
    rw [hzero, Nat.cast_zero, zero_div] at hsize
    exact lt_irrefl _ hsize
  have hpow : (0 : ℚ) < 2 ^ d.exponent := by positivity
  have hone : (1 : ℚ) ≤ d.mantissa := by exact_mod_cast hpos
  have hmantissa : (d.mantissa : ℚ) < 2 ^ 53 := by exact_mod_cast hd.small
  have hlarge : 2 ^ (-1074 : Int) ≤ d.size :=
    (zpow_le_zpow_right₀ (by norm_num) hd.least).trans (le_mul_of_one_le_left hpow.le hone)
  have hsmall : d.size < 2 ^ (1053 : Int) := by
    calc d.size < 2 ^ 53 * 2 ^ d.exponent := mul_lt_mul_of_pos_right hmantissa hpow
      _ = 2 ^ (53 + d.exponent) := by rw [zpow_add₀ (by norm_num)]; rfl
      _ ≤ 2 ^ (1053 : Int) := zpow_le_zpow_right₀ (by norm_num) (by omega)
  have hlow := log2_quotient hnum hden
  have hhigh := quotient_log2 num hden
  rw [h] at hlow hhigh
  have hless := (zpow_lt_zpow_iff_right₀ (by norm_num)).mp (hlow.trans_lt hsmall)
  have hmore := (zpow_lt_zpow_iff_right₀ (by norm_num)).mp (hlarge.trans_lt hhigh)
  rw [leading_eq_log hnum hden (by omega) (by omega), h]

theorem leading_interval (hd : d.Canonical) (hmost : d.exponent < 1000) (hpos : 0 < d.mantissa) :
    leading (interval d.mantissa d.exponent).value (interval d.mantissa d.exponent).den = Int.log 10 d.size :=
  leading_of_size hd hmost hpos (zero_lt_den _ _) (value_interval d)

/-- Seventeen digits are near enough to a double. -/
theorem rounded_covered (hd : d.Canonical) {exponent : Int} (h : (10 : ℚ) ^ exponent ≤ d.size) :
    d.Covers ((interval d.mantissa d.exponent).rounded (exponent - 16)).value := by
  have hnear := (interval d.mantissa d.exponent).rounded_near (zero_lt_den _ _) (exponent - 16)
  rw [value_interval] at hnear
  have hpow : (0 : ℚ) < 2 ^ d.exponent := by positivity
  have hgrid : (10 : ℚ) ^ (exponent - 16) * 10 ^ 16 ≤ d.mantissa * 2 ^ d.exponent := by
    refine le_trans (le_of_eq ?_) h
    rw [zpow_sub₀ (by norm_num)]
    exact div_mul_cancel₀ _ (by norm_num)
  have hwidth : (d.mantissa : ℚ) * 2 < d.below * 10 ^ 16 := by
    have hnat : d.mantissa * 2 < d.below * 10 ^ 16 := by
      have hsmall := hd.small
      unfold below
      split <;> omega
    exact_mod_cast hnat
  refine covers_of_near ?_
  have hscaled := mul_lt_mul_of_pos_right hwidth hpow
  linarith

/-- The digits of a double are covered by it. -/
theorem shortest_covered (hd : d.Canonical) (hmost : d.exponent < 1000) (hpos : 0 < d.mantissa) :
    d.Covers (shortest d.mantissa d.exponent).value := by
  have hrounded := rounded_covered hd (zpow_log_le (size_pos hpos))
  rw [← leading_interval hd hmost hpos, ← holds_interval hpos] at hrounded
  have hholds := (interval d.mantissa d.exponent).holds_shortestFrom hrounded
  rw [shortest, stripZeros_value]
  exact (holds_interval hpos _).mp hholds

end Dyadic

theorem exponent_lt_of_read {x : Float} {d : Dyadic} (h : read x = .finite d) : d.exponent < 1000 := by
  unfold read readBits at h
  simp only at h
  split_ifs at h <;> cases h <;> simp only <;> omega

end ScriptHost.Decimal
