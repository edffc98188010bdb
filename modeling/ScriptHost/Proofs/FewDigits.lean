import ScriptHost.Proofs.Shortest

/-! # Numbers of few digits

Doubles tell numbers of fifteen digits apart. So at most one number of fourteen digits is next to a given double, and it
comes out whichever way digits are sought: as the fewest that read back, or as the first ones of the exact value. -/

namespace ScriptHost.Decimal

namespace Scaled

def Trimmed (s : Scaled) : Prop := s.digits % 10 ≠ 0

def top (s : Scaled) : Int := s.exponent + (Nat.toDigits 10 s.digits).length - 1

variable {s t : Scaled}

theorem Trimmed.pos (h : s.Trimmed) : 0 < s.digits := by
  unfold Trimmed at h
  omega

theorem value_pos_iff : 0 < s.value ↔ 0 < s.digits := by
  have hpow : (0 : ℚ) < 10 ^ s.exponent := by positivity
  rw [value, mul_pos_iff_of_pos_right hpow, Nat.cast_pos]

/-- A number is on every grid that is finer than its own. -/
theorem exists_on_grid {e : Int} (he : e ≤ s.exponent) : ∃ n : ℕ, s.value = n * 10 ^ e := by
  refine ⟨s.digits * 10 ^ (s.exponent - e).toNat, ?_⟩
  have hpow : (10 : ℚ) ^ s.exponent = 10 ^ (s.exponent - e).toNat * 10 ^ e := by
    rw [← zpow_natCast, ← zpow_add₀ (by norm_num)]
    congr 1
    omega
  rw [value, hpow]
  push_cast
  ring

/-- No coarser grid has a number whose last digit is no zero. -/
theorem Trimmed.exponent_le (h : s.Trimmed) (hvalue : s.value = t.value) : t.exponent ≤ s.exponent := by
  by_contra hlt
  obtain ⟨n, hn⟩ := t.exists_on_grid (e := s.exponent + 1) (by omega)
  have hpow : (10 : ℚ) ^ s.exponent ≠ 0 := zpow_ne_zero _ (by norm_num)
  have hdigits : (s.digits : ℚ) = n * 10 := by
    rw [← hvalue, value, zpow_add_one₀ (by norm_num), mul_comm _ (10 : ℚ), ← mul_assoc] at hn
    exact mul_right_cancel₀ hpow hn
  have hmultiple : s.digits = n * 10 := by exact_mod_cast hdigits
  exact h (hmultiple ▸ Nat.mul_mod_left n 10)

theorem Trimmed.eq (hs : s.Trimmed) (ht : t.Trimmed) (hvalue : s.value = t.value) : s = t := by
  have hexponent : s.exponent = t.exponent := le_antisymm (ht.exponent_le hvalue.symm) (hs.exponent_le hvalue)
  have hpow : (10 : ℚ) ^ t.exponent ≠ 0 := zpow_ne_zero _ (by norm_num)
  have hdigits : (s.digits : ℚ) = t.digits := by
    rw [value, value, hexponent] at hvalue
    exact mul_right_cancel₀ hpow hvalue
  cases s
  cases t
  simp_all

theorem log_value (hpos : 0 < s.digits) : Int.log 10 s.value = s.top := by
  have hlength : 0 < (Nat.toDigits 10 s.digits).length := Nat.length_toDigits_pos
  obtain ⟨k, hk⟩ : ∃ k, (Nat.toDigits 10 s.digits).length = k + 1 := ⟨_, (Nat.sub_add_cancel hlength).symm⟩
  have hhigh : s.digits < 10 ^ (k + 1) := (Nat.length_toDigits_le_iff (by decide) (by omega)).mp hk.le
  have hlow : 10 ^ k ≤ s.digits := by
    rcases Nat.eq_zero_or_pos k with rfl | hpositive
    · exact hpos
    · by_contra hlt
      have hle := (Nat.length_toDigits_le_iff (b := 10) (by decide) hpositive).mpr (not_le.mp hlt)
      omega
  have hpow : (0 : ℚ) < 10 ^ s.exponent := by positivity
  have htop : s.top = k + s.exponent := by
    unfold top
    omega
  rw [htop]
  refine log_eq ?_ ?_
  · rw [zpow_add₀ (by norm_num), zpow_natCast, value]
    exact mul_le_mul_of_nonneg_right (by exact_mod_cast hlow) hpow.le
  · rw [add_right_comm, zpow_add₀ (by norm_num), value, ← Nat.cast_add_one, zpow_natCast]
    exact mul_lt_mul_of_pos_right (by exact_mod_cast hhigh) hpow

theorem le_top_iff (hpos : 0 < s.digits) {e : Int} : e ≤ s.top ↔ (10 : ℚ) ^ e ≤ s.value := by
  rw [← log_value hpos, ← Int.zpow_le_iff_le_log (by decide) (value_pos_iff.mpr hpos), Nat.cast_ofNat]

end Scaled

theorem trimmed_stripZeros {fuel k : ℕ} (hfuel : k ≤ fuel) {s : Scaled} (hpos : 0 < s.digits)
    (h : s.digits < 10 ^ (k + 1)) : (stripZeros fuel s).Trimmed := by
  induction fuel generalizing k s with
  | zero =>
    obtain rfl := Nat.le_zero.mp hfuel
    rw [stripZeros, Scaled.Trimmed]
    omega
  | succ fuel ih =>
    rw [stripZeros]
    split
    · next hzero =>
      cases k with
      | zero => omega
      | succ k =>
        rw [pow_succ] at h
        exact ih (Nat.le_of_succ_le_succ hfuel) (by simp only; omega) (by simp only; omega)
    · next hlast => exact hlast

theorem digits_stripZeros_le (fuel : ℕ) (s : Scaled) : (stripZeros fuel s).digits ≤ s.digits := by
  induction fuel generalizing s with
  | zero => exact le_rfl
  | succ fuel ih =>
    rw [stripZeros]
    split
    · exact (ih _).trans (Nat.div_le_self _ _)
    · exact le_rfl

/-- How many steps of the grid of its digit `k` behind the leading one a number takes. -/
theorem steps_log {q : ℚ} (hpos : 0 < q) (k : ℕ) :
    10 ^ k * 10 ^ (Int.log 10 q - k) ≤ q ∧ q < 10 ^ (k + 1) * 10 ^ (Int.log 10 q - k) := by
  have hplaces (n : ℕ) : (10 : ℚ) ^ n * 10 ^ (Int.log 10 q - k) = 10 ^ (Int.log 10 q - k + n) := by
    rw [zpow_add₀ (by norm_num), zpow_natCast, mul_comm]
  rw [hplaces, hplaces, sub_add_cancel, Nat.cast_add_one, ← add_assoc, sub_add_cancel]
  exact ⟨zpow_log_le hpos, lt_zpow_log q⟩

/-- As near to a number as the format of doubles goes. -/
def Near (p q : ℚ) : Prop := |p - q| * 2 ^ 53 ≤ q

section

variable {s : Scaled} {q : ℚ}

/-- A number of fourteen digits is on the grid of the fourteenth digit of any number that it is near to. -/
theorem exponent_of_near (hfew : s.digits < 10 ^ 14) (hpos : 0 < q) (hnear : Near s.value q) :
    Int.log 10 q - 13 ≤ s.exponent := by
  by_contra hlt
  have hlow : 10 ^ 13 * 10 ^ (Int.log 10 q - 13) ≤ q := (steps_log hpos 13).1
  have hhigh : q < 10 ^ 14 * 10 ^ (Int.log 10 q - 13) := (steps_log hpos 13).2
  generalize Int.log 10 q - 13 = g at *
  have hpow : (0 : ℚ) < 10 ^ g := by positivity
  have hplace : (10 : ℚ) ^ s.exponent * 10 ≤ 10 ^ g := by
    rw [← zpow_add_one₀ (by norm_num)]
    exact zpow_le_zpow_right₀ (by norm_num) (by omega)
  have hdigits : (s.digits : ℚ) ≤ 10 ^ 14 - 1 := by
    have hcast : ((s.digits + 1 : ℕ) : ℚ) ≤ 10 ^ 14 := by exact_mod_cast hfew
    push_cast at hcast
    linarith
  -- on a finer grid it is a step of that grid below, which is too far away
  have hsmall : s.value ≤ (10 ^ 14 - 1) * 10 ^ s.exponent := mul_le_mul_of_nonneg_right hdigits (by positivity)
  have hdistance : q - s.value ≤ |s.value - q| := by
    rw [abs_sub_comm]
    exact le_abs_self _
  unfold Near at hnear
  nlinarith

theorem eq_of_within_step {m n : ℕ} {p : ℚ} (hp : 0 < p) (h : |m * p - n * p| < p) : m = n := by
  have hcast : |(m : ℚ) - n| < 1 := by
    rw [← sub_mul, abs_mul, abs_of_pos hp] at h
    exact lt_of_mul_lt_mul_right (by rwa [one_mul]) hp.le
  have hint : |(m : ℤ) - n| < 1 := by exact_mod_cast hcast
  have hzero := Int.abs_lt_one_iff.mp hint
  omega

variable {num den count : ℕ} (hden : 0 < den) (hcount : 0 < count)

include hcount

/-- A carry past the first digit does not change the number. -/
theorem value_significant : (significant num den count).value =
    (⟨roundQuotient (unscaleTen num den (leading num den - ((count : Int) - 1))).1
      (unscaleTen num den (leading num den - ((count : Int) - 1))).2, leading num den - ((count : Int) - 1)⟩ :
      Scaled).value := by
  unfold significant
  simp only
  split
  · next hcarry =>
    obtain ⟨k, rfl⟩ := Nat.exists_eq_add_one.mpr hcount
    rw [Scaled.value, Scaled.value, hcarry, zpow_add_one₀ (by norm_num), Nat.add_sub_cancel, pow_succ]
    push_cast
    ring
  · rfl

variable (hq : (num : ℚ) / den = q) (hpos : 0 < q) (hleading : leading num den = Int.log 10 q)

include hden hq hpos hleading

theorem significant_digits :
    0 < (significant num den count).digits ∧ (significant num den count).digits < 10 ^ count := by
  obtain ⟨k, rfl⟩ := Nat.exists_eq_add_one.mpr hcount
  obtain ⟨hlow, hhigh⟩ := steps_log hpos k
  have hrounded := grid_near num hden (leading num den - k)
  rw [hleading, hq, Scaled.value] at hrounded
  unfold significant
  simp only [hleading, Nat.cast_add_one, add_sub_cancel_right]
  generalize Int.log 10 q - k = g at *
  generalize roundQuotient _ _ = n at *
  have hpow : (0 : ℚ) < 10 ^ g := by positivity
  have hone : (1 : ℚ) ≤ 10 ^ k := one_le_pow₀ (by norm_num)
  have hnear := abs_le.mp (show |n * 10 ^ g - q| ≤ 10 ^ g / 2 by linarith)
  have hpositive : 0 < n := by
    have hcast : (0 : ℚ) < n := by
      refine pos_of_mul_pos_left ?_ hpow.le
      nlinarith
    exact_mod_cast hcast
  have hmost : n < 10 ^ (k + 1) + 1 := by
    have hcast : (n : ℚ) < 10 ^ (k + 1) + 1 := by
      refine lt_of_mul_lt_mul_right ?_ hpow.le
      linarith
    exact_mod_cast hcast
  split
  · exact ⟨Nat.pow_pos (by decide), Nat.pow_lt_pow_right (by decide) (by omega)⟩
  · next hcarry => exact ⟨hpositive, Nat.lt_of_le_of_ne (Nat.lt_succ_iff.mp hmost) hcarry⟩

omit hcount

theorem significant_value_of_lt (hfew : s.digits < 10 ^ 14) (hnear : Near s.value q) :
    (significant num den 14).value = s.value := by
  have hplaces : leading num den - (((14 : ℕ) : Int) - 1) = Int.log 10 q - 13 := by
    rw [hleading]
    rfl
  obtain ⟨m, hm⟩ := s.exists_on_grid (exponent_of_near hfew hpos hnear)
  have hrounded := grid_near num hden (Int.log 10 q - 13)
  have hhigh : q < 10 ^ 14 * 10 ^ (Int.log 10 q - 13) := (steps_log hpos 13).2
  rw [hq] at hrounded
  rw [value_significant (by decide), hplaces]
  generalize Int.log 10 q - 13 = g at *
  -- both numbers are on one grid, and less than a step of it apart
  have hpow : (0 : ℚ) < 10 ^ g := by positivity
  rw [Scaled.value] at hrounded ⊢
  rw [hm] at hnear ⊢
  refine congrArg (fun n : ℕ => (n : ℚ) * 10 ^ g) (eq_of_within_step hpow ?_)
  have htriangle := abs_sub_le (((roundQuotient (unscaleTen num den g).1 (unscaleTen num den g).2 : ℕ) : ℚ) * 10 ^ g) q
    (m * 10 ^ g)
  rw [abs_sub_comm q] at htriangle
  unfold Near at hnear
  simp only at hrounded
  linarith

/-- A number of fourteen digits is what comes of the first fourteen digits of any number that it is near to. -/
theorem significant_value (hfew : s.digits ≤ 10 ^ 14) (hnear : Near s.value q) :
    (significant num den 14).value = s.value := by
  rcases Nat.lt_or_eq_of_le hfew with hlt | hcarry
  · exact significant_value_of_lt hden hq hpos hleading hlt hnear
  · -- a power of ten has one digit only
    have hvalue : s.value = (⟨1, s.exponent + 14⟩ : Scaled).value := by
      rw [Scaled.value, Scaled.value, hcarry, zpow_add₀ (by norm_num)]
      norm_num
      ring
    rw [hvalue] at hnear ⊢
    exact significant_value_of_lt hden hq hpos hleading (show 1 < 10 ^ 14 by decide) hnear

end

namespace Dyadic

variable {d : Dyadic}

namespace Covers

variable {q : ℚ} (h : d.Covers q) (hd : d.Canonical)

include h hd

theorem near (hnormal : -1074 < d.exponent) : Near q d.size := by
  have hfull : (2 : ℚ) ^ 52 ≤ d.mantissa := by exact_mod_cast hd.full hnormal
  have hdistance := h.distance
  have hscaled := mul_le_mul_of_nonneg_right hfull (show (0 : ℚ) ≤ 2 ^ d.exponent by positivity)
  have hsize : d.size = d.mantissa * 2 ^ d.exponent := rfl
  unfold Near
  linarith

/-- The doubles of the least exponent are far below the numbers that are written without an exponent. -/
theorem normal (hq : (10 : ℚ) ^ (-4 : Int) ≤ q) : -1074 < d.exponent := by
  refine lt_of_le_of_ne hd.least fun hleast => ?_
  have hsmall : (d.mantissa : ℚ) < 2 ^ 53 := by exact_mod_cast hd.small
  have hpow : (2 : ℚ) ^ (-1074 : Int) ≤ 2 ^ (-70 : Int) := zpow_le_zpow_right₀ (by norm_num) (by norm_num)
  have hhigh := h.le.2
  rw [← hleast] at hhigh
  have hbound : 4 * q ≤ 2 ^ 56 * 2 ^ (-70 : Int) := by
    refine hhigh.trans ?_
    gcongr
    linarith
  norm_num at hbound hq
  linarith

end Covers

end Dyadic

namespace Interval

variable (i : Interval)

def steps (exponent : Int) : ℕ := (unscaleTen i.value i.den exponent).1 / (unscaleTen i.value i.den exponent).2

theorem roundQuotient_le (num den : ℕ) : roundQuotient num den ≤ num / den + 1 := by
  unfold roundQuotient
  simp only
  split <;> omega

theorem onGrid_cases {exponent : Int} {s : Scaled} (h : i.onGrid exponent = some s) :
    s.exponent = exponent ∧ s.digits ≤ i.steps exponent + 1 := by
  unfold onGrid at h
  simp only at h
  split_ifs at h <;> cases h <;> exact ⟨rfl, by simp [steps]⟩

theorem isSome_onGrid {exponent : Int}
    (h : i.holds ⟨i.steps exponent, exponent⟩ = true ∨ i.holds ⟨i.steps exponent + 1, exponent⟩ = true) :
    (i.onGrid exponent).isSome := by
  unfold onGrid
  simp only
  unfold steps at h
  split_ifs <;> simp_all

/-- The digits are on the first grid that has a point of the interval. -/
theorem shortestFrom_first (fuel : ℕ) (exponent : Int) :
    ∃ j ≤ fuel, (∀ k < j, i.onGrid (exponent - k) = none) ∧ (i.shortestFrom fuel exponent).exponent = exponent - j ∧
      (i.shortestFrom fuel exponent).digits ≤ i.steps (exponent - j) + 1 := by
  induction fuel generalizing exponent with
  | zero =>
    refine ⟨0, le_rfl, fun k hk => absurd hk (Nat.not_lt_zero k), ?_⟩
    rw [Nat.cast_zero, sub_zero]
    exact ⟨rfl, roundQuotient_le _ _⟩
  | succ fuel ih =>
    rw [shortestFrom]
    cases hgrid : i.onGrid exponent with
    | some s =>
      refine ⟨0, Nat.zero_le _, fun k hk => absurd hk (Nat.not_lt_zero k), ?_⟩
      rw [Nat.cast_zero, sub_zero]
      exact i.onGrid_cases hgrid
    | none =>
      obtain ⟨j, hj, hnone, hresult⟩ := ih (exponent - 1)
      have hshift (k : ℕ) : exponent - 1 - k = exponent - (k + 1 : ℕ) := by push_cast; ring
      rw [hshift] at hresult
      refine ⟨j + 1, by omega, fun k hk => ?_, hresult⟩
      cases k with
      | zero => rwa [Nat.cast_zero, sub_zero]
      | succ k =>
        rw [← hshift]
        exact hnone k (by omega)

end Interval

namespace Dyadic

variable {d : Dyadic}

theorem steps_interval (d : Dyadic) (exponent : Int) :
    ((interval d.mantissa d.exponent).steps exponent : ℚ) ≤ d.size / 10 ^ exponent ∧
      d.size / 10 ^ exponent < (interval d.mantissa d.exponent).steps exponent + 1 := by
  rw [← value_interval, ← unscaleTen_value _ (zero_lt_den _ _), Interval.steps, ← Nat.floor_div_eq_div (K := ℚ)]
  exact ⟨Nat.floor_le (by positivity), Nat.lt_floor_add_one _⟩

/-- If a number next to a double is on a grid, one is found there. -/
theorem isSome_onGrid (hpos : 0 < d.mantissa) {n : ℕ} {exponent : Int} (h : d.Covers (n * 10 ^ exponent)) :
    ((interval d.mantissa d.exponent).onGrid exponent).isSome := by
  obtain ⟨hlow, hhigh⟩ := steps_interval d exponent
  have hpow : (0 : ℚ) < 10 ^ exponent := by positivity
  rw [le_div_iff₀ hpow] at hlow
  rw [div_lt_iff₀ hpow] at hhigh
  refine Interval.isSome_onGrid _ ?_
  rw [holds_interval hpos, holds_interval hpos, Scaled.value, Scaled.value, Nat.cast_add_one]
  simp only
  generalize (interval d.mantissa d.exponent).steps exponent = k at *
  -- a step next to the value lies between the value and the number
  rcases Nat.lt_or_ge k n with hmore | hless
  · right
    refine d.covers_size.between h hhigh.le (mul_le_mul_of_nonneg_right ?_ hpow.le)
    exact_mod_cast hmore
  · left
    refine h.between d.covers_size (mul_le_mul_of_nonneg_right ?_ hpow.le) hlow
    exact_mod_cast hless

section

variable (hd : d.Canonical) (hmost : d.exponent < 1000) (hpos : 0 < d.mantissa)

include hd hmost hpos

/-- The fewest digits are those of the first grid with a number next to the double. -/
theorem exists_shortest : ∃ (s : Scaled) (j : ℕ), j ≤ 16 ∧ shortest d.mantissa d.exponent = stripZeros 400 s ∧
    d.Covers s.value ∧ s.digits ≤ 10 ^ (j + 1) ∧
      ∀ k < j, (interval d.mantissa d.exponent).onGrid (Int.log 10 d.size - k) = none := by
  obtain ⟨j, hj, hnone, -, hdigits⟩ := (interval d.mantissa d.exponent).shortestFrom_first 16 (Int.log 10 d.size)
  have hcovers := shortest_covered hd hmost hpos
  rw [shortest, stripZeros_value] at hcovers
  simp only [leading_interval hd hmost hpos] at hcovers
  refine ⟨_, j, hj, ?_, hcovers, hdigits.trans ?_, hnone⟩
  · simp only [shortest, leading_interval hd hmost hpos]
  · have hpow : (0 : ℚ) < 10 ^ (Int.log 10 d.size - j) := by positivity
    have hsteps := (steps_interval d (Int.log 10 d.size - j)).1.trans_lt
      ((div_lt_iff₀ hpow).mpr (steps_log (size_pos hpos) j).2)
    exact_mod_cast hsteps

theorem trimmed_shortest : (shortest d.mantissa d.exponent).Trimmed := by
  obtain ⟨s, j, hj, heq, hcovers, hdigits, -⟩ := exists_shortest hd hmost hpos
  rw [heq]
  exact trimmed_stripZeros (by omega) (Scaled.value_pos_iff.mp (hcovers.pos hpos))
    (hdigits.trans_lt (Nat.pow_lt_pow_right (by decide) (Nat.lt_succ_self _)))

end

section

variable {s : Scaled} (hd : d.Canonical) (hmost : d.exponent < 1000) (hnormal : -1074 < d.exponent)
variable (hpos : 0 < d.mantissa) (hfew : s.digits < 10 ^ 14) (hcovers : d.Covers s.value)

include hd hmost hnormal hpos hfew hcovers

theorem shortest_value : (shortest d.mantissa d.exponent).value = s.value := by
  have hsize := size_pos hpos
  obtain ⟨t, j, -, heq, ht, hdigits, hnone⟩ := exists_shortest hd hmost hpos
  -- the number is on the grid of the fourteenth digit, so that the fewest digits are on this one or on an earlier one
  obtain ⟨n, hn⟩ := s.exists_on_grid (exponent_of_near hfew hsize (hcovers.near hd hnormal))
  have hfound := isSome_onGrid hpos (hn ▸ hcovers)
  have hj : j ≤ 13 := by
    by_contra hlt
    have hempty : (interval d.mantissa d.exponent).onGrid (Int.log 10 d.size - 13) = none := hnone 13 (not_le.mp hlt)
    rw [hempty] at hfound
    cases hfound
  have hdigits' : t.digits ≤ 10 ^ 14 := hdigits.trans (Nat.pow_le_pow_right (by decide) (by omega))
  have hfirst {r : Scaled} (hr : r.digits ≤ 10 ^ 14) (hnear : Near r.value d.size) :=
    significant_value (zero_lt_den d.mantissa d.exponent) (value_interval d) hsize (leading_interval hd hmost hpos) hr
      hnear
  rw [heq, stripZeros_value, ← hfirst hdigits' (ht.near hd hnormal), hfirst hfew.le (hcovers.near hd hnormal)]

variable (htrimmed : s.Trimmed)

include htrimmed

/-- A number of fourteen digits that is next to a double has the fewest digits. -/
theorem shortest_eq : shortest d.mantissa d.exponent = s :=
  (trimmed_shortest hd hmost hpos).eq htrimmed (shortest_value hd hmost hnormal hpos hfew hcovers)

/-- A number of fourteen digits that is next to a double has the first digits. -/
theorem significant_eq {num den : ℕ} (hden : 0 < den) (hsize : (num : ℚ) / den = d.size) :
    stripZeros 14 (significant num den 14) = s := by
  have hleading := leading_of_size hd hmost hpos hden hsize
  obtain ⟨hpositive, hdigits⟩ := significant_digits hden (show 0 < 14 by decide) hsize (size_pos hpos) hleading
  refine (trimmed_stripZeros (show 13 ≤ 14 by decide) hpositive hdigits).eq htrimmed ?_
  rw [stripZeros_value]
  exact significant_value hden hsize (size_pos hpos) hleading hfew.le (hcovers.near hd hnormal)

end

end Dyadic

end ScriptHost.Decimal
