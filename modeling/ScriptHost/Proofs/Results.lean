import ScriptHost.Proofs.HostCall
import ScriptHost.Proofs.WholeDoubles

/-! # Which values are results

A result is a whole number of 32 bits, and a guest value is one exactly if it is that number, in either kind of guest
number. The tests on doubles admit no other: both ends of the range are doubles, and what has nothing behind its point is
cast to the number that it is. -/

namespace ScriptHost.Marshal

open Decimal (read)
open Lua (Value)

/-- A guest number and the number that it is. Neither an infinity nor what is no number is one. -/
inductive IsNumber : Value → ℚ → Prop
  | int (n : Int64) : IsNumber (.int n) n.toInt
  | float {x : Float} {d : Decimal.Dyadic} (h : read x = .finite d) : IsNumber (.float x) d.value

theorem read_least : read (doubleOfInt Int32.minValue.toInt64) = .finite ⟨true, 2 ^ 52, -21⟩ := by decide +kernel

theorem read_greatest : read (doubleOfInt Int32.maxValue.toInt64) = .finite ⟨false, 2147483647 * 2 ^ 22, -22⟩ := by
  decide +kernel

theorem least_le_iff {x : Float} {d : Decimal.Dyadic} (hx : read x = .finite d) :
    doubleOfInt Int32.minValue.toInt64 ≤ x ↔ -2147483648 ≤ d.value := by
  have hvalue : Decimal.Dyadic.value ⟨true, 2 ^ 52, -21⟩ = -2147483648 := by
    norm_num [Decimal.Dyadic.value, Decimal.Dyadic.signed]
  rw [Decimal.le_iff read_least hx, hvalue]

theorem le_greatest_iff {x : Float} {d : Decimal.Dyadic} (hx : read x = .finite d) :
    x ≤ doubleOfInt Int32.maxValue.toInt64 ↔ d.value ≤ 2147483647 := by
  have hvalue : Decimal.Dyadic.value ⟨false, 2147483647 * 2 ^ 22, -22⟩ = 2147483647 := by
    norm_num [Decimal.Dyadic.value, Decimal.Dyadic.signed]
  rw [Decimal.le_iff hx read_greatest, hvalue]

theorem exists_int32_iff (p : Int → Prop) : (∃ n : Int32, p n.toInt) ↔ ∃ n ∈ Set.Icc (-2147483648) 2147483647, p n := by
  constructor
  · rintro ⟨n, h⟩
    exact ⟨n.toInt, ⟨n.le_toInt, Int.le_of_lt_add_one n.toInt_lt⟩, h⟩
  · rintro ⟨n, ⟨hleast, hgreatest⟩, h⟩
    exact ⟨Int32.ofInt n, by rw [Int32.toInt_ofInt_of_le hleast (Int.lt_add_one_of_le hgreatest)]; exact h⟩

theorem isNumber_int_iff (m : Int64) (q : ℚ) : IsNumber (.int m) q ↔ m.toInt = q := by
  constructor
  · rintro ⟨⟩
    rfl
  · rintro rfl
    exact .int m

theorem isNumber_float_iff (x : Float) (q : ℚ) : IsNumber (.float x) q ↔ ∃ d, read x = .finite d ∧ d.value = q := by
  constructor
  · intro h
    cases h with
    | float hx => exact ⟨_, hx, rfl⟩
  · rintro ⟨d, hx, rfl⟩
    exact .float hx

/-- The tests let through the whole numbers within 32 bits and nothing else. -/
theorem passes_iff (x : Float) :
    (Decimal.hasNoFraction x ∧ doubleOfInt Int32.minValue.toInt64 ≤ x ∧ x ≤ doubleOfInt Int32.maxValue.toInt64) ↔
      ∃ n : Int32, IsNumber (.float x) n.toInt := by
  rw [Decimal.hasNoFraction_iff, exists_int32_iff fun n => IsNumber (.float x) n]
  constructor
  · rintro ⟨⟨d, hx, hfraction⟩, hleast, hgreatest⟩
    have hcut := Decimal.Dyadic.cut_eq_value hfraction
    rw [least_le_iff hx, ← hcut] at hleast
    rw [le_greatest_iff hx, ← hcut] at hgreatest
    exact ⟨d.cut, ⟨by exact_mod_cast hleast, by exact_mod_cast hgreatest⟩,
      (isNumber_float_iff x d.cut).mpr ⟨d, hx, hcut.symm⟩⟩
  · rintro ⟨n, ⟨hleast, hgreatest⟩, hnumber⟩
    obtain ⟨d, hx, hvalue⟩ := (isNumber_float_iff x n).mp hnumber
    refine ⟨⟨d, hx, Decimal.Dyadic.fraction_of_value hvalue⟩, ?_, ?_⟩
    · rw [least_le_iff hx, hvalue]
      exact_mod_cast hleast
    · rw [le_greatest_iff hx, hvalue]
      exact_mod_cast hgreatest

/-- The cast neither cuts off nor moves a whole number within 32 bits. -/
theorem toInt32_of_isNumber {x : Float} {n : Int32} (h : IsNumber (.float x) n.toInt) : Decimal.toInt32 x = n := by
  obtain ⟨d, hx, hvalue⟩ := (isNumber_float_iff x n.toInt).mp h
  have hcut : d.cut = n.toInt := by
    have hsame := (Decimal.Dyadic.cut_eq_value (Decimal.Dyadic.fraction_of_value hvalue)).trans hvalue
    exact_mod_cast hsame
  rw [Decimal.toInt32_eq hx, hcut, ← Int32.toInt_inj]
  exact Int32.toInt_ofIntClamp n.le_toInt (Int.le_of_lt_add_one n.toInt_lt)

theorem resultOfDouble?_eq_some_iff (x : Float) (n : Int32) :
    resultOfDouble? x = some n ↔ IsNumber (.float x) n.toInt := by
  rw [resultOfDouble?, Option.ite_none_right_eq_some, Option.some.injEq, passes_iff]
  constructor
  · rintro ⟨⟨m, hm⟩, hcast⟩
    rw [← hcast, toInt32_of_isNumber hm]
    exact hm
  · intro h
    exact ⟨⟨n, h⟩, toInt32_of_isNumber h⟩

theorem result?_eq_some_iff (m : Int) (n : Int32) : result? m = some n ↔ m = n.toInt := by
  rw [result?, Option.ite_none_right_eq_some, Option.some.injEq]
  constructor
  · rintro ⟨⟨hleast, hgreatest⟩, rfl⟩
    exact (Int32.toInt_ofInt_of_le hleast hgreatest).symm
  · rintro rfl
    exact ⟨⟨n.le_toInt, n.toInt_lt⟩, Int32.ofInt_toInt n⟩

theorem resultOf?_eq_some_iff (v : Value) (n : Int32) : resultOf? v = some n ↔ IsNumber v n.toInt := by
  cases v with
  | int m => rw [resultOf?, result?_eq_some_iff, isNumber_int_iff, Int.cast_inj]
  | float x => rw [resultOf?, resultOfDouble?_eq_some_iff]
  | _ => constructor <;> intro h <;> cases h

theorem toResult_eq_ok_iff (v : Value) (n : Int32) : toResult v = .ok n ↔ IsNumber v n.toInt := by
  rw [← resultOf?_eq_some_iff, toResult]
  cases resultOf? v with
  | none => constructor <;> intro h <;> cases h
  | some m => rw [Except.ok.injEq, Option.some.injEq]

theorem toResult_eq_error_iff (v : Value) :
    toResult v = .error (.unsupportedResult v.kindName) ↔ ¬ ∃ n : Int32, IsNumber v n.toInt := by
  simp only [← resultOf?_eq_some_iff, toResult]
  cases resultOf? v with
  | none => exact iff_of_true rfl (not_exists.mpr fun n h => Option.some_ne_none n h.symm)
  | some m =>
    constructor
    · intro h
      cases h
    · intro h
      exact absurd ⟨m, rfl⟩ h

/-- A value is a result exactly if it is a guest number, of either kind, that equals a whole number of 32 bits, and this
number is the result. All else is refused by the name of its kind. Results come back as they went, and a double that is
taken is the number that it is cast to. -/
theorem toResult_exact (v : Value) :
    (∀ n : Int, (∃ r : Int32, toResult v = .ok r ∧ r.toInt = n) ↔
        n ∈ Set.Icc (-2147483648) 2147483647 ∧ IsNumber v n) ∧
      (toResult v = .error (.unsupportedResult v.kindName) ↔
        ¬ ∃ n ∈ Set.Icc (-2147483648 : Int) 2147483647, IsNumber v n) ∧
      (∀ n : Int32, toResult (ofResult n) = .ok n) ∧
      ∀ (x : Float) (n : Int32), toResult (.float x) = .ok n ↔
        Decimal.toInt32 x = n ∧ IsNumber (.float x) n.toInt := by
  refine ⟨fun n => ?_, ?_, toResult_ofResult, fun x n => ?_⟩
  · simp only [toResult_eq_ok_iff]
    rw [exists_int32_iff fun m => IsNumber v m ∧ m = n]
    constructor
    · rintro ⟨m, hm, hnumber, rfl⟩
      exact ⟨hm, hnumber⟩
    · rintro ⟨hn, hnumber⟩
      exact ⟨n, hn, hnumber, rfl⟩
  · rw [toResult_eq_error_iff, exists_int32_iff fun n => IsNumber v n]
  · rw [toResult_eq_ok_iff]
    exact ⟨fun h => ⟨toInt32_of_isNumber h, h⟩, fun h => h.2⟩

/-- Both ends of the range and the negative zero are results; the double above the range and a half are not. -/
example :
    [-2147483648.0, 2147483647.0, -0.0, 2147483648.0, 0.5].map (fun x => (toResult (.float x)).toOption) =
      [some Int32.minValue, some Int32.maxValue, some 0, none, none] := by decide +kernel

end ScriptHost.Marshal
