import Mathlib
import ScriptHost.Decimal.Dyadic

/-! # Doubles as numbers

A double that is finite stands for a rational number. The form in which it is read is unique but for the sign of zero,
so comparing doubles is comparing the numbers; what is no number equals nothing, itself included. -/

namespace ScriptHost.Decimal

open Float.Model (UnpackedFloat Format)
open Float.Model.UnpackedFloat (Sign unpack unpackMantissa unpackExponent unpackSign)

namespace Dyadic

def signed (d : Dyadic) : Int := if d.negative then -(d.mantissa : Int) else d.mantissa

def value (d : Dyadic) : ℚ := d.signed * (2 : ℚ) ^ d.exponent

/-- The form of the numbers that doubles are read as: fifty-three bits, unless the exponent is the least one. -/
structure Canonical (d : Dyadic) : Prop where
  least : -1074 ≤ d.exponent
  small : d.mantissa < 2 ^ 53
  full : -1074 < d.exponent → 2 ^ 52 ≤ d.mantissa

theorem natAbs_signed (d : Dyadic) : d.signed.natAbs = d.mantissa := by
  unfold signed
  split <;> simp

theorem signed_inj {d e : Dyadic} (hd : d.mantissa ≠ 0) (h : d.signed = e.signed) :
    d.negative = e.negative ∧ d.mantissa = e.mantissa := by
  have hmantissa : d.mantissa = e.mantissa := by rw [← natAbs_signed, h, natAbs_signed]
  refine ⟨?_, hmantissa⟩
  unfold signed at h
  cases hnegative : d.negative <;> cases hnegative' : e.negative
  · rfl
  · simp only [hnegative, hnegative', Bool.false_eq_true, if_false, if_true] at h
    omega
  · simp only [hnegative, hnegative', Bool.false_eq_true, if_false, if_true] at h
    omega
  · rfl

theorem value_eq_zero {d : Dyadic} : d.value = 0 ↔ d.mantissa = 0 := by
  have hpow : (2 : ℚ) ^ d.exponent ≠ 0 := zpow_ne_zero _ (by norm_num)
  rw [value, mul_eq_zero_iff_right hpow, Int.cast_eq_zero, ← Int.natAbs_eq_zero, natAbs_signed]

/-- The greater exponent is reached by doubling the mantissa, which has no room for that. -/
theorem exponent_le {d e : Dyadic} (hd : d.Canonical) (he : e.Canonical) (h : d.value = e.value) :
    e.exponent ≤ d.exponent := by
  by_contra hlt
  obtain ⟨k, hk⟩ : ∃ k : ℕ, e.exponent = d.exponent + (k + 1 : ℕ) :=
    ⟨(e.exponent - d.exponent).toNat - 1, by omega⟩
  have hpow : (2 : ℚ) ^ d.exponent ≠ 0 := zpow_ne_zero _ (by norm_num)
  have hsigned : (d.signed : ℚ) = e.signed * 2 ^ (k + 1) := by
    have hsplit : (2 : ℚ) ^ e.exponent = 2 ^ (k + 1) * 2 ^ d.exponent := by
      rw [hk, zpow_add₀ (by norm_num), zpow_natCast, mul_comm]
    rw [value, value, hsplit, ← mul_assoc] at h
    exact mul_right_cancel₀ hpow h
  have hmantissa : d.mantissa = e.mantissa * 2 ^ (k + 1) := by
    have hint : d.signed = e.signed * 2 ^ (k + 1) := by exact_mod_cast hsigned
    rw [← natAbs_signed d, hint, Int.natAbs_mul, natAbs_signed, Int.natAbs_pow]
    rfl
  have hfull : 2 ^ 52 ≤ e.mantissa := he.full (by have := hd.least; omega)
  have hdouble : 2 * e.mantissa ≤ d.mantissa := by
    rw [hmantissa, mul_comm 2]
    exact Nat.mul_le_mul_left _ (Nat.le_self_pow (by omega) 2)
  have hsmall := hd.small
  omega

theorem value_inj {d e : Dyadic} (hd : d.Canonical) (he : e.Canonical) (hne : d.mantissa ≠ 0)
    (h : d.value = e.value) : d = e := by
  have hexponent : d.exponent = e.exponent := by
    have hle := exponent_le hd he h
    have hge := exponent_le he hd h.symm
    omega
  have hpow : (2 : ℚ) ^ e.exponent ≠ 0 := zpow_ne_zero _ (by norm_num)
  rw [value, value, hexponent] at h
  have hsigned : d.signed = e.signed := by exact_mod_cast mul_right_cancel₀ hpow h
  obtain ⟨hnegative, hmantissa⟩ := signed_inj hne hsigned
  cases d
  cases e
  simp_all

end Dyadic

def isMinus : Sign → Bool
  | .negative => true
  | .positive => false

def readParts : UnpackedFloat → Reading
  | .notANumber => .notANumber
  | .infinity s => .infinite (isMinus s)
  | .zero s => .finite ⟨isMinus s, 0, -1074⟩
  | .finite s m e _ => .finite ⟨isMinus s, m, e⟩

section Bits

variable (b : BitVec Format.binary64.numBits)

theorem toNat_unpackMantissa : (unpackMantissa b).toNat = b.toNat % 2 ^ 52 := by
  simp [unpackMantissa]

theorem toNat_unpackExponent : (unpackExponent b).toNat = b.toNat / 2 ^ 52 % 2 ^ 11 := by
  simp [unpackExponent, Nat.shiftRight_eq_div_pow]

theorem toNat_unpackSign : (unpackSign b).toNat = b.toNat / 2 ^ 63 % 2 := by
  simp [unpackSign, Nat.shiftRight_eq_div_pow]

theorem isMinus_unpackSign : isMinus (Sign.ofBitVec (unpackSign b)) = decide (2 ^ 63 ≤ b.toNat) := by
  have hlt : b.toNat < 2 ^ 64 := b.isLt
  have hbit := toNat_unpackSign b
  unfold Sign.ofBitVec
  split
  · next hplus =>
    rw [hplus] at hbit
    have hzero : b.toNat / 2 ^ 63 % 2 = 0 := hbit.symm
    simp only [isMinus, Bool.false_eq, decide_eq_false_iff_not]
    omega
  · next hminus =>
    have hne : (unpackSign b).toNat ≠ 0 := fun hzero => hminus (BitVec.toNat_inj.mp hzero)
    simp only [isMinus, Bool.true_eq, decide_eq_true_iff]
    omega

theorem readBits_eq : readBits b.toNat = readParts (unpack Format.binary64 b) := by
  have hones : unpackExponent b = -1#_ ↔ b.toNat / 2 ^ 52 % 2 ^ 11 = 2047 := by
    rw [← BitVec.toNat_inj, toNat_unpackExponent]
    rfl
  have hleast : unpackExponent b = 0#_ ↔ b.toNat / 2 ^ 52 % 2 ^ 11 = 0 := by
    rw [← BitVec.toNat_inj, toNat_unpackExponent]
    rfl
  have hzero : unpackMantissa b = 0#_ ↔ b.toNat % 2 ^ 52 = 0 := by
    rw [← BitVec.toNat_inj, toNat_unpackMantissa]
    rfl
  have hfull : (1#1 ++ unpackMantissa b).toNat = b.toNat % 2 ^ 52 + 2 ^ 52 := by
    have hlt : (unpackMantissa b).toNat < 2 ^ 52 := (unpackMantissa b).isLt
    rw [BitVec.toNat_append, ← Nat.shiftLeft_add_eq_or_of_lt hlt, toNat_unpackMantissa, Nat.add_comm]
    rfl
  have hbias : (Format.binary64.exponentBias : Int) = 1023 := rfl
  unfold readBits unpack
  simp only [hones, hleast, hzero, toNat_unpackExponent, toNat_unpackMantissa, hfull, hbias]
  split_ifs with hexponent hfraction hexponent' hfraction'
  · rw [readParts, isMinus_unpackSign]
  · rfl
  · rw [readParts, isMinus_unpackSign, hfraction']
  · rw [readParts, isMinus_unpackSign, hexponent']
    rfl
  · rw [readParts, isMinus_unpackSign]
    rfl

end Bits

theorem read_eq (x : Float) : read x = readParts x.toModel.unpack := readBits_eq x.toBits.toBitVec

theorem canonical_of_readBits {bits : Nat} {d : Dyadic} (h : readBits bits = .finite d) : d.Canonical := by
  have hfraction : bits % 2 ^ 52 < 2 ^ 52 := Nat.mod_lt _ (by decide)
  unfold readBits at h
  simp only at h
  split_ifs at h with hexponent hzero hleast
  · cases h
    exact ⟨le_refl _, by simp only; omega, fun hlt => absurd hlt (lt_irrefl _)⟩
  · cases h
    refine ⟨?_, by simp only; omega, fun _ => by simp only; omega⟩
    simp only
    omega

theorem canonical_of_read {x : Float} {d : Dyadic} (h : read x = .finite d) : d.Canonical := canonical_of_readBits h

/-- Whether two readings are the same number: an infinity is only itself, and what is no number is not even that. -/
def Reading.SameNumber : Reading → Reading → Prop
  | .infinite a, .infinite b => a = b
  | .finite d, .finite e => d.value = e.value
  | _, _ => False

theorem isMinus_inj {s t : Sign} (h : isMinus s = isMinus t) : s = t := by
  cases s <;> cases t <;> first | rfl | cases h

theorem sameNumber_self {u : UnpackedFloat} (h : u ≠ .notANumber) : (readParts u).SameNumber (readParts u) := by
  cases u with
  | notANumber => exact absurd rfl h
  | _ => rfl

theorem value_zero (s : Sign) : Dyadic.value ⟨isMinus s, 0, -1074⟩ = 0 := Dyadic.value_eq_zero.mpr rfl

theorem sameNumber_zero (s t : Sign) : (readParts (.zero s)).SameNumber (readParts (.zero t)) :=
  (value_zero s).trans (value_zero t).symm

theorem beq_parts {u v : UnpackedFloat} (hu : ∀ d, readParts u = .finite d → d.Canonical)
    (hv : ∀ d, readParts v = .finite d → d.Canonical) :
    u.beq v = true ↔ (readParts u).SameNumber (readParts v) := by
  rw [UnpackedFloat.beq_iff_ne_notANumber_and_eq]
  constructor
  · rintro ⟨hnumber, -, rfl | ⟨rfl, rfl⟩ | ⟨rfl, rfl⟩⟩
    · exact sameNumber_self hnumber
    · exact sameNumber_zero _ _
    · exact sameNumber_zero _ _
  · intro h
    have hfinite (s : Sign) {m : Nat} (e : Int) (hm : 0 < m) : Dyadic.value ⟨isMinus s, m, e⟩ ≠ 0 :=
      fun h => hm.ne' (Dyadic.value_eq_zero.mp h)
    cases u with
    | notANumber => exact h.elim
    | infinity s =>
      cases v with
      | infinity t => exact ⟨nofun, nofun, .inl (congrArg _ (isMinus_inj h))⟩
      | notANumber | zero | finite => exact h.elim
    | zero s =>
      cases v with
      | notANumber | infinity => exact h.elim
      | zero t =>
        refine ⟨nofun, nofun, ?_⟩
        cases s <;> cases t <;> simp
      | finite t n f hn => exact absurd ((value_zero s).symm.trans h).symm (hfinite t f hn)
    | finite s m e hm =>
      cases v with
      | notANumber | infinity => exact h.elim
      | zero t => exact absurd (h.trans (value_zero t)) (hfinite s e hm)
      | finite t n f hn =>
        have hsame := Dyadic.value_inj (hu _ rfl) (hv _ rfl) hm.ne' h
        simp only [Dyadic.mk.injEq] at hsame
        obtain ⟨hsign, rfl, rfl⟩ := hsame
        exact ⟨nofun, nofun, .inl (isMinus_inj hsign ▸ rfl)⟩

/-- Doubles are equal if they are the same number, whatever their form. -/
theorem beq_iff (x y : Float) : (x == y) = true ↔ (read x).SameNumber (read y) := by
  rw [read_eq, read_eq]
  exact beq_parts (fun d hd => canonical_of_read ((read_eq x).trans hd))
    fun d hd => canonical_of_read ((read_eq y).trans hd)

end ScriptHost.Decimal
