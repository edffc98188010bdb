import ScriptHost.Lua.Library.Basic
import ScriptHost.Proofs.FewDigits
import ScriptHost.Proofs.Provenance
import ScriptHost.Proofs.WrittenDoubles

/-! # Numbers as error objects

A number that escapes a run is reported in the plain form of the host, and `tostring` gives it the form of the guest.
The two are the same for whole numbers of the guest, but seldom for doubles. -/

namespace ScriptHost

namespace Decimal

open Lua.Number (textLayout floatText)

/-- A mark for whole numbers does not show on others. -/
theorem positionalText_of_fraction (mark mark' : String) {ds : List Char} {point : Int} (h : point < ds.length) :
    positionalText mark ds point = positionalText mark' ds point := by
  unfold positionalText
  split
  · rfl
  · rw [if_neg (by omega), if_neg (by omega)]

theorem positionalText_of_whole (mark : String) {ds : List Char} (hne : ds ≠ []) {point : Int} (h : ds.length ≤ point) :
    positionalText mark ds point = ds ++ List.replicate (point.toNat - ds.length) '0' ++ mark.toList := by
  have hlength : 0 < ds.length := List.length_pos_iff.mpr hne
  unfold positionalText
  rw [if_neg (by omega), if_pos (by omega)]

theorem magnitude_of_positional {l : Layout} {s : Scaled} (h : l.positional s.top = true) :
    l.magnitude s = positionalText l.wholeMark (Nat.toDigits 10 s.digits) (s.top + 1) := by
  rw [Layout.magnitude]
  exact if_pos h

theorem magnitude_of_not_positional {l : Layout} {s : Scaled} (h : ¬ l.positional s.top = true) :
    l.magnitude s = exponentialText l.exponentDigits (Nat.toDigits 10 s.digits) s.top := by
  rw [Layout.magnitude]
  exact if_neg h

theorem power_notMem_plain (s : Scaled) : 'e' ∉ plain.magnitude s := by
  rw [magnitude_of_positional rfl]
  intro h
  rcases mem_positionalText h with h | h | h | h
  · exact (AllDigits.toDigits _).ne_of_mem (by decide) _ h rfl
  · cases h
  · cases h
  · cases h

theorem numeralValue_plain (s : Scaled) : numeralValue (plain.magnitude s) = s.value := by
  have hds := AllDigits.toDigits s.digits
  have hvalue : Nat.ofDigitChars 10 (Nat.toDigits 10 s.digits) 0 = s.digits := Nat.ofDigitChars_ten_toDigits
  rw [numeralValue_of_notMem (power_notMem_plain s), magnitude_of_positional rfl, Scaled.value]
  rcases lt_or_ge (s.top + 1) (Nat.toDigits 10 s.digits).length with hfraction | hwhole
  · have hplaces : s.top + 1 - (Nat.toDigits 10 s.digits).length = s.exponent := by
      unfold Scaled.top
      omega
    rw [positionalText_of_fraction _ ".0" hfraction, pointValue_positionalText rfl hds, hvalue, hplaces]
  · have hplaces : s.exponent = (((s.top + 1).toNat - (Nat.toDigits 10 s.digits).length : ℕ) : Int) := by
      unfold Scaled.top at *
      omega
    have hempty : plain.wholeMark.toList = [] := rfl
    rw [positionalText_of_whole _ Nat.toDigits_ne_nil hwhole, hempty, List.append_nil,
      pointValue_digits (hds.append (.zeros _)), Nat.ofDigitChars_append, Nat.ofDigitChars_replicate_zero, hvalue,
      hplaces, zpow_natCast]
    push_cast
    ring

theorem eq_of_magnitude {s t : Scaled} (hs : s.Trimmed) (ht : t.Trimmed)
    (h : plain.magnitude s = textLayout.magnitude t) : s = t := by
  refine hs.eq ht ?_
  rw [← numeralValue_plain, h, Layout.numeralValue_magnitude rfl]

/-- The layouts agree on what is no whole number and needs no exponent. -/
theorem magnitude_eq_iff (s : Scaled) :
    plain.magnitude s = textLayout.magnitude s ↔ s.exponent < 0 ∧ -4 ≤ s.top ∧ s.top < 14 := by
  have hpositional : textLayout.positional s.top = true ↔ -4 ≤ s.top ∧ s.top < 14 := by simp [textLayout]
  have hfraction : s.exponent < 0 ↔ s.top + 1 < (Nat.toDigits 10 s.digits).length := by
    unfold Scaled.top
    omega
  rw [← hpositional, hfraction]
  constructor
  · intro h
    have htop : textLayout.positional s.top = true := by
      by_contra hexponential
      refine power_notMem_plain s ?_
      rw [h, magnitude_of_not_positional hexponential]
      exact List.mem_append_right _ List.mem_cons_self
    refine ⟨?_, htop⟩
    by_contra hwhole
    -- the mark of the guest is on the end
    rw [magnitude_of_positional htop, magnitude_of_positional rfl,
      positionalText_of_whole _ Nat.toDigits_ne_nil (not_lt.mp hwhole),
      positionalText_of_whole _ Nat.toDigits_ne_nil (not_lt.mp hwhole), List.append_cancel_left_eq] at h
    cases h
  · rintro ⟨hpoint, htop⟩
    rw [magnitude_of_positional htop, magnitude_of_positional rfl]
    exact positionalText_of_fraction _ _ hpoint

/-- A number of at most fourteen digits, the last of which is no zero and stands behind the point, and the first of
which stands at most four places behind it. -/
structure Scaled.Short (s : Scaled) : Prop where
  few : s.digits < 10 ^ 14
  trimmed : s.Trimmed
  fraction : s.exponent < 0
  least : (10 : ℚ) ^ (-4 : Int) ≤ s.value

/-- An infinity, or the double that a short number reads as. -/
def Concise (x : Float) : Prop :=
  match read x with
  | .notANumber => False
  | .infinite _ => True
  | .finite d => ∃ s : Scaled, s.Short ∧ d.Covers s.value

theorem Scaled.Short.top {s : Scaled} (h : s.Short) : -4 ≤ s.top ∧ s.top < 14 := by
  refine ⟨(Scaled.le_top_iff h.trimmed.pos).mpr h.least, ?_⟩
  have hlength := (Nat.length_toDigits_le_iff (b := 10) (by decide) (by decide)).mpr h.few
  have hfraction := h.fraction
  unfold Scaled.top
  omega

/-- Of the fourteen digits one at least is behind the point. -/
theorem Scaled.Short.value_lt {s : Scaled} (h : s.Short) : s.value < 10 ^ 13 := by
  have hfew : (s.digits : ℚ) < 10 ^ 14 := by exact_mod_cast h.few
  have hfraction := h.fraction
  have hpow : (10 : ℚ) ^ s.exponent ≤ 10 ^ (-1 : Int) := zpow_le_zpow_right₀ (by norm_num) (by omega)
  calc s.value < 10 ^ 14 * 10 ^ s.exponent := mul_lt_mul_of_pos_right hfew (by positivity)
    _ ≤ 10 ^ 14 * 10 ^ (-1 : Int) := by gcongr
    _ = 10 ^ 13 := by norm_num

theorem Dyadic.exists_size_of_whole? {d : Dyadic} {n : Int} (h : d.whole? = some n) : ∃ k : ℕ, d.size = k := by
  obtain ⟨negative, mantissa, exponent⟩ := d
  cases exponent with
  | ofNat e => exact ⟨mantissa * 2 ^ e, by simp [size]⟩
  | negSucc e =>
    by_cases hzero : mantissa % 2 ^ (e + 1) = 0
    · refine ⟨mantissa / 2 ^ (e + 1), ?_⟩
      rw [size, zpow_negSucc, Nat.cast_div (Nat.dvd_of_mod_eq_zero hzero) (by positivity), div_eq_mul_inv]
      push_cast
      rfl
    · simp [whole?, hzero] at h

/-- No short number reads as a whole one, which is a number of few digits itself. -/
theorem Dyadic.not_short_of_size {d : Dyadic} (hd : d.Canonical) (hmost : d.exponent < 1000) {k : ℕ} (hk : d.size = k) :
    ¬ ∃ s : Scaled, s.Short ∧ d.Covers s.value := by
  rintro ⟨s, hshort, hcovers⟩
  have hnormal := hcovers.normal hd hshort.least
  have hpos : 0 < d.mantissa := lt_of_lt_of_le (by decide) (hd.full hnormal)
  have hvalue : (⟨k, 0⟩ : Scaled).value = d.size := by rw [hk, Scaled.value, zpow_zero, mul_one]
  have hsmall : s.value < 10 ^ 13 := hshort.value_lt
  have hnear : |s.value - k| * 2 ^ 53 ≤ k := hk ▸ hcovers.near hd hnormal
  have hfew : k < 10 ^ 14 := by
    have hdistance := neg_abs_le (s.value - k)
    have hcast : (k : ℚ) < 10 ^ 14 := by linarith
    exact_mod_cast hcast
  have hsame := (shortest_value hd hmost hnormal hpos hshort.few hcovers).symm.trans
    (shortest_value hd hmost hnormal hpos (s := ⟨k, 0⟩) hfew (hvalue ▸ d.covers_size))
  exact absurd hshort.fraction (not_lt.mpr (hshort.trimmed.exponent_le hsame))

theorem value_unscale (d : Dyadic) :
    ((unscale d.mantissa 1 (-d.exponent)).1 : ℚ) / (unscale d.mantissa 1 (-d.exponent)).2 = d.size := by
  rw [Dyadic.size, zpow_eq_div (by norm_num), unscale, neg_neg, one_mul]
  push_cast
  ring

theorem zero_lt_unscale (d : Dyadic) : 0 < (unscale d.mantissa 1 (-d.exponent)).2 := by
  unfold unscale
  positivity

def guestDigits (d : Dyadic) : Scaled :=
  stripZeros 14 (significant (unscale d.mantissa 1 (-d.exponent)).1 (unscale d.mantissa 1 (-d.exponent)).2 14)

section

variable {d : Dyadic} (hd : d.Canonical) (hmost : d.exponent < 1000) (hpos : 0 < d.mantissa)

include hd hmost hpos

theorem guestDigits_trimmed : (guestDigits d).Trimmed ∧ (guestDigits d).digits < 10 ^ 14 := by
  obtain ⟨hpositive, hfew⟩ := significant_digits (zero_lt_unscale d) (show 0 < 14 by decide) (value_unscale d)
    (Dyadic.size_pos hpos) (Dyadic.leading_of_size hd hmost hpos (zero_lt_unscale d) (value_unscale d))
  exact ⟨trimmed_stripZeros (show 13 ≤ 14 by decide) hpositive hfew, (digits_stripZeros_le _ _).trans_lt hfew⟩

/-- The fewest digits and those of the guest look alike just if a short number reads as the double. -/
theorem magnitude_shortest_iff :
    plain.magnitude (shortest d.mantissa d.exponent) = textLayout.magnitude (guestDigits d) ↔
      ∃ s : Scaled, s.Short ∧ d.Covers s.value := by
  constructor
  · intro h
    obtain ⟨htrimmed, hfew⟩ := guestDigits_trimmed hd hmost hpos
    have heq := eq_of_magnitude (Dyadic.trimmed_shortest hd hmost hpos) htrimmed h
    rw [heq, magnitude_eq_iff] at h
    obtain ⟨hfraction, hleast, -⟩ := h
    have hcovers := Dyadic.shortest_covered hd hmost hpos
    rw [heq] at hcovers
    exact ⟨guestDigits d, ⟨hfew, htrimmed, hfraction, (Scaled.le_top_iff htrimmed.pos).mp hleast⟩, hcovers⟩
  · rintro ⟨s, hshort, hcovers⟩
    have hnormal := hcovers.normal hd hshort.least
    rw [Dyadic.shortest_eq hd hmost hnormal hpos hshort.few hcovers hshort.trimmed, guestDigits,
      Dyadic.significant_eq hd hmost hnormal hpos hshort.few hcovers hshort.trimmed (zero_lt_unscale d)
        (value_unscale d)]
    exact (magnitude_eq_iff s).mpr ⟨hshort.fraction, hshort.top⟩

end

/-- A double has one text for the host and the guest just if it is an infinity or a short number reads as it. -/
theorem plainText_eq_floatText_iff (x : Float) : plainText x = floatText x ↔ Concise x := by
  unfold plainText floatText Concise
  cases hread : read x with
  | notANumber => decide
  | infinite negative => simp
  | finite d =>
    have hd := canonical_of_read hread
    simp only [Layout.shortestText]
    by_cases hzero : d.mantissa = 0
    · have hsize : d.size = (0 : ℕ) := by rw [Dyadic.size, hzero, Nat.cast_zero, zero_mul]
      rw [if_pos hzero, if_pos hzero, String.ofList_inj, List.append_cancel_left_eq]
      exact iff_of_false (by decide) (Dyadic.not_short_of_size hd (exponent_lt_of_read hread) hsize)
    · rw [if_neg hzero, if_neg hzero, String.ofList_inj, List.append_cancel_left_eq]
      exact magnitude_shortest_iff hd (exponent_lt_of_read hread) (Nat.pos_of_ne_zero hzero)

instance : DecidablePred Concise := fun x => decidable_of_iff _ (plainText_eq_floatText_iff x)

theorem not_concise_of_whole {x : Float} {n : Int} (h : whole? x = some n) : ¬ Concise x := by
  unfold whole? at h
  unfold Concise
  cases hread : read x with
  | finite d =>
    rw [hread] at h
    obtain ⟨k, hk⟩ := Dyadic.exists_size_of_whole? h
    exact Dyadic.not_short_of_size (canonical_of_read hread) (exponent_lt_of_read hread) hk
  | _ =>
    rw [hread] at h
    cases h

end Decimal

open Lua (Value Heap BasicFn Machine)

variable {α σ : Type}

namespace Lua

/-- Whether the host spells a number as the guest does. -/
def Value.SpelledAlike : Value → Prop
  | .float x => Decimal.Concise x
  | _ => True

instance (v : Value) : Decidable v.SpelledAlike :=
  match v with
  | .float x => inferInstanceAs (Decidable (Decimal.Concise x))
  | .nil | .bool _ | .int _ | .str _ | .table _ | .builtin _ | .closure _ | .thread _ | .userdata _ | .lightUserdata _
  | .error _ => isTrue trivial

/-- A number is told by its text, whatever the store. -/
theorem tostring_number {v : Value} {b : Bytes} (h : Number.text? v = some b) (platform : Platform) (heap : Heap) :
    BasicFn.tostring.run platform [v] heap = .done [.str b] heap := by
  cases v with
  | int n =>
    cases h
    rfl
  | float x =>
    cases h
    rfl
  | _ => cases h

end Lua

theorem Lua.Value.isPlain_of_number {v : Value} (hnumber : v.typeName = "number") : v.isPlain := by
  cases v with
  | error r => simp [typeName] at hnumber
  | _ => rfl

theorem RunOutcome.record_message (errors : Nat → Option Lua.GuestError) (handled : Bool) {v : Value}
    (hplain : v.isPlain) : (record errors false handled v).message = guestMessage v := by
  cases v with
  | error r => simp [Value.isPlain] at hplain
  | _ => simp [record, ExecutionError.ofRaw]

/-- A number is spelled alike by the host and the guest. -/
theorem RunOutcome.guestMessage_number {v : Value} (hnumber : v.typeName = "number") :
    ∃ t, Lua.Number.text? v = some (Lua.bytes t) ∧ (guestMessage v = t ↔ v.SpelledAlike) := by
  cases v with
  | int n => exact ⟨_, rfl, iff_of_true rfl trivial⟩
  | float x => exact ⟨_, rfl, Decimal.plainText_eq_floatText_iff x⟩
  | _ => simp [Value.typeName] at hnumber

namespace Engine

/-- An object of the script's own that escapes makes the run fail with a report of this object. -/
theorem execute_of_escaped (host : Host α σ) {e : Engine α σ} {v : Value} (hv : e.escaped? host = some v)
    (hplain : v.isPlain) :
    ∃ error, (e.execute host).1 = .error error ∧ error.message = RunOutcome.guestMessage v := by
  obtain ⟨c, hc, hv⟩ := Option.bind_eq_some_iff.mp hv
  have hrecord := recordOf_of_uncaught hv
  refine ⟨recordOf (ended host e c), ?_, ?_⟩
  · rw [execute_answer host hc]
    refine ExecutionError.toResult_of_ne ?_
    rw [hrecord, record_plain _ _ hplain]
    split
    · decide
    · split <;> decide
  · rw [hrecord]
    exact RunOutcome.record_message _ _ hplain

/-- A number that escapes is reported with the text of `tostring` just if it is spelled alike, as no double that is a
whole number is. -/
theorem execute_number_iff (host : Host α σ) {e : Engine α σ} {v : Value} (hv : e.escaped? host = some v)
    (hnumber : v.typeName = "number") :
    ∃ error t, (e.execute host).1 = .error error ∧
      (∀ platform heap, BasicFn.tostring.run platform [v] heap = .done [.ofText t] heap) ∧
      (error.message = t ↔ v.SpelledAlike) ∧
      ∀ x n, v = .float x → Lua.Number.exactInt? x = some n → error.message ≠ t := by
  obtain ⟨t, htext, halike⟩ := RunOutcome.guestMessage_number hnumber
  obtain ⟨error, herror, hmessage⟩ := execute_of_escaped host hv (Value.isPlain_of_number hnumber)
  rw [← hmessage] at halike
  refine ⟨error, t, herror, Lua.tostring_number htext, halike, ?_⟩
  rintro x n rfl hwhole
  obtain ⟨m, hm, -⟩ := Option.bind_eq_some_iff.mp hwhole
  exact halike.not.mpr (Decimal.not_concise_of_whole hm)

-- In the runs below a double escapes.

def tenthClosing : Engine Empty Unit :=
  loadedWith "local x <close> = setmetatable({}, {__close = function() error(0.1) end}) error(1)"

/-- A tenth that takes the place of another number is told as the guest tells it. -/
theorem execute_number_iff_closing :
    ∃ v error t, tenthClosing.escaped? idle = some v ∧ v.typeName = "number" ∧
      (tenthClosing.execute idle).1 = .error error ∧
      (∀ platform heap, BasicFn.tostring.run platform [v] heap = .done [.ofText t] heap) ∧ v.SpelledAlike ∧
      error.message = t := by
  have hescaped : (tenthClosing.escaped? idle).any fun v => v.typeName = "number" ∧ v.SpelledAlike := by decide +kernel
  obtain ⟨v, hv, hgiven⟩ := (Option.any_eq_true _ _).mp hescaped
  obtain ⟨hnumber, halike⟩ := of_decide_eq_true hgiven
  obtain ⟨error, t, herror, htold, hiff, -⟩ := execute_number_iff idle hv hnumber
  exact ⟨v, error, t, hv, hnumber, herror, htold, halike, hiff.mpr halike⟩

def wholeDouble : Engine Empty Unit := loadedWith "error(1.0)"

/-- A double that is a whole number loses its mark in the report. -/
theorem execute_number_whole :
    ∃ v error, wholeDouble.escaped? idle = some v ∧ v.typeName = "number" ∧
      (wholeDouble.execute idle).1 = .error error ∧
      (∀ platform heap, BasicFn.tostring.run platform [v] heap = .done [.ofText "1.0"] heap) ∧ error.message = "1" := by
  have htext : (wholeDouble.escaped? idle).any fun v =>
      v.typeName = "number" ∧ Lua.Number.text? v = some (Lua.bytes "1.0") := by
    decide +kernel
  have hmessage : (errorOf (wholeDouble.execute idle).1).map ExecutionError.message = some "1" := by decide +kernel
  obtain ⟨v, hv, hgiven⟩ := (Option.any_eq_true _ _).mp htext
  obtain ⟨hnumber, htold⟩ := of_decide_eq_true hgiven
  obtain ⟨error, herror, hone⟩ := Option.map_eq_some_iff.mp hmessage
  exact ⟨v, error, hv, hnumber, eq_error_of_errorOf herror, Lua.tostring_number htold, hone⟩

end Engine

end ScriptHost
