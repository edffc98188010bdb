import ScriptHost.Json.Decode
import ScriptHost.Json.Value
import ScriptHost.Proofs.Numerals

/-! # Reading back numbers

A number ends only with what follows it. So a written number is read back from the front of a text if the text goes on
with nothing that a number could go on with. Whole numbers keep their value as far as 64 bits go. A double keeps the
value that its text has, which may be a neighbour of the one that was written. -/

namespace ScriptHost.Json

/-- What may follow a value: the end of the text, or a character with which no number goes on. -/
inductive Ends : List Char → Prop
  | nil : Ends []
  | comma (rest : List Char) : Ends (',' :: rest)
  | bracket (rest : List Char) : Ends (']' :: rest)
  | brace (rest : List Char) : Ends ('\x7d' :: rest)
  | space (rest : List Char) : Ends (' ' :: rest)
  | newline (rest : List Char) : Ends ('\n' :: rest)
  | tab (rest : List Char) : Ends ('\t' :: rest)
  | carriage (rest : List Char) : Ends ('\r' :: rest)

namespace Ends

variable {rest : List Char}

theorem of_blank {c : Char} (h : isBlank c = true) (rest : List Char) : Ends (c :: rest) := by
  simp only [isBlank, Bool.or_eq_true, beq_iff_eq] at h
  rcases h with ((rfl | rfl) | rfl) | rfl
  · exact .space rest
  · exact .newline rest
  · exact .tab rest
  · exact .carriage rest

theorem takeDigits (h : Ends rest) : takeDigits rest = ([], rest) := by cases h <;> rfl

theorem takeFraction (h : Ends rest) : takeFraction rest = (none, rest) := by cases h <;> rfl

theorem takePower (h : Ends rest) : takePower rest = (none, rest) := by cases h <;> rfl

end Ends

def digitValues (n : Nat) : List Nat := (Nat.toDigits 10 n).map fun c => c.toNat - 48

theorem takeDigits_append_of_isDigit {cs rest : List Char} (hcs : ∀ c ∈ cs, c.isDigit)
    (hrest : takeDigits rest = ([], rest)) : takeDigits (cs ++ rest) = (cs.map fun c => c.toNat - 48, rest) := by
  induction cs with
  | nil => exact hrest
  | cons c cs ih =>
    rw [List.forall_mem_cons] at hcs
    simp only [List.cons_append, takeDigits, Decimal.digitValue?_of_isDigit hcs.1, ih hcs.2, List.map_cons]

theorem takeDigits_toDigits (n : Nat) {rest : List Char} (hrest : takeDigits rest = ([], rest)) :
    takeDigits (Nat.toDigits 10 n ++ rest) = (digitValues n, rest) :=
  takeDigits_append_of_isDigit (fun _ hc => Nat.isDigit_of_mem_toDigits (by decide) (by decide) hc) hrest

theorem digitChar_value : ∀ d < 10, (Nat.digitChar d).toNat - 48 = d := by decide

theorem digitValues_of_lt {n : Nat} (h : n < 10) : digitValues n = [n] := by
  rw [digitValues, Nat.toDigits_of_lt_base h, List.map_singleton, digitChar_value n h]

theorem digitValues_of_le {n : Nat} (h : 10 ≤ n) : digitValues n = digitValues (n / 10) ++ [n % 10] := by
  rw [digitValues, Nat.toDigits_of_base_le (by decide) h, List.map_append, List.map_singleton,
    digitChar_value _ (Nat.mod_lt n (by decide)), digitValues]

theorem digitValues_ne_nil (n : Nat) : digitValues n ≠ [] := by
  rw [digitValues, Ne, List.map_eq_nil_iff]
  exact Nat.toDigits_ne_nil

/-- Only zero is written with a zero in front. -/
theorem eq_zero_of_head_digitValues (n : Nat) (h : (digitValues n).head? = some 0) : n = 0 := by
  induction n using Nat.strongRecOn with
  | _ n ih =>
    by_cases hn : n < 10
    · rw [digitValues_of_lt hn, List.head?_cons] at h
      exact Option.some.inj h
    · have hle : 10 ≤ n := Nat.le_of_not_lt hn
      obtain ⟨d, tail, hdigits⟩ := List.exists_cons_of_ne_nil (digitValues_ne_nil (n / 10))
      have hhead : (digitValues (n / 10)).head? = some 0 := by
        rw [digitValues_of_le hle, hdigits, List.cons_append, List.head?_cons] at h
        rw [hdigits, List.head?_cons, h]
      have hzero := ih (n / 10) (by omega) hhead
      omega

theorem foldl_digitValues (n : Nat) : (digitValues n).foldl (fun acc d => acc * 10 + d) 0 = n := by
  induction n using Nat.strongRecOn with
  | _ n ih =>
    by_cases hn : n < 10
    · rw [digitValues_of_lt hn, List.foldl_cons, List.foldl_nil, Nat.zero_mul, Nat.zero_add]
    · have hle : 10 ≤ n := Nat.le_of_not_lt hn
      rw [digitValues_of_le hle, List.foldl_append, ih (n / 10) (by omega), List.foldl_cons, List.foldl_nil]
      omega

theorem le_foldl_digits (ds : List Nat) (acc : Nat) : acc ≤ ds.foldl (fun acc d => acc * 10 + d) acc := by
  induction ds generalizing acc with
  | nil => exact Nat.le_refl acc
  | cons d ds ih =>
    have hstep := ih (acc * 10 + d)
    rw [List.foldl_cons]
    omega

/-- Digits of a number below 64 bits are all added up. -/
theorem accumulate_eq {ds : List Nat} {acc : Nat} (h : ds.foldl (fun acc d => acc * 10 + d) acc < 2 ^ 64) :
    accumulate ds acc = (ds.foldl (fun acc d => acc * 10 + d) acc, []) := by
  induction ds generalizing acc with
  | nil => rfl
  | cons d ds ih =>
    rw [List.foldl_cons] at h ⊢
    have hstep := le_foldl_digits ds (acc * 10 + d)
    rw [accumulate, if_neg (by omega), ih h]

def NumberText.ofInt (n : Int) : NumberText := ⟨decide (n < 0), digitValues n.natAbs, none, none⟩

theorem NumberText.value_ofInt {n : Int} (hlow : -(2 ^ 63) ≤ n) (hhigh : n < 2 ^ 64) :
    (NumberText.ofInt n).value = .ok (.whole n) := by
  have hfold := foldl_digitValues n.natAbs
  have haccumulate : accumulate (digitValues n.natAbs) 0 = (n.natAbs, []) := by
    rw [accumulate_eq (by rw [hfold]; omega), hfold]
  by_cases hsign : n < 0
  · have hsize : ¬ (n.natAbs = 0 ∨ 2 ^ 63 < n.natAbs) := by omega
    have hvalue : -(n.natAbs : Int) = n := by omega
    simp only [NumberText.ofInt, NumberText.value, haccumulate, decide_eq_true hsign, Option.isSome_none,
      List.isEmpty_nil, Bool.not_true, Bool.false_eq_true, or_self, if_false, if_neg hsize, hvalue]
  · have hvalue : (n.natAbs : Int) = n := by omega
    simp [NumberText.ofInt, NumberText.value, haccumulate, hsign, hvalue]

theorem readNumber_toDigits (negative : Bool) (n : Nat) {rest : List Char} (hrest : Ends rest) :
    readNumber negative (Nat.toDigits 10 n ++ rest) = (.number ⟨negative, digitValues n, none, none⟩, rest) := by
  have hnonempty : ¬ (digitValues n).isEmpty = true := by
    rw [List.isEmpty_iff]
    exact digitValues_ne_nil n
  have hzero : ¬ ((digitValues n).head? = some 0 ∧ 1 < (digitValues n).length) := by
    rintro ⟨hhead, hlength⟩
    rw [eq_zero_of_head_digitValues n hhead, digitValues_of_lt (by decide), List.length_singleton] at hlength
    exact Nat.lt_irrefl 1 hlength
  simp only [readNumber, takeDigits_toDigits n hrest.takeDigits, if_neg hnonempty, if_neg hzero, hrest.takeFraction,
    hrest.takePower, Option.any_none, reduceCtorEq, if_false, Bool.false_eq_true]

theorem toList_toString_int (n : Int) :
    (toString n).toList = (if n < 0 then ['-'] else []) ++ Nat.toDigits 10 n.natAbs := by
  cases n with
  | ofNat m =>
    have hsign : ¬ Int.ofNat m < 0 := Int.not_lt.mpr (Int.natCast_nonneg m)
    rw [if_neg hsign, List.nil_append]
    exact Nat.toList_repr
  | negSucc m =>
    rw [if_pos (Int.negSucc_lt_zero m)]
    change ("-" ++ Nat.repr (m + 1)).toList = _
    rw [String.toList_append, Nat.toList_repr]
    rfl

def Unblank (cs : List Char) : Prop := ∀ c ∈ cs, isBlank c = false

namespace Unblank

theorem of_figures {cs : List Char} (h : ∀ c ∈ cs, Decimal.IsFigure c) : Unblank cs := by
  intro c hc
  have hne (d : Char) (hd : d.isDigit = false) (hother : d ≠ '.' ∧ d ≠ 'e' ∧ d ≠ '-' ∧ d ≠ '+') :
      (c == d) = false := beq_eq_false_iff_ne.mpr ((h c hc).ne hd hother)
  simp only [isBlank, hne ' ' (by decide) (by decide), hne '\n' (by decide) (by decide),
    hne '\t' (by decide) (by decide), hne '\r' (by decide) (by decide), Bool.or_self]

theorem toDigits (n : Nat) : Unblank (Nat.toDigits 10 n) :=
  of_figures fun _ hc => .inl (Nat.isDigit_of_mem_toDigits (by decide) (by decide) hc)

end Unblank

theorem isFigure_of_mem_shortestText {d : Decimal.Dyadic} {c : Char} (h : c ∈ (doubleLayout.shortestText d).toList) :
    Decimal.IsFigure c := by
  refine Decimal.isFigure_of_mem_shortestText ?_ h
  intro c hc
  change c ∈ ['.', '0'] at hc
  rcases List.mem_cons.mp hc with hc | hc
  · exact .inr (.inl hc)
  · exact .inl (List.mem_singleton.mp hc ▸ rfl)

theorem Unblank.doubleText (x : Float) : Unblank (doubleText x).toList := by
  unfold Json.doubleText
  split
  · exact .of_figures fun _ hc => isFigure_of_mem_shortestText hc
  · simp [Unblank, isBlank]

end ScriptHost.Json
