import Mathlib.Data.List.Forall2
import ScriptHost.Proofs.Json.Numbers
import ScriptHost.Proofs.Json.Tokens

/-! # Numbers and strings as they are written

A number is written as a sign, whole digits without a needless zero, a fraction and a power of ten. That is what the
reader takes from the front of a text if what follows does not go on with the number, and a string is taken up to its
closing quote. -/

namespace ScriptHost.Json

/-- Characters that are digits, with their values. -/
def Digits (cs : List Char) (ds : List Nat) : Prop := List.Forall₂ (fun c d => Decimal.digitValue? 10 c = some d) cs ds

inductive Fraction : List Char → Option (List Nat) → Prop
  | none : Fraction [] none
  | some {cs : List Char} {ds : List Nat} (h : Digits cs ds) (hne : ds ≠ []) : Fraction ('.' :: cs) (some ds)

inductive Sign : List Char → Bool → Prop
  | none : Sign [] false
  | plus : Sign ['+'] false
  | minus : Sign ['-'] true

inductive Power : List Char → Option (Bool × List Nat) → Prop
  | none : Power [] none
  | some {mark : Char} {sign cs : List Char} {minus : Bool} {ds : List Nat} (hmark : mark = 'e' ∨ mark = 'E')
    (hsign : Sign sign minus) (h : Digits cs ds) (hne : ds ≠ []) : Power (mark :: (sign ++ cs)) (some (minus, ds))

/-- A number behind its sign. -/
inductive Numeral (negative : Bool) : List Char → NumberText → Prop
  | mk {whole fraction power : List Char} {ws : List Nat} {fs : Option (List Nat)} {p : Option (Bool × List Nat)}
    (hwhole : Digits whole ws) (hne : ws ≠ []) (hzero : ws.head? = some 0 → ws.length = 1)
    (hfraction : Fraction fraction fs) (hpower : Power power p) :
    Numeral negative (whole ++ (fraction ++ power)) ⟨negative, ws, fs, p⟩

def Undigit (rest : List Char) : Prop := takeDigits rest = ([], rest)

theorem Digits.takeDigits_append {cs : List Char} {ds : List Nat} (h : Digits cs ds) {rest : List Char}
    (hrest : Undigit rest) : takeDigits (cs ++ rest) = (ds, rest) := by
  induction h with
  | nil => exact hrest
  | cons hd _ ih => simp only [List.cons_append, takeDigits, hd, ih]

theorem digits_of_takeDigits (cs : List Char) :
    ∃ front, cs = front ++ (takeDigits cs).2 ∧ Digits front (takeDigits cs).1 ∧ Undigit (takeDigits cs).2 := by
  induction cs with
  | nil => exact ⟨[], rfl, .nil, rfl⟩
  | cons c cs ih =>
    obtain ⟨front, hsplit, hdigits, hrest⟩ := ih
    rw [takeDigits]
    cases hd : Decimal.digitValue? 10 c with
    | none => 
      refine ⟨[], rfl, .nil, ?_⟩
      rw [Undigit, takeDigits, hd]
    | some d =>
      refine ⟨c :: front, ?_, .cons hd hdigits, hrest⟩
      rw [List.cons_append, ← hsplit]

theorem Fraction.takeFraction_append {cs : List Char} {fs : Option (List Nat)} (h : Fraction cs fs) {rest : List Char}
    (hrest : Undigit rest) (hpoint : takeFraction rest = (Option.none, rest)) : takeFraction (cs ++ rest) = (fs, rest) := by
  cases h with
  | none => exact hpoint
  | some h => simp only [List.cons_append, takeFraction, h.takeDigits_append hrest]

theorem fraction_of_takeFraction {cs : List Char} (h : (takeFraction cs).1 ≠ some []) :
    ∃ front, cs = front ++ (takeFraction cs).2 ∧ Fraction front (takeFraction cs).1 := by
  unfold takeFraction at h ⊢
  split
  · next tail =>
    obtain ⟨front, hsplit, hdigits, -⟩ := digits_of_takeDigits tail
    refine ⟨'.' :: front, ?_, .some hdigits fun hnil => h (congrArg some hnil)⟩
    rw [List.cons_append, ← hsplit]
  · exact ⟨[], rfl, .none⟩

theorem takeSign_of_digits {cs : List Char} {ds : List Nat} (h : Digits cs ds) (hne : ds ≠ []) (rest : List Char) :
    Decimal.takeSign (cs ++ rest) = (false, cs ++ rest) := by
  cases h with
  | nil => exact absurd rfl hne
  | @cons c d cs ds hd _ =>
    unfold Decimal.takeSign
    split
    · next hcons =>
      cases hcons
      cases hd
    · next hcons =>
      cases hcons
      cases hd
    · rfl

theorem Sign.takeSign_append {sign cs : List Char} {minus : Bool} {ds : List Nat} (hsign : Sign sign minus)
    (h : Digits cs ds) (hne : ds ≠ []) (rest : List Char) :
    Decimal.takeSign (sign ++ (cs ++ rest)) = (minus, cs ++ rest) := by
  cases hsign with
  | none => exact takeSign_of_digits h hne rest
  | plus => rfl
  | minus => rfl

theorem sign_of_takeSign (cs : List Char) :
    ∃ front, cs = front ++ (Decimal.takeSign cs).2 ∧ Sign front (Decimal.takeSign cs).1 := by
  unfold Decimal.takeSign
  split
  · exact ⟨['-'], rfl, .minus⟩
  · exact ⟨['+'], rfl, .plus⟩
  · exact ⟨[], rfl, .none⟩

theorem Power.takePower_append {cs : List Char} {p : Option (Bool × List Nat)} (h : Power cs p) {rest : List Char}
    (hrest : Ends rest) : takePower (cs ++ rest) = (p, rest) := by
  cases h with
  | none => exact hrest.takePower
  | some hmark hsign h hne =>
    simp only [List.cons_append, List.append_assoc, takePower, if_pos hmark, hsign.takeSign_append h hne,
      h.takeDigits_append hrest.takeDigits]

theorem power_of_takePower {cs : List Char} (h : ((takePower cs).1.any (·.2.isEmpty)) = false) :
    ∃ front, cs = front ++ (takePower cs).2 ∧ Power front (takePower cs).1 := by
  cases cs with
  | nil => exact ⟨[], rfl, .none⟩
  | cons c tail =>
    rw [takePower] at h ⊢
    split
    · next hmark =>
      rw [if_pos hmark] at h
      obtain ⟨sign, hsplit, hsign⟩ := sign_of_takeSign tail
      obtain ⟨front, hsplit', hdigits, -⟩ := digits_of_takeDigits (Decimal.takeSign tail).2
      refine ⟨c :: (sign ++ front), ?_, .some hmark hsign hdigits ?_⟩
      · rw [List.cons_append, List.append_assoc, ← hsplit', ← hsplit]
      · intro hnil
        simp [hnil] at h
    · exact ⟨[], rfl, .none⟩

/-- Behind whole digits neither a fraction nor a power goes on with them. -/
theorem undigit_of_parts {fraction power rest : List Char} {fs : Option (List Nat)} {p : Option (Bool × List Nat)}
    (hfraction : Fraction fraction fs) (hpower : Power power p) (hrest : Ends rest) :
    Undigit (fraction ++ (power ++ rest)) := by
  cases hfraction with
  | some => rfl
  | none =>
    cases hpower with
    | none => exact hrest.takeDigits
    | some hmark => rcases hmark with rfl | rfl <;> rfl

theorem Power.takeFraction_append {power rest : List Char} {p : Option (Bool × List Nat)} (hpower : Power power p)
    (hrest : Ends rest) : takeFraction (power ++ rest) = (Option.none, power ++ rest) := by
  cases hpower with
  | none => exact hrest.takeFraction
  | some hmark => rcases hmark with rfl | rfl <;> rfl

theorem Fraction.ne_some_nil {cs : List Char} {fs : Option (List Nat)} (h : Fraction cs fs) : fs ≠ Option.some [] := by
  cases h with
  | none => exact nofun
  | some _ hne => exact fun hnil => hne (Option.some.inj hnil)

theorem Power.any_isEmpty {cs : List Char} {p : Option (Bool × List Nat)} (h : Power cs p) :
    p.any (·.2.isEmpty) = false := by
  cases h with
  | none => rfl
  | some _ _ _ hne => simpa using hne

theorem Numeral.readNumber_append {negative : Bool} {cs : List Char} {n : NumberText} (h : Numeral negative cs n)
    {rest : List Char} (hrest : Ends rest) : readNumber negative (cs ++ rest) = (.number n, rest) := by
  obtain @⟨whole, fraction, power, ws, fs, p, hwhole, hne, hzero, hfraction, hpower⟩ := h
  have hdigits := hwhole.takeDigits_append (undigit_of_parts hfraction hpower hrest)
  have hzero' : ¬ (ws.head? = some 0 ∧ 1 < ws.length) := by
    rintro ⟨hhead, hlength⟩
    have hone := hzero hhead
    omega
  have hpoint : takeFraction (fraction ++ (power ++ rest)) = (fs, power ++ rest) :=
    hfraction.takeFraction_append (undigit_of_parts .none hpower hrest) (hpower.takeFraction_append hrest)
  rw [List.append_assoc, List.append_assoc]
  simp only [readNumber, hdigits, if_neg (mt List.isEmpty_iff.mp hne), if_neg hzero', hpoint,
    if_neg hfraction.ne_some_nil, hpower.takePower_append hrest, hpower.any_isEmpty, Bool.false_eq_true, if_false]

theorem numeral_of_readNumber {negative : Bool} {cs : List Char} {n : NumberText} {rest : List Char}
    (h : readNumber negative cs = (.number n, rest)) : ∃ front, cs = front ++ rest ∧ Numeral negative front n := by
  obtain ⟨whole, hwhole, hdigits, -⟩ := digits_of_takeDigits cs
  simp only [readNumber] at h
  split at h
  · cases h
  next hne =>
  split at h
  · cases h
  next hzero =>
  split at h
  · cases h
  next hfraction =>
  split at h
  · cases h
  next hpower =>
  cases h
  obtain ⟨fraction, hfraction', hpoint⟩ := fraction_of_takeFraction hfraction
  obtain ⟨power, hpower', hmark⟩ := power_of_takePower (Bool.eq_false_iff.mpr hpower)
  refine ⟨whole ++ (fraction ++ power), ?_, .mk hdigits (mt List.isEmpty_iff.mpr hne) ?_ hpoint hmark⟩
  · rw [List.append_assoc, List.append_assoc, ← hpower', ← hfraction', ← hwhole]
  · intro hhead
    have hpos := List.length_pos_iff.mpr (mt List.isEmpty_iff.mpr hne)
    have hle : ¬ 1 < (takeDigits cs).1.length := fun hlt => hzero ⟨hhead, hlt⟩
    omega

/-- The rest of a string up to its closing quote, with what it spells: characters, escapes, and the code units of
which some are half a character only. -/
inductive Quoted : Except Fault (List Char) → Owed → List Char → Except Fault String → Prop
  | close {sofar : Except Fault (List Char)} {owed : Owed} :
    Quoted sofar owed ['"'] ((if owed.isSome then .error .malformed else sofar).map fun cs => String.ofList cs.reverse)
  | plain {sofar : Except Fault (List Char)} {owed : Owed} {c : Char} {cs : List Char} {s : Except Fault String}
    (hquote : c ≠ '"') (hslash : c ≠ '\\') (hcontrol : ¬ c.toNat < 0x20)
    (h : Quoted (addChar sofar owed c) none cs s) : Quoted sofar owed (c :: cs) s
  | escape {sofar : Except Fault (List Char)} {owed : Owed} {c d : Char} {cs : List Char} {s : Except Fault String}
    (hc : simpleEscape? c = some d) (h : Quoted (addChar sofar owed d) none cs s) : Quoted sofar owed ('\\' :: c :: cs) s
  | unit {sofar : Except Fault (List Char)} {owed : Owed} {a b c d : Char} {u : Nat} {cs : List Char}
    {s : Except Fault String} (hu : Decimal.digitRun 16 [a, b, c, d] 0 0 = (u, 4, []))
    (h : Quoted (addUnit sofar owed u).1 (addUnit sofar owed u).2 cs s) :
    Quoted sofar owed ('\\' :: 'u' :: a :: b :: c :: d :: cs) s

theorem digitRun_count_le (base : Nat) (cs : List Char) (acc count : Nat) :
    (Decimal.digitRun base cs acc count).2.1 ≤ count + cs.length := by
  induction cs generalizing acc count with
  | nil => exact Nat.le_refl _
  | cons c cs ih =>
    rw [Decimal.digitRun]
    split
    · refine Nat.le_trans (ih _ _) ?_
      rw [List.length_cons]
      omega
    · exact Nat.le_add_right _ _

theorem takeUnit_digits {a b c d : Char} {u : Nat} (hu : Decimal.digitRun 16 [a, b, c, d] 0 0 = (u, 4, []))
    (rest : List Char) : takeUnit (a :: b :: c :: d :: rest) = .ok (u, rest) := by
  simp only [takeUnit, List.take_succ_cons, List.take_zero, hu, List.isEmpty_nil, and_self, if_true,
    List.drop_succ_cons, List.drop_zero]

theorem digits_of_takeUnit {cs rest : List Char} {u : Nat} (h : takeUnit cs = .ok (u, rest)) :
    ∃ a b c d, cs = a :: b :: c :: d :: rest ∧ Decimal.digitRun 16 [a, b, c, d] 0 0 = (u, 4, []) := by
  have hcount := digitRun_count_le 16 (cs.take 4) 0 0
  unfold takeUnit at h
  cases hrun : Decimal.digitRun 16 (cs.take 4) 0 0 with
  | mk n run =>
    obtain ⟨count, left⟩ := run
    rw [hrun] at h hcount
    simp only at h hcount
    split at h
    · next hfull =>
      obtain ⟨rfl, hleft⟩ := hfull
      obtain rfl := List.isEmpty_iff.mp hleft
      cases h
      match cs with
      | a :: b :: c :: d :: rest => exact ⟨a, b, c, d, rfl, hrun⟩
      | [] | [_] | [_, _] | [_, _, _] => exact absurd hcount (by simp)
    · split at h <;> cases h

theorem readString_escape {c d : Char} (hc : simpleEscape? c = some d) (fuel : Nat) (cs : List Char)
    (sofar : Except Fault (List Char)) (owed : Owed) :
    readString (fuel + 1) ('\\' :: c :: cs) sofar owed = readString fuel cs (addChar sofar owed d) none := by
  have hunit : c = 'u' → False := by
    rintro rfl
    cases hc
  rw [readString]
  · rw [hc]
  · exact hunit

theorem Quoted.readString_append {sofar : Except Fault (List Char)} {owed : Owed} {cs : List Char}
    {s : Except Fault String} (h : Quoted sofar owed cs s) (rest : List Char) {fuel : Nat} (hfuel : cs.length ≤ fuel) :
    readString fuel (cs ++ rest) sofar owed = .ok (s, rest) := by
  induction h generalizing fuel with
  | close =>
    obtain ⟨fuel, rfl⟩ := Nat.exists_eq_add_one_of_ne_zero (Nat.ne_zero_of_lt hfuel)
    rfl
  | @plain sofar owed c cs s hquote hslash hcontrol _ ih =>
    obtain ⟨fuel, rfl⟩ := Nat.exists_eq_add_one_of_ne_zero (Nat.ne_zero_of_lt hfuel)
    rw [List.cons_append, readString_plain hquote hslash hcontrol]
    exact ih (Nat.le_of_succ_le_succ hfuel)
  | escape hc _ ih =>
    obtain ⟨fuel, rfl⟩ := Nat.exists_eq_add_one_of_ne_zero (Nat.ne_zero_of_lt hfuel)
    rw [List.cons_append, List.cons_append, readString_escape hc]
    exact ih (by simp only [List.length_cons] at hfuel; omega)
  | unit hu _ ih =>
    obtain ⟨fuel, rfl⟩ := Nat.exists_eq_add_one_of_ne_zero (Nat.ne_zero_of_lt hfuel)
    simp only [List.cons_append, readString, takeUnit_digits hu]
    exact ih (by simp only [List.length_cons] at hfuel; omega)

theorem quoted_of_readString {fuel : Nat} {cs rest : List Char} {sofar : Except Fault (List Char)} {owed : Owed}
    {s : Except Fault String} (h : readString fuel cs sofar owed = .ok (s, rest)) :
    ∃ front, cs = front ++ rest ∧ Quoted sofar owed front s := by
  fun_induction readString fuel cs sofar owed with
  | case1 | case2 | case4 | case6 | case8 | case9 => cases h
  | case3 =>
    cases h
    exact ⟨['"'], rfl, .close⟩
  | case5 _ _ _ _ _ _ hu _ _ hadd ih =>
    obtain ⟨front, rfl, hfront⟩ := ih h
    obtain ⟨a, b, c, d, rfl, hdigits⟩ := digits_of_takeUnit hu
    refine ⟨'\\' :: 'u' :: a :: b :: c :: d :: front, rfl, .unit hdigits ?_⟩
    rwa [hadd]
  | case7 _ _ _ c _ _ _ hc ih =>
    obtain ⟨front, rfl, hfront⟩ := ih h
    exact ⟨'\\' :: c :: front, rfl, .escape hc hfront⟩
  | case10 _ _ _ c _ hquote hlast _ hescape hcontrol ih =>
    obtain ⟨front, rfl, hfront⟩ := ih h
    refine ⟨c :: front, rfl, .plain hquote ?_ hcontrol hfront⟩
    intro hslash
    cases hnext : front ++ rest with
    | nil => exact hlast hslash hnext
    | cons d more => exact hescape d more hslash hnext

end ScriptHost.Json
