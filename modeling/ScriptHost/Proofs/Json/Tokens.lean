import ScriptHost.Json.Decode
import ScriptHost.Json.Value

/-! # Reading back words and strings

A word or a string ends by itself, so what is written of one is read back from the front of a text, and the reader
leaves what follows it alone. -/

namespace ScriptHost.Json

theorem readWord_append (t : Tree) (word rest : List Char) : readWord t word (word ++ rest) = (t, rest) := by
  induction word with
  | nil => rfl
  | cons w ws ih => rw [List.cons_append, readWord, if_pos rfl, ih]

/-- The four digits of an escaped control spell its code. -/
theorem digitRun_control : ∀ n < 0x20, Decimal.digitRun 16 ['0', '0', hexDigit (n / 16), hexDigit (n % 16)] 0 0 =
    (n, 4, []) := by
  decide

theorem takeUnit_control {n : Nat} (hn : n < 0x20) (rest : List Char) :
    takeUnit ('0' :: '0' :: hexDigit (n / 16) :: hexDigit (n % 16) :: rest) = .ok (n, rest) := by
  simp only [takeUnit, List.take_succ_cons, List.take_zero, digitRun_control n hn, List.drop_succ_cons, List.drop_zero,
    List.isEmpty_nil, and_self, if_true]

theorem readString_plain {c : Char} (hquote : c ≠ '"') (hslash : c ≠ '\\') (hcontrol : ¬ c.toNat < 0x20) (fuel : Nat)
    (cs : List Char) (sofar : Except Fault (List Char)) (owed : Owed) :
    readString (fuel + 1) (c :: cs) sofar owed = readString fuel cs (addChar sofar owed c) none := by
  rw [readString.eq_def]
  split
  case h_1 h => cases h
  case h_2 h =>
    cases h
    split
    case h_6 hcons =>
      obtain ⟨rfl, rfl⟩ := List.cons.inj hcons
      rw [if_neg hcontrol]
    case h_1 hcons => cases hcons
    case h_2 hcons => exact absurd (List.cons.inj hcons).1 hquote
    case h_3 hcons | h_4 hcons | h_5 hcons => exact absurd (List.cons.inj hcons).1 hslash

/-- An escaped character is read in one step, whatever its escape. -/
theorem readString_escapeChar (c : Char) (fuel : Nat) (cs sofar : List Char) :
    readString (fuel + 1) (escapeChar c ++ cs) (.ok sofar) none = readString fuel cs (.ok (c :: sofar)) none := by
  unfold escapeChar
  split
  case h_8 hquote hslash _ _ _ _ _ =>
    split
    · next hcontrol =>
      have hunit : addUnit (.ok sofar) none c.toNat = (.ok (c :: sofar), none) := by
        have hlow : decide (0xdc00 ≤ c.toNat) = false := decide_eq_false (by omega)
        have hhigh : decide (0xd800 ≤ c.toNat) = false := decide_eq_false (by omega)
        simp [addUnit, hlow, hhigh, Char.ofNat_toNat]
      simp only [List.cons_append, List.nil_append, readString, takeUnit_control hcontrol, hunit]
    · next hcontrol => exact readString_plain hquote hslash hcontrol fuel cs (.ok sofar) none
  all_goals rfl

theorem readString_escaped (text rest sofar : List Char) {fuel : Nat} (hfuel : text.length < fuel) :
    readString fuel (text.flatMap escapeChar ++ '"' :: rest) (.ok sofar) none =
      .ok (.ok (String.ofList (sofar.reverse ++ text)), rest) := by
  induction text generalizing fuel sofar with
  | nil =>
    obtain ⟨fuel, rfl⟩ := Nat.exists_eq_add_one_of_ne_zero (Nat.ne_zero_of_lt hfuel)
    rw [List.append_nil]
    rfl
  | cons c text ih =>
    obtain ⟨fuel, rfl⟩ := Nat.exists_eq_add_one_of_ne_zero (Nat.ne_zero_of_lt hfuel)
    rw [List.flatMap_cons, List.append_assoc, readString_escapeChar, ih _ (Nat.lt_of_succ_lt_succ hfuel),
      List.reverse_cons, List.append_assoc, List.singleton_append]

theorem escapeChar_ne_nil (c : Char) : escapeChar c ≠ [] := by
  unfold escapeChar
  split
  case h_8 => split <;> exact List.cons_ne_nil _ _
  all_goals exact List.cons_ne_nil _ _

theorem length_le_escaped (text : List Char) : text.length ≤ (text.flatMap escapeChar).length := by
  induction text with
  | nil => exact Nat.le_refl 0
  | cons c text ih =>
    have hpos := List.length_pos_iff.mpr (escapeChar_ne_nil c)
    rw [List.flatMap_cons, List.length_append, List.length_cons]
    omega

def quotedTail (s : String) : List Char := s.toList.flatMap escapeChar ++ ['"']

theorem toList_stringText (s : String) : (stringText s).toList = '"' :: quotedTail s := by
  rw [stringText, String.toList_ofList, quotedTail, List.cons_append]

/-- The fuel that a string is read with behind its opening quote is enough. -/
theorem readString_quotedTail (s : String) (rest : List Char) :
    readString ((quotedTail s ++ rest).length + 1) (quotedTail s ++ rest) (.ok []) none = .ok (.ok s, rest) := by
  have hlength := length_le_escaped s.toList
  have hsplit : quotedTail s ++ rest = s.toList.flatMap escapeChar ++ '"' :: rest := by
    rw [quotedTail, List.append_assoc, List.singleton_append]
  have hfuel : s.toList.length < (quotedTail s ++ rest).length + 1 := by
    rw [hsplit, List.length_append]
    omega
  rw [hsplit] at hfuel ⊢
  rw [readString_escaped _ _ _ hfuel, List.reverse_nil, List.nil_append, String.ofList_toList]

end ScriptHost.Json
