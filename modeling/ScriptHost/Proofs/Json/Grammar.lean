import Mathlib.Data.List.DropRight
import ScriptHost.Proofs.Json.Lexemes

/-! # The grammar of JSON texts

Between the tokens of a text blanks may stand, in any number. A text that spells a tree by the grammar is read as that
tree, and what follows it is left. -/

namespace ScriptHost.Json

/-- Parts of texts: a value, and what follows an opening bracket or brace. `first` says that no item or member stands in
front. -/
inductive Part where
  | value (t : Tree)
  | items (first : Bool) (ts : List Tree)
  | members (first : Bool) (ms : List (Except Fault String × Tree))

/-- What spells a part, followed by the rest of the text. -/
inductive Spells : Part → List Char → List Char → Prop
  | blank {p : Part} {c : Char} {cs rest : List Char} (hc : isBlank c = true) (h : Spells p cs rest) :
    Spells p (c :: cs) rest
  | null {rest : List Char} : Spells (.value .null) ("null".toList ++ rest) rest
  | true {rest : List Char} : Spells (.value (.bool true)) ("true".toList ++ rest) rest
  | false {rest : List Char} : Spells (.value (.bool false)) ("false".toList ++ rest) rest
  | string {cs rest : List Char} {s : Except Fault String} (h : Quoted (.ok []) none cs s) :
    Spells (.value (.string s)) ('"' :: (cs ++ rest)) rest
  | number {cs rest : List Char} {n : NumberText} (h : Numeral false cs n) :
    Spells (.value (.number n)) (cs ++ rest) rest
  | negative {cs rest : List Char} {n : NumberText} (h : Numeral true cs n) :
    Spells (.value (.number n)) ('-' :: (cs ++ rest)) rest
  | array {cs rest : List Char} {ts : List Tree} (h : Spells (.items true ts) cs rest) :
    Spells (.value (.array ts none)) ('[' :: cs) rest
  | object {cs rest : List Char} {ms : List (Except Fault String × Tree)} (h : Spells (.members true ms) cs rest) :
    Spells (.value (.object ms none)) ('\x7b' :: cs) rest
  | noItem {first : Bool} {rest : List Char} : Spells (.items first []) (']' :: rest) rest
  | firstItem {cs mid rest : List Char} {t : Tree} {ts : List Tree} (h : Spells (.value t) cs mid)
    (hs : Spells (.items false ts) mid rest) : Spells (.items true (t :: ts)) cs rest
  | nextItem {cs mid rest : List Char} {t : Tree} {ts : List Tree} (h : Spells (.value t) cs mid)
    (hs : Spells (.items false ts) mid rest) : Spells (.items false (t :: ts)) (',' :: cs) rest
  | noMember {first : Bool} {rest : List Char} : Spells (.members first []) ('\x7d' :: rest) rest
  | firstMember {key blanks cs mid rest : List Char} {k : Except Fault String} {t : Tree}
    {ms : List (Except Fault String × Tree)} (hkey : Quoted (.ok []) none key k)
    (hblanks : ∀ c ∈ blanks, isBlank c = true) (h : Spells (.value t) cs mid)
    (hs : Spells (.members false ms) mid rest) :
    Spells (.members true ((k, t) :: ms)) ('"' :: (key ++ (blanks ++ ':' :: cs))) rest
  | nextMember {blanks cs rest : List Char} {m : Except Fault String × Tree} {ms : List (Except Fault String × Tree)}
    (hblanks : ∀ c ∈ blanks, isBlank c = true) (h : Spells (.members true (m :: ms)) ('"' :: cs) rest) :
    Spells (.members false (m :: ms)) (',' :: (blanks ++ '"' :: cs)) rest

/-- A text that spells a tree, with blanks around it. -/
def Written (t : Tree) (s : String) : Prop := ∃ rest, Spells (.value t) s.toList rest ∧ ∀ c ∈ rest, isBlank c = true

theorem skipBlanks_cons {c : Char} (h : isBlank c = false) (cs : List Char) : skipBlanks (c :: cs) = c :: cs := by
  rw [skipBlanks, List.dropWhile_cons_of_neg (by rw [h]; decide)]

theorem skipBlanks_append {blanks : List Char} (h : ∀ c ∈ blanks, isBlank c = true) {c : Char}
    (hc : isBlank c = false) (cs : List Char) : skipBlanks (blanks ++ c :: cs) = c :: cs := by
  rw [skipBlanks, List.dropWhile_append_of_pos h]
  exact skipBlanks_cons hc cs

theorem skipBlanks_blank {c : Char} (hc : isBlank c = true) (cs : List Char) : skipBlanks (c :: cs) = skipBlanks cs :=
  List.dropWhile_cons_of_pos hc

theorem skipBlanks_skipBlanks (cs : List Char) : skipBlanks (skipBlanks cs) = skipBlanks cs :=
  List.dropWhile_idempotent isBlank cs

theorem exists_blanks (cs : List Char) : ∃ blanks, cs = blanks ++ skipBlanks cs ∧ ∀ c ∈ blanks, isBlank c = true :=
  ⟨cs.takeWhile isBlank, List.takeWhile_append_dropWhile.symm, List.all_eq_true.mp List.all_takeWhile⟩

theorem Spells.of_skipBlanks {p : Part} {cs rest : List Char} (h : Spells p (skipBlanks cs) rest) :
    Spells p cs rest := by
  obtain ⟨blanks, hsplit, hblanks⟩ := exists_blanks cs
  rw [hsplit]
  clear hsplit
  induction blanks with
  | nil => exact h
  | cons c blanks ih =>
    rw [List.forall_mem_cons] at hblanks
    exact .blank hblanks.1 (ih hblanks.2)

theorem readValue_skipBlanks (fuel : Nat) (cs : List Char) :
    readValue (fuel + 1) (skipBlanks cs) = readValue (fuel + 1) cs := by
  rw [readValue, readValue, skipBlanks_skipBlanks]

theorem readItems_skipBlanks (fuel : Nat) (first : Bool) (cs : List Char) :
    readItems (fuel + 1) first (skipBlanks cs) = readItems (fuel + 1) first cs := by
  rw [readItems, readItems, skipBlanks_skipBlanks]

theorem readMembers_skipBlanks (fuel : Nat) (first : Bool) (cs : List Char) :
    readMembers (fuel + 1) first (skipBlanks cs) = readMembers (fuel + 1) first cs := by
  rw [readMembers, readMembers, skipBlanks_skipBlanks]

def Starts (cs : List Char) : Prop := ∃ c tail, cs = c :: tail ∧ isBlank c = false ∧ c ≠ ',' ∧ c ≠ ']'

theorem digit_starts {c : Char} (h : (Decimal.digitValue? 10 c).isSome) : isBlank c = false ∧ c ≠ ',' ∧ c ≠ ']' := by
  have hne (d : Char) (hd : Decimal.digitValue? 10 d = none) : c ≠ d := by
    rintro rfl
    rw [hd] at h
    exact absurd h (by decide)
  refine ⟨?_, hne ',' (by decide), hne ']' (by decide)⟩
  simp only [isBlank, beq_eq_false_iff_ne.mpr (hne ' ' (by decide)), beq_eq_false_iff_ne.mpr (hne '\n' (by decide)),
    beq_eq_false_iff_ne.mpr (hne '\t' (by decide)), beq_eq_false_iff_ne.mpr (hne '\r' (by decide)), Bool.or_self]

theorem readValue_digit {c : Char} (h : (Decimal.digitValue? 10 c).isSome) (fuel : Nat) (cs : List Char) :
    readValue (fuel + 1) (c :: cs) = readNumber false (c :: cs) := by
  rw [readValue, skipBlanks_cons (digit_starts h).1]
  split
  case h_9 hcons =>
    obtain ⟨rfl, rfl⟩ := List.cons.inj hcons
    rw [if_pos h]
  case h_1 hcons => cases hcons
  all_goals
    next hcons =>
      obtain ⟨rfl, -⟩ := List.cons.inj hcons
      exact absurd h (by decide)

theorem Numeral.starts {negative : Bool} {cs : List Char} {n : NumberText} (h : Numeral negative cs n) :
    ∃ c tail, cs = c :: tail ∧ (Decimal.digitValue? 10 c).isSome := by
  obtain ⟨hwhole, hne, -, -, -⟩ := h
  cases hwhole with
  | nil => exact absurd rfl hne
  | cons hd => exact ⟨_, _, rfl, by rw [hd]; rfl⟩

theorem Spells.starts {t : Tree} {cs rest : List Char} (h : Spells (.value t) cs rest) : Starts (skipBlanks cs) := by
  generalize hp : Part.value t = p at h
  induction h with
  | blank hc _ ih =>
    rw [skipBlanks_blank hc]
    exact ih hp
  | number h =>
    obtain ⟨c, tail, rfl, hc⟩ := h.starts
    obtain ⟨hblank, hcomma, hbracket⟩ := digit_starts hc
    exact ⟨c, _, skipBlanks_cons hblank _, hblank, hcomma, hbracket⟩
  | null | true | false | string | negative | array | object =>
    exact ⟨_, _, skipBlanks_cons (by decide) _, by decide, by decide, by decide⟩
  | noItem | firstItem | nextItem | noMember | firstMember | nextMember => cases hp

theorem Spells.length_lt {p : Part} {cs rest : List Char} (h : Spells p cs rest) : rest.length < cs.length := by
  induction h with
  | number h =>
    obtain ⟨c, tail, rfl, -⟩ := h.starts
    simp only [List.length_append, List.length_cons]
    omega
  | null | true | false =>
    rw [List.length_append]
    exact Nat.lt_add_of_pos_left (by decide)
  | noItem | noMember => exact Nat.lt_succ_self _
  | firstItem _ _ hfirst hrest => exact Nat.lt_trans hrest hfirst
  | nextItem _ _ hfirst hrest => exact Nat.lt_succ_of_lt (Nat.lt_trans hrest hfirst)
  | blank _ _ ih | array _ ih | object _ ih => exact Nat.lt_succ_of_lt ih
  | string | negative =>
    simp only [List.length_cons, List.length_append]
    omega
  | firstMember _ _ _ _ hfirst hrest =>
    simp only [List.length_cons, List.length_append]
    omega
  | nextMember _ _ ih =>
    simp only [List.length_cons, List.length_append] at ih ⊢
    omega

theorem Spells.ends_items {ts : List Tree} {cs rest : List Char} (h : Spells (.items Bool.false ts) cs rest) :
    Ends cs := by
  cases h with
  | blank hc => exact .of_blank hc _
  | noItem => exact .bracket _
  | nextItem => exact .comma _

theorem Spells.ends_members {ms : List (Except Fault String × Tree)} {cs rest : List Char}
    (h : Spells (.members Bool.false ms) cs rest) : Ends cs := by
  cases h with
  | blank hc => exact .of_blank hc _
  | noMember => exact .brace _
  | nextMember => exact .comma _

/-- With enough fuel a text is read as a part. -/
def Part.ReadFrom : Part → List Char → List Char → Prop
  | value t, cs, rest => Ends rest → ∀ fuel, 2 * cs.length ≤ fuel → readValue fuel cs = (t, rest)
  | items first ts, cs, rest => ∀ fuel, 2 * cs.length < fuel → readItems fuel first cs = (ts, none, rest)
  | members first ms, cs, rest => ∀ fuel, 2 * cs.length < fuel → readMembers fuel first cs = (ms, none, rest)

/-- The first character of a text pays for the first step of its reader. -/
theorem exists_fuel {fuel : Nat} {c : Char} {cs : List Char} (hle : 2 * (c :: cs).length ≤ fuel) :
    ∃ n, fuel = n + 1 ∧ 2 * cs.length < n := by
  rw [List.length_cons] at hle
  exact ⟨fuel - 1, by omega, by omega⟩

theorem Part.ReadFrom.of_skipBlanks {p : Part} {cs rest : List Char} (h : p.ReadFrom cs rest) {c : Char}
    (hc : isBlank c = true) : p.ReadFrom (c :: cs) rest := by
  cases p with
  | value t =>
    intro hrest fuel hle
    obtain ⟨fuel, rfl, hlt⟩ := exists_fuel hle
    rw [← readValue_skipBlanks, skipBlanks_blank hc, readValue_skipBlanks]
    exact h hrest _ (Nat.le_succ_of_le (Nat.le_of_lt hlt))
  | items first ts =>
    intro fuel hlt
    obtain ⟨fuel, rfl, hle⟩ := exists_fuel (Nat.le_of_lt hlt)
    rw [← readItems_skipBlanks, skipBlanks_blank hc, readItems_skipBlanks]
    exact h _ (Nat.lt_succ_of_lt hle)
  | members first ms =>
    intro fuel hlt
    obtain ⟨fuel, rfl, hle⟩ := exists_fuel (Nat.le_of_lt hlt)
    rw [← readMembers_skipBlanks, skipBlanks_blank hc, readMembers_skipBlanks]
    exact h _ (Nat.lt_succ_of_lt hle)

theorem readItems_first {c : Char} (hblank : isBlank c = false) (hcomma : c ≠ ',') (hbracket : c ≠ ']') (fuel : Nat)
    (cs : List Char) :
    readItems (fuel + 1) true (c :: cs) =
      ((readValue fuel (c :: cs)).1 :: (readItems fuel false (readValue fuel (c :: cs)).2).1,
        (readItems fuel false (readValue fuel (c :: cs)).2).2) := by
  rw [readItems, skipBlanks_cons hblank]
  split
  case h_4 hcons =>
    obtain ⟨rfl, rfl⟩ := List.cons.inj hcons
    rfl
  case h_1 hcons => cases hcons
  case h_2 hcons => exact absurd (List.cons.inj hcons).1 hbracket
  case h_3 hcons => exact absurd (List.cons.inj hcons).1 hcomma

theorem readItems_starts {cs : List Char} (hstarts : Starts (skipBlanks cs)) (fuel : Nat) :
    readItems (fuel + 2) true cs =
      ((readValue (fuel + 1) cs).1 :: (readItems (fuel + 1) false (readValue (fuel + 1) cs).2).1,
        (readItems (fuel + 1) false (readValue (fuel + 1) cs).2).2) := by
  obtain ⟨c, tail, hcs, hblank, hcomma, hbracket⟩ := hstarts
  have hfirst := readItems_first hblank hcomma hbracket (fuel + 1) tail
  rwa [← hcs, readItems_skipBlanks, readValue_skipBlanks] at hfirst

theorem readMembers_comma (fuel : Nat) (cs : List Char) :
    readMembers (fuel + 1) false (',' :: '"' :: cs) = readMembers (fuel + 1) true ('"' :: cs) := rfl

theorem readMembers_next {blanks : List Char} (hblanks : ∀ c ∈ blanks, isBlank c = true) (fuel : Nat) (cs : List Char) :
    readMembers (fuel + 1) false (',' :: (blanks ++ '"' :: cs)) = readMembers (fuel + 1) true ('"' :: cs) := by
  have hquote : isBlank '"' = false := by decide
  rw [← readMembers_comma, readMembers, readMembers, skipBlanks_cons (by decide), skipBlanks_cons (by decide)]
  simp only [Char.reduceEq, ne_eq, not_true_eq_false, Bool.false_eq_true, false_and, and_false, false_imp_iff, if_false,
    if_true, skipBlanks_append hblanks hquote, skipBlanks_cons hquote]

theorem Spells.readFrom {p : Part} {cs rest : List Char} (h : Spells p cs rest) : p.ReadFrom cs rest := by
  -- by the rules of the grammar: the character that a rule takes pays for the step of the reader
  induction h with
  | blank hc _ ih => exact ih.of_skipBlanks hc
  | null =>
    intro _ fuel hle
    obtain ⟨fuel, rfl, -⟩ := exists_fuel hle
    exact readWord_append _ "ull".toList _
  | true =>
    intro _ fuel hle
    obtain ⟨fuel, rfl, -⟩ := exists_fuel hle
    exact readWord_append _ "rue".toList _
  | false =>
    intro _ fuel hle
    obtain ⟨fuel, rfl, -⟩ := exists_fuel hle
    exact readWord_append _ "alse".toList _
  | @string cs rest s h =>
    intro _ fuel hle
    obtain ⟨fuel, rfl, -⟩ := exists_fuel hle
    have hstring : readString ((cs ++ rest).length + 1) (cs ++ rest) (.ok []) none = .ok (s, rest) :=
      h.readString_append rest (by rw [List.length_append]; omega)
    rw [readValue, skipBlanks_cons (by decide)]
    simp only [hstring]
  | number h =>
    intro hrest fuel hle
    obtain ⟨c, tail, rfl, hc⟩ := h.starts
    obtain ⟨fuel, rfl, -⟩ := exists_fuel hle
    rw [List.cons_append, readValue_digit hc]
    exact h.readNumber_append hrest
  | negative h =>
    intro hrest fuel hle
    obtain ⟨fuel, rfl, -⟩ := exists_fuel hle
    exact h.readNumber_append hrest
  | array _ ih =>
    intro _ fuel hle
    obtain ⟨fuel, rfl, hlt⟩ := exists_fuel hle
    rw [readValue, skipBlanks_cons (by decide)]
    simp only [ih fuel hlt]
  | object _ ih =>
    intro _ fuel hle
    obtain ⟨fuel, rfl, hlt⟩ := exists_fuel hle
    rw [readValue, skipBlanks_cons (by decide)]
    simp only [ih fuel hlt]
  | noItem | noMember =>
    intro fuel hlt
    obtain ⟨fuel, rfl, -⟩ := exists_fuel (Nat.le_of_lt hlt)
    rfl
  | @firstItem cs mid rest t ts h hs ih ihs =>
    intro fuel hlt
    have hmid := h.length_lt
    obtain ⟨fuel, rfl⟩ : ∃ n, fuel = n + 2 := ⟨fuel - 2, by omega⟩
    have hitem : readValue (fuel + 1) cs = (t, mid) := ih hs.ends_items _ (by omega)
    rw [readItems_starts h.starts, hitem, ihs _ (by omega)]
  | @nextItem cs mid rest t ts h hs ih ihs =>
    intro fuel hlt
    have hmid := h.length_lt
    obtain ⟨fuel, rfl, hlt⟩ := exists_fuel (Nat.le_of_lt hlt)
    have hitem : readValue fuel cs = (t, mid) := ih hs.ends_items _ (by omega)
    rw [readItems, skipBlanks_cons (by decide)]
    simp only [Bool.false_eq_true, if_false, hitem, ihs fuel (by omega)]
  | @firstMember key blanks cs mid rest k t ms hkey hblanks h hs ih ihs =>
    intro fuel hlt
    have hmid := h.length_lt
    obtain ⟨fuel, rfl, hlt⟩ := exists_fuel (Nat.le_of_lt hlt)
    simp only [List.length_append, List.length_cons] at hlt
    have hvalue : readValue fuel cs = (t, mid) := ih hs.ends_members _ (by omega)
    have hstring : readString ((key ++ (blanks ++ ':' :: cs)).length + 1) (key ++ (blanks ++ ':' :: cs)) (.ok []) none =
        .ok (k, blanks ++ ':' :: cs) :=
      hkey.readString_append _ (by rw [List.length_append]; omega)
    rw [readMembers, skipBlanks_cons (by decide)]
    simp only [Char.reduceEq, false_and, false_imp_iff, if_false, Bool.not_true, Bool.false_eq_true, and_false,
      skipBlanks_cons (show isBlank '"' = Bool.false by decide), hstring,
      skipBlanks_append hblanks (show isBlank ':' = Bool.false by decide), hvalue, ihs fuel (by omega)]
  | @nextMember blanks cs rest m ms hblanks h ih =>
    intro fuel hlt
    simp only [List.length_append, List.length_cons] at hlt
    obtain ⟨fuel, rfl⟩ : ∃ n, fuel = n + 1 := ⟨fuel - 1, by omega⟩
    rw [readMembers_next hblanks]
    exact ih _ (by rw [List.length_cons]; omega)

end ScriptHost.Json
