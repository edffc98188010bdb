import ScriptHost.Decimal.Layout
import ScriptHost.Decimal.Numeral

/-! # Numbers in digits

ASCII digits denote a number, with any count of zeros in front. A run of digits is taken as far as it goes, so nothing
is left of a text exactly if it is digits throughout, and what has been read then is the number that they denote. -/

namespace ScriptHost.Decimal

/-- ASCII digits and the number that they denote. -/
structure Denotes (ds : List Char) (n : Nat) : Prop where
  digits : ∀ d ∈ ds, d.isDigit
  value : Nat.ofDigitChars 10 ds 0 = n

theorem denotes_toDigits (n : Nat) : Denotes (Nat.toDigits 10 n) n :=
  ⟨fun _ hd => Nat.isDigit_of_mem_toDigits (by decide) (by decide) hd, Nat.ofDigitChars_ten_toDigits⟩

theorem Denotes.plus_notMem {ds : List Char} {n : Nat} (h : Denotes ds n) : '+' ∉ ds :=
  fun hplus => absurd (h.digits '+' hplus) (by decide)

theorem digitValue?_of_isDigit {c : Char} (h : c.isDigit) : digitValue? 10 c = some (c.toNat - 48) := by
  obtain ⟨hlow, hhigh⟩ := Char.isDigit_iff_toNat.mp h
  have hrange : 48 ≤ c.toNat ∧ c.toNat ≤ 57 := ⟨hlow, hhigh⟩
  have hvalue : c.toNat - 48 < 10 := by omega
  simp only [digitValue?, if_pos hrange, if_pos hvalue]

theorem digitValue?_of_not_isDigit {c : Char} (h : ¬ c.isDigit) : digitValue? 10 c = none := by
  have hrange : ¬ (48 ≤ c.toNat ∧ c.toNat ≤ 57) := fun hdigit => h (Char.isDigit_iff_toNat.mpr hdigit)
  simp only [digitValue?, if_neg hrange]
  -- the letters that are digits of larger bases stand for ten and more
  rw [if_neg]
  split
  · omega
  · split <;> omega

theorem digitRun_of_digits {ds : List Char} (h : ∀ d ∈ ds, d.isDigit) (acc count : Nat) :
    digitRun 10 ds acc count = (Nat.ofDigitChars 10 ds acc, count + ds.length, []) := by
  induction ds generalizing acc count with
  | nil => rfl
  | cons d ds ih =>
    rw [List.forall_mem_cons] at h
    rw [digitRun, digitValue?_of_isDigit h.1]
    simp only [ih h.2, Nat.ofDigitChars_cons, List.length_cons]
    rw [Nat.mul_comm 10 acc, Nat.add_assoc, Nat.add_comm 1]
    rfl

theorem digits_of_digitRun {cs : List Char} {acc count : Nat} (h : (digitRun 10 cs acc count).2.2 = []) :
    ∀ c ∈ cs, c.isDigit := by
  induction cs generalizing acc count with
  | nil => exact List.forall_mem_nil _
  | cons c cs ih =>
    by_cases hc : c.isDigit
    · rw [digitRun, digitValue?_of_isDigit hc] at h
      exact List.forall_mem_cons.mpr ⟨hc, ih h⟩
    · rw [digitRun, digitValue?_of_not_isDigit hc] at h
      exact absurd h (List.cons_ne_nil _ _)

theorem digitRun_eq_iff (cs : List Char) (n count : Nat) :
    digitRun 10 cs 0 0 = (n, count, []) ↔ Denotes cs n ∧ cs.length = count := by
  constructor
  · intro h
    have hdigits : ∀ c ∈ cs, c.isDigit := digits_of_digitRun (by rw [h])
    rw [digitRun_of_digits hdigits, Nat.zero_add] at h
    obtain ⟨hvalue, hcount, -⟩ := by simpa only [Prod.mk.injEq] using h
    exact ⟨⟨hdigits, hvalue⟩, hcount⟩
  · rintro ⟨⟨hdigits, rfl⟩, rfl⟩
    rw [digitRun_of_digits hdigits, Nat.zero_add]

theorem denotes_iff_of_digitRun {cs rest : List Char} {m count : Nat} (h : digitRun 10 cs 0 0 = (m, count, rest))
    (n : Nat) : Denotes cs n ↔ rest = [] ∧ m = n := by
  constructor
  · intro hdenotes
    have hread := (digitRun_eq_iff cs n cs.length).mpr ⟨hdenotes, rfl⟩
    rw [h, Prod.mk.injEq, Prod.mk.injEq] at hread
    exact ⟨hread.2.2, hread.1⟩
  · rintro ⟨rfl, rfl⟩
    exact ((digitRun_eq_iff cs m count).mp h).1

theorem mem_padded {width n : Nat} {c : Char} (h : c ∈ padded width n) : c.isDigit := by
  rcases List.mem_append.mp h with h | h
  · rw [List.eq_of_mem_replicate h]
    rfl
  · exact Nat.isDigit_of_mem_toDigits (by decide) (by decide) h

theorem mem_positionalText {mark : String} {ds : List Char} {point : Int} {c : Char}
    (h : c ∈ positionalText mark ds point) : c ∈ ds ∨ c = '0' ∨ c = '.' ∨ c ∈ mark.toList := by
  unfold positionalText at h
  split at h
  · simp only [List.cons_append, List.nil_append, List.mem_cons, List.mem_append] at h
    rcases h with h | h | h | h
    · exact .inr (.inl h)
    · exact .inr (.inr (.inl h))
    · exact .inr (.inl (List.eq_of_mem_replicate h))
    · exact .inl h
  split at h
  · rcases List.mem_append.mp h with h | h
    · rcases List.mem_append.mp h with h | h
      · exact .inl h
      · exact .inr (.inl (List.eq_of_mem_replicate h))
    · exact .inr (.inr (.inr h))
  · rcases List.mem_append.mp h with h | h
    · exact .inl (List.mem_of_mem_take h)
    · rcases List.mem_cons.mp h with h | h
      · exact .inr (.inr (.inl h))
      · exact .inl (List.mem_of_mem_drop h)

theorem mem_exponentialText {width : Nat} {ds : List Char} {e : Int} {c : Char}
    (h : c ∈ exponentialText width ds e) : c ∈ ds ∨ c = '.' ∨ c = 'e' ∨ c = '-' ∨ c = '+' ∨ c.isDigit := by
  rcases List.mem_append.mp h with h | h
  · split at h
    · exact .inl h
    · exact .inl h
    · rcases List.mem_cons.mp h with rfl | h
      · exact .inl List.mem_cons_self
      rcases List.mem_cons.mp h with h | h
      · exact .inr (.inl h)
      · exact .inl (List.mem_cons_of_mem _ h)
  · rcases List.mem_cons.mp h with h | h
    · exact .inr (.inr (.inl h))
    rcases List.mem_cons.mp h with h | h
    · split at h
      · exact .inr (.inr (.inr (.inl h)))
      · exact .inr (.inr (.inr (.inr (.inl h))))
    · exact .inr (.inr (.inr (.inr (.inr (mem_padded h)))))

/-- What numbers are written with. -/
def IsFigure (c : Char) : Prop := c.isDigit ∨ c = '.' ∨ c = 'e' ∨ c = '-' ∨ c = '+'

instance : DecidablePred IsFigure := fun c => inferInstanceAs (Decidable (c.isDigit ∨ _))

theorem IsFigure.ne {c d : Char} (hc : IsFigure c) (hd : d.isDigit = false)
    (hother : d ≠ '.' ∧ d ≠ 'e' ∧ d ≠ '-' ∧ d ≠ '+') : c ≠ d := by
  rintro rfl
  rcases hc with hc | hc
  · rw [hd] at hc
    cases hc
  · simp_all

theorem isFigure_of_mem_shortestText {l : Layout} (hmark : ∀ c ∈ l.wholeMark.toList, IsFigure c) {d : Dyadic}
    {c : Char} (h : c ∈ (l.shortestText d).toList) : IsFigure c := by
  have hdigit {n : Nat} (hc : c ∈ Nat.toDigits 10 n) : IsFigure c :=
    .inl (Nat.isDigit_of_mem_toDigits (by decide) (by decide) hc)
  rw [Layout.shortestText, String.toList_ofList] at h
  rcases List.mem_append.mp h with h | h
  · split at h
    · exact .inr (.inr (.inr (.inl (List.mem_singleton.mp h))))
    · cases h
  split at h
  · rcases List.mem_cons.mp h with rfl | h
    · exact .inl rfl
    · exact hmark c h
  simp only [Layout.magnitude] at h
  split at h
  · rcases mem_positionalText h with h | rfl | h | h
    · exact hdigit h
    · exact .inl rfl
    · exact .inr (.inl h)
    · exact hmark c h
  · rcases mem_exponentialText h with h | h | h | h | h | h
    · exact hdigit h
    · exact .inr (.inl h)
    · exact .inr (.inr (.inl h))
    · exact .inr (.inr (.inr (.inl h)))
    · exact .inr (.inr (.inr (.inr h)))
    · exact .inl h

end ScriptHost.Decimal
