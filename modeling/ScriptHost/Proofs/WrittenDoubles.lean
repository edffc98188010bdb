import ScriptHost.Decimal.Layout
import ScriptHost.Proofs.Numerals
import ScriptHost.Proofs.Shortest

/-! # The number that a written form denotes

The digits of a numeral, the place of its point and its exponent make a number, however the three are laid out. So two
doubles with one written form are one double. -/

namespace ScriptHost.Decimal

/-- Digits with a point among them. -/
def pointValue (cs : List Char) : ℚ :=
  Nat.ofDigitChars 10 (cs.filter (· ≠ '.')) 0 / 10 ^ ((cs.dropWhile (· ≠ '.')).length - 1)

def exponentValue : List Char → Int
  | 'e' :: '-' :: ds => -(Nat.ofDigitChars 10 ds 0 : Int)
  | 'e' :: '+' :: ds => Nat.ofDigitChars 10 ds 0
  | _ => 0

/-- Digits with a point among them, and an exponent behind. -/
def numeralValue (cs : List Char) : ℚ :=
  pointValue (cs.takeWhile (· ≠ 'e')) * 10 ^ exponentValue (cs.dropWhile (· ≠ 'e'))

def AllDigits (ds : List Char) : Prop := ∀ d ∈ ds, d.isDigit

namespace AllDigits

theorem toDigits (n : ℕ) : AllDigits (Nat.toDigits 10 n) := (denotes_toDigits n).digits

theorem zeros (n : ℕ) : AllDigits (List.replicate n '0') := by
  intro d hd
  rw [List.eq_of_mem_replicate hd]
  rfl

theorem zero : AllDigits ['0'] := zeros 1

theorem append {ds es : List Char} (hds : AllDigits ds) (hes : AllDigits es) : AllDigits (ds ++ es) :=
  fun d hd => (List.mem_append.mp hd).elim (hds d) (hes d)

theorem ne_of_mem {ds : List Char} (h : AllDigits ds) {c : Char} (hc : c.isDigit = false) : ∀ d ∈ ds, d ≠ c := by
  rintro d hd rfl
  exact absurd (h d hd) (by rw [hc]; decide)

end AllDigits

section

variable {front back : List Char}

theorem pointValue_digits (hfront : AllDigits front) : pointValue front = Nat.ofDigitChars 10 front 0 := by
  have hpoint : ∀ d ∈ front, decide (d ≠ '.') = true := fun d hd => decide_eq_true (hfront.ne_of_mem (by decide) d hd)
  rw [pointValue, List.filter_eq_self.mpr hpoint, List.dropWhile_eq_nil_iff.mpr hpoint]
  simp

theorem pointValue_point (hfront : AllDigits front) (hback : AllDigits back) :
    pointValue (front ++ '.' :: back) = Nat.ofDigitChars 10 (front ++ back) 0 / 10 ^ back.length := by
  have hpoint : ∀ d ∈ front, decide (d ≠ '.') = true := fun d hd => decide_eq_true (hfront.ne_of_mem (by decide) d hd)
  have hpoint' : ∀ d ∈ back, decide (d ≠ '.') = true := fun d hd => decide_eq_true (hback.ne_of_mem (by decide) d hd)
  rw [pointValue, List.filter_append, List.filter_eq_self.mpr hpoint, List.filter_cons_of_neg (by simp),
    List.filter_eq_self.mpr hpoint', List.dropWhile_append_of_pos hpoint, List.dropWhile_cons_of_neg (by simp),
    List.length_cons, Nat.add_sub_cancel]

theorem numeralValue_of_notMem (hfront : 'e' ∉ front) : numeralValue front = pointValue front := by
  have hpower : ∀ c ∈ front, decide (c ≠ 'e') = true := fun c hc => decide_eq_true (ne_of_mem_of_not_mem hc hfront)
  rw [numeralValue, List.takeWhile_eq_self_iff.mpr hpower, List.dropWhile_eq_nil_iff.mpr hpower]
  simp [exponentValue]

theorem numeralValue_power (hfront : 'e' ∉ front) :
    numeralValue (front ++ 'e' :: back) = pointValue front * 10 ^ exponentValue ('e' :: back) := by
  have hpower : ∀ c ∈ front, decide (c ≠ 'e') = true := fun c hc => decide_eq_true (ne_of_mem_of_not_mem hc hfront)
  rw [numeralValue, List.takeWhile_append_of_pos hpower, List.takeWhile_cons_of_neg (by simp), List.append_nil,
    List.dropWhile_append_of_pos hpower, List.dropWhile_cons_of_neg (by simp)]

end

theorem ofDigitChars_padded (width n : ℕ) : Nat.ofDigitChars 10 (padded width n) 0 = n := by
  rw [padded, Nat.ofDigitChars_append, Nat.ofDigitChars_replicate_zero, Nat.mul_zero, Nat.ofDigitChars_ten_toDigits]

theorem exponentValue_exponentText (width : ℕ) (e : Int) : exponentValue ('e' :: exponentText width e) = e := by
  unfold exponentText
  split
  · rw [exponentValue, ofDigitChars_padded]
    omega
  · rw [exponentValue, ofDigitChars_padded]
    omega

theorem pointValue_positionalText {mark : String} (hmark : mark.toList = ['.', '0']) {ds : List Char}
    (hds : AllDigits ds) (point : Int) :
    pointValue (positionalText mark ds point) = Nat.ofDigitChars 10 ds 0 * 10 ^ (point - ds.length) := by
  unfold positionalText
  split
  · next hpoint =>
    have hplaces : point - ds.length = -(((-point).toNat + ds.length : ℕ) : Int) := by omega
    have htext : ['0', '.'] ++ List.replicate (-point).toNat '0' ++ ds =
        ['0'] ++ '.' :: (List.replicate (-point).toNat '0' ++ ds) := by simp
    rw [htext, pointValue_point .zero ((AllDigits.zeros _).append hds), hplaces, zpow_neg, zpow_natCast,
      List.length_append, List.length_replicate, ← List.append_assoc, Nat.ofDigitChars_append, div_eq_mul_inv]
    have hzeros : Nat.ofDigitChars 10 (['0'] ++ List.replicate (-point).toNat '0') 0 = 0 := by
      rw [← List.replicate_one, List.replicate_append_replicate, Nat.ofDigitChars_replicate_zero, Nat.mul_zero]
    rw [hzeros]
  split
  · next hpoint hlength =>
    have hplaces : point - ds.length = ((point.toNat - ds.length : ℕ) : Int) := by omega
    rw [hmark, pointValue_point (hds.append (.zeros _)) .zero, hplaces, zpow_natCast]
    rw [← List.replicate_one, Nat.ofDigitChars_append, Nat.ofDigitChars_append, Nat.ofDigitChars_replicate_zero,
      Nat.ofDigitChars_replicate_zero]
    push_cast
    simp
    ring
  · next hpoint hlength =>
    have hplaces : point - ds.length = -((ds.length - point.toNat : ℕ) : Int) := by omega
    rw [pointValue_point (fun d hd => hds d (List.mem_of_mem_take hd)) fun d hd => hds d (List.mem_of_mem_drop hd),
      List.take_append_drop, hplaces, zpow_neg, zpow_natCast, List.length_drop, div_eq_mul_inv]

theorem numeralValue_exponentialText (width : ℕ) {ds : List Char} (hds : AllDigits ds) (hne : ds ≠ []) (e : Int) :
    numeralValue (exponentialText width ds e) = Nat.ofDigitChars 10 ds 0 * 10 ^ (e + 1 - ds.length) := by
  have hpower : 'e' ∉ ds := fun h => hds.ne_of_mem (by decide) 'e' h rfl
  unfold exponentialText
  match ds with
  | [] => exact absurd rfl hne
  | [d] =>
    rw [numeralValue_power hpower, exponentValue_exponentText, pointValue_digits hds, List.length_singleton,
      Nat.cast_one, add_sub_cancel_right]
  | d :: d' :: rest =>
    have hfront : 'e' ∉ [d] ++ '.' :: d' :: rest := by simpa using hpower
    have hplaces : e + 1 - (d :: d' :: rest).length = e - (d' :: rest).length := by
      rw [List.length_cons, Nat.cast_add, Nat.cast_one]
      omega
    have hhead : AllDigits [d] := by
      intro c hc
      exact hds c (List.mem_singleton.mp hc ▸ List.mem_cons_self)
    have htail : AllDigits (d' :: rest) := by
      intro c hc
      exact hds c (List.mem_cons_of_mem _ hc)
    change numeralValue (([d] ++ '.' :: d' :: rest) ++ 'e' :: exponentText width e) = _
    rw [numeralValue_power hfront, exponentValue_exponentText, pointValue_point hhead htail, hplaces,
      zpow_sub₀ (by norm_num), zpow_natCast, List.singleton_append]
    ring

theorem notMem_positionalText {mark : String} (hmark : mark.toList = ['.', '0']) {ds : List Char}
    (hds : AllDigits ds) (point : Int) : 'e' ∉ positionalText mark ds point := by
  intro h
  rcases mem_positionalText h with h | h | h | h
  · exact absurd (hds _ h) (by decide)
  · cases h
  · cases h
  · rw [hmark] at h
    exact absurd h (by decide)

namespace Layout

variable {l : Layout} (hmark : l.wholeMark.toList = ['.', '0'])

include hmark

/-- Either form of a number denotes it. -/
theorem numeralValue_magnitude (s : Scaled) : numeralValue (l.magnitude s) = s.value := by
  have hds := AllDigits.toDigits s.digits
  have hvalue : Nat.ofDigitChars 10 (Nat.toDigits 10 s.digits) 0 = s.digits := Nat.ofDigitChars_ten_toDigits
  have hplaces : s.exponent + (Nat.toDigits 10 s.digits).length - 1 + 1 - (Nat.toDigits 10 s.digits).length =
      s.exponent := by omega
  unfold magnitude
  simp only
  split
  · rw [numeralValue_of_notMem (notMem_positionalText hmark hds _), pointValue_positionalText hmark hds, hvalue,
      hplaces, Scaled.value]
  · rw [numeralValue_exponentialText _ hds Nat.toDigits_ne_nil, hvalue, hplaces, Scaled.value]

theorem numeralValue_zero : numeralValue l.zero = 0 := by
  rw [zero, hmark]
  simp [numeralValue, pointValue, Nat.ofDigitChars]

omit hmark

theorem head_magnitude (s : Scaled) : ∃ c cs, l.magnitude s = c :: cs ∧ c.isDigit := by
  have hds := AllDigits.toDigits s.digits
  obtain ⟨d, ds, hdigits⟩ := List.exists_cons_of_ne_nil (Nat.toDigits_ne_nil (n := s.digits) (b := 10))
  have hd : d.isDigit := hds d (hdigits ▸ List.mem_cons_self)
  unfold magnitude
  simp only [hdigits]
  split
  · unfold positionalText
    split
    · exact ⟨'0', _, rfl, rfl⟩
    split
    · exact ⟨d, _, rfl, hd⟩
    · next hpoint _ =>
      obtain ⟨k, hk⟩ := Nat.exists_eq_add_one_of_ne_zero (show (s.exponent + (d :: ds).length - 1 + 1).toNat ≠ 0 by omega)
      rw [hk]
      exact ⟨d, _, rfl, hd⟩
  · unfold exponentialText
    split
    · contradiction
    · next hcons =>
      cases hcons
      exact ⟨d, _, rfl, hd⟩
    · next hcons =>
      cases hcons
      exact ⟨d, _, rfl, hd⟩

def body (l : Layout) (d : Dyadic) : List Char :=
  if d.mantissa = 0 then l.zero else l.magnitude (shortest d.mantissa d.exponent)

theorem head_body (d : Dyadic) : ∃ c cs, l.body d = c :: cs ∧ c.isDigit := by
  unfold body
  split
  · exact ⟨'0', _, rfl, rfl⟩
  · exact head_magnitude _

theorem sign_inj {a b : Bool} {cs ds : List Char} (hcs : ∃ c rest, cs = c :: rest ∧ c.isDigit)
    (hds : ∃ c rest, ds = c :: rest ∧ c.isDigit)
    (h : (if a then ['-'] else []) ++ cs = (if b then ['-'] else []) ++ ds) : a = b ∧ cs = ds := by
  obtain ⟨c, rest, rfl, hc⟩ := hcs
  obtain ⟨d, rest', rfl, hd⟩ := hds
  cases a <;> cases b
  · exact ⟨rfl, h⟩
  · obtain ⟨rfl, -⟩ := List.cons.inj h
    exact absurd hc (by decide)
  · obtain ⟨rfl, -⟩ := List.cons.inj h
    exact absurd hd (by decide)
  · exact ⟨rfl, (List.cons.inj h).2⟩

include hmark

/-- What is written of a double is a number that is nearer to it than to any other. -/
theorem covers_body {x : Float} {d : Dyadic} (hx : read x = .finite d) : d.Covers (numeralValue (l.body d)) := by
  unfold body
  split
  · next hzero =>
    rw [numeralValue_zero hmark, Dyadic.Covers, hzero, if_pos (Nat.zero_mod 2)]
    constructor
    · simp only [Nat.cast_zero, mul_zero, zero_sub, neg_mul, Left.neg_nonpos_iff]
      positivity
    · simp only [Nat.cast_zero, mul_zero, zero_add]
      positivity
  · next hzero =>
    rw [numeralValue_magnitude hmark]
    exact Dyadic.shortest_covered (canonical_of_read hx) (exponent_lt_of_read hx) (Nat.pos_of_ne_zero hzero)

theorem shortestText_inj {x y : Float} {d e : Dyadic} (hx : read x = .finite d) (hy : read y = .finite e)
    (h : l.shortestText d = l.shortestText e) : d = e := by
  obtain ⟨hsign, hbody⟩ := sign_inj (head_body d) (head_body e) (String.ofList_injective h)
  have hcovers := covers_body hmark hx
  rw [hbody] at hcovers
  obtain ⟨hmantissa, hexponent⟩ := hcovers.unique (covers_body hmark hy) (canonical_of_read hx) (canonical_of_read hy)
  cases d
  cases e
  simp_all

end Layout

end ScriptHost.Decimal
