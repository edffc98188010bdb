import Mathlib.Tactic.SplitIfs
import ScriptHost.Lua.Lexer
import ScriptHost.Proofs.Spelling

/-! # Reading names and literals

A name or a literal is read as one token wherever a byte stands behind it that can belong to none: a parenthesis, a comma
or a colon. -/

namespace ScriptHost.Lua.Lexer

open Text.Utf8 (spelling encodeChar_cases)

/-- The next token of the first line, and what is left behind it. -/
def Lexes (rest : List UInt8) (l : Lexeme) (after : List UInt8) : Prop :=
  next (rest.length + 1) ⟨rest, 1⟩ = .ok (l, ⟨after, 1⟩)

theorem lexes_end : Lexes [] ⟨.eof, bytes ""⟩ [] := rfl

theorem lexes_open (rest : List UInt8) : Lexes (0x28 :: rest) ⟨.mark "(", bytes "("⟩ rest := rfl

theorem lexes_close (rest : List UInt8) : Lexes (0x29 :: rest) ⟨.mark ")", bytes ")"⟩ rest := rfl

theorem lexes_comma (rest : List UInt8) : Lexes (0x2c :: rest) ⟨.mark ",", bytes ","⟩ rest := rfl

theorem Lexes.space {rest after : List UInt8} {l : Lexeme} (h : Lexes rest l after) : Lexes (0x20 :: rest) l after := h

theorem forall_byte {p : UInt8 → Prop} (h : ∀ n : Fin 256, p (UInt8.ofFin n)) (b : UInt8) : p b := h b.toFin

/-- A parenthesis, a comma or a colon. -/
def isBreak (b : UInt8) : Bool := b == 0x28 || b == 0x29 || b == 0x2c || b == 0x3a

/-- What may follow a name or a literal. -/
def Breaks (rest : List UInt8) : Prop := ∃ stop tail, rest = stop :: tail ∧ isBreak stop = true

theorem letter_starts : ∀ b : UInt8, isLetter b = true → isNewline b = false ∧ isSpace b = false ∧
    (b == 0x2d) = false ∧ (b == 0x5b) = false ∧ (b == 0x22) = false ∧ (b == 0x27) = false ∧ isDigit b = false ∧
    (b == 0x2e) = false := by
  apply forall_byte
  decide +kernel

theorem isWordByte_break : ∀ b : UInt8, isBreak b = true → isWordByte b = false := by
  apply forall_byte
  decide +kernel

def wordToken (text : Bytes) : Token :=
  match reservedWords.find? fun w => w.toUTF8 == text with
  | some w => .word w
  | none => .name text

def isWord : List UInt8 → Bool
  | b :: rest => isLetter b && rest.all isWordByte
  | [] => false

theorem next_letter {b : UInt8} (hb : isLetter b = true) (rest : List UInt8) (line fuel : Nat) :
    next (fuel + 1) ⟨b :: rest, line⟩ = .ok (⟨wordToken ⟨(b :: rest.takeWhile isWordByte).toArray⟩,
      ⟨(b :: rest.takeWhile isWordByte).toArray⟩⟩, ⟨rest.dropWhile isWordByte, line⟩) := by
  obtain ⟨hnewline, hspace, hdash, hbracket, hquote, happostrophe, hdigit, hdot⟩ := letter_starts b hb
  simp only [next, hnewline, hspace, hdash, hbracket, hquote, happostrophe, hdigit, hdot, hb, Bool.false_and,
    Bool.or_self, Bool.false_eq_true, if_false, if_true, wordToken]
  cases hfind : reservedWords.find? fun w => w.toUTF8 == (⟨(b :: rest.takeWhile isWordByte).toArray⟩ : Bytes) <;> rfl

theorem lexes_word {text rest : List UInt8} (htext : isWord text = true) (hrest : Breaks rest) :
    Lexes (text ++ rest) ⟨wordToken ⟨text.toArray⟩, ⟨text.toArray⟩⟩ rest := by
  obtain ⟨stop, tail, rfl, hstop⟩ := hrest
  cases text with
  | nil => cases htext
  | cons b more =>
    obtain ⟨hb, hmore⟩ := Bool.and_eq_true_iff.mp htext
    have hall : ∀ c ∈ more, isWordByte c = true := List.all_eq_true.mp hmore
    have hends : ¬ isWordByte stop = true := by simp [isWordByte_break stop hstop]
    have htake : (more ++ stop :: tail).takeWhile isWordByte = more := by
      rw [List.takeWhile_append_of_pos hall, List.takeWhile_cons_of_neg hends, List.append_nil]
    have hdrop : (more ++ stop :: tail).dropWhile isWordByte = stop :: tail := by
      rw [List.dropWhile_append_of_pos hall, List.dropWhile_cons_of_neg hends]
    rw [List.cons_append, Lexes, next_letter hb, htake, hdrop]

/-- A colon before a name does not begin a label. -/
theorem lexes_colon {b : UInt8} (hb : isLetter b = true) (rest : List UInt8) :
    Lexes (0x3a :: b :: rest) ⟨.mark ":", bytes ":"⟩ (b :: rest) := by
  have hne : b ≠ 0x3a := by
    rintro rfl
    cases hb
  simp [Lexes, next, isNewline, isSpace, isDigit, isLetter, mark?, hne]

def isIdentifier (s : String) : Bool := isWord (spelling s) && !reservedWords.contains s

theorem lexes_name {s : String} (hs : isIdentifier s = true) {rest : List UInt8} (hrest : Breaks rest) :
    Lexes (spelling s ++ rest) ⟨.name (bytes s), bytes s⟩ rest := by
  obtain ⟨hword, hfree⟩ := Bool.and_eq_true_iff.mp hs
  have hnone : reservedWords.find? (fun w => w.toUTF8 == bytes s) = none := by
    refine List.find?_eq_none.mpr fun w hw heq => ?_
    have hws : w = s := String.toByteArray_inj.mp (eq_of_beq heq)
    simp [hws ▸ hw] at hfree
  have hlexes := lexes_word hword hrest
  rw [ofSpelling, wordToken, hnone] at hlexes
  exact hlexes

theorem isIdentifier_spelling {s : String} (hs : isIdentifier s = true) :
    ∃ b rest, spelling s = b :: rest ∧ isLetter b = true := by
  obtain ⟨hword, -⟩ := Bool.and_eq_true_iff.mp hs
  cases hspelling : spelling s with
  | nil =>
    rw [hspelling] at hword
    cases hword
  | cons b rest =>
    rw [hspelling] at hword
    exact ⟨b, rest, rfl, (Bool.and_eq_true_iff.mp hword).1⟩

theorem letter_ne_zero {b : UInt8} (hb : isLetter b = true) : b ≠ 0 := by
  rintro rfl
  cases hb

theorem zero_not_mem_name {s : String} (hs : isIdentifier s = true) : 0 ∉ spelling s := by
  obtain ⟨hword, -⟩ := Bool.and_eq_true_iff.mp hs
  cases hspelling : spelling s with
  | nil => exact List.not_mem_nil
  | cons b rest =>
    rw [hspelling] at hword
    obtain ⟨hb, hrest⟩ := Bool.and_eq_true_iff.mp hword
    rintro (_ | ⟨_, hzero⟩)
    · exact letter_ne_zero hb rfl
    · exact absurd (List.all_eq_true.mp hrest 0 hzero) (by decide)

theorem numeral_break : ∀ b : UInt8, isBreak b = true → isLetter b = false ∧ hexValue? b = none ∧ (b == 0x2e) = false ∧
    (b == 0x2b) = false ∧ (b == 0x2d) = false ∧ (b == 0x78) = false ∧ (b == 0x58) = false := by
  apply forall_byte
  decide +kernel

theorem isExponent_break (isHex : Bool) : ∀ b : UInt8, isBreak b = true → isExponent isHex b = false := by
  apply forall_byte
  cases isHex <;> decide +kernel

theorem isExponent_zero (isHex : Bool) : isExponent isHex 0 = false := by
  cases isHex <;> rfl

theorem numeralBytes_break (isHex : Bool) {stop : UInt8} (hstop : isBreak stop = true) (tail acc : List UInt8)
    (fuel : Nat) : numeralBytes (isExponent isHex) fuel (stop :: tail) acc = (acc, stop :: tail) := by
  obtain ⟨-, hhex, hdot, -⟩ := numeral_break stop hstop
  cases fuel with
  | zero => rfl
  | succ fuel =>
    simp only [numeralBytes, isExponent_break isHex stop hstop, hhex, hdot, Option.isSome_none, Bool.or_self,
      Bool.false_eq_true, if_false]

/-- A numeral ends where another text begins. -/
theorem numeralBytes_append (isHex : Bool) {stop : UInt8} (hstop : isBreak stop = true) (tail : List UInt8)
    (fuel : Nat) {xs acc : List UInt8} (hfuel : xs.length < fuel) {more : Nat} (hmore : xs.length < more) :
    numeralBytes (isExponent isHex) more (xs ++ stop :: tail) acc =
      ((numeralBytes (isExponent isHex) fuel xs acc).1,
        (numeralBytes (isExponent isHex) fuel xs acc).2 ++ stop :: tail) := by
  obtain ⟨-, hhex, hdot, hplus, hminus, -⟩ := numeral_break stop hstop
  -- on the fuel and not on the bytes: an exponent takes its sign along, which is two bytes at once
  induction fuel generalizing xs acc more with
  | zero => omega
  | succ fuel ih =>
    obtain ⟨more, rfl⟩ : ∃ n, more = n + 1 := ⟨more - 1, by omega⟩
    cases xs with
    | nil => exact numeralBytes_break isHex hstop tail acc _
    | cons b xs =>
      simp only [List.length_cons] at hfuel hmore
      rw [List.cons_append]
      simp only [numeralBytes]
      split
      · cases xs with
        | nil =>
          simp only [List.nil_append, hplus, hminus, Bool.or_self, Bool.false_eq_true, if_false]
          exact numeralBytes_break isHex hstop tail _ _
        | cons sign xs =>
          simp only [List.length_cons] at hfuel hmore
          simp only [List.cons_append]
          split
          · exact ih (by omega) (by omega)
          · rw [← List.cons_append]
            exact ih (by simp; omega) (by simp; omega)
      · split
        · exact ih (by omega) (by omega)
        · rfl

theorem isHexNumeral_append (first : UInt8) (rest : List UInt8) {stop : UInt8} (hstop : isBreak stop = true)
    (tail : List UInt8) : isHexNumeral first (rest ++ stop :: tail) = isHexNumeral first rest := by
  obtain ⟨-, -, -, -, -, hx, hX⟩ := numeral_break stop hstop
  cases rest with
  | nil =>
    have hsmall : ¬ stop = 0x78 := by simpa using hx
    have hlarge : ¬ stop = 0x58 := by simpa using hX
    simp [isHexNumeral, hsmall, hlarge]
  | cons b rest => rfl

theorem numeralDigits_append (first : UInt8) (rest : List UInt8) {stop : UInt8} (hstop : isBreak stop = true)
    (tail : List UInt8) : numeralDigits first (rest ++ stop :: tail) =
      ((numeralDigits first rest).1, (numeralDigits first rest).2 ++ stop :: tail) := by
  unfold numeralDigits
  rw [isHexNumeral_append first rest hstop]
  split
  · next hhex =>
    obtain ⟨x, rest, rfl⟩ : ∃ x xs, rest = x :: xs := by
      cases rest with
      | nil => simp [isHexNumeral] at hhex
      | cons x xs => exact ⟨x, xs, rfl⟩
    refine numeralBytes_append true hstop tail _ ?_ ?_
    · rw [List.length_cons]
      omega
    · rw [List.length_append, List.length_cons]
      omega
  · refine numeralBytes_append false hstop tail _ (Nat.lt_succ_self _) ?_
    rw [List.length_append]
    omega

theorem touching_append (acc after : List UInt8) {stop : UInt8} (hstop : isBreak stop = true) (tail : List UInt8) :
    touching acc (after ++ stop :: tail) = ((touching acc after).1, (touching acc after).2 ++ stop :: tail) := by
  obtain ⟨hletter, -⟩ := numeral_break stop hstop
  cases after with
  | nil => simp [touching, hletter]
  | cons b after =>
    simp only [List.cons_append, touching]
    split <;> rfl

theorem numeralText_append (first : UInt8) (rest : List UInt8) {stop : UInt8} (hstop : isBreak stop = true)
    (tail : List UInt8) : numeralText first (rest ++ stop :: tail) =
      ((numeralText first rest).1, (numeralText first rest).2 ++ stop :: tail) := by
  simp only [numeralText, numeralDigits_append first rest hstop, touching_append _ _ hstop]

def startsNumeral (b : UInt8) (rest : List UInt8) : Bool :=
  isDigit b || (b == 0x2e && (rest.head?.map isDigit) == some true)

theorem numeral_starts : ∀ b : UInt8, (isDigit b || b == 0x2e) = true → isNewline b = false ∧ isSpace b = false ∧
    (b == 0x2d) = false ∧ (b == 0x5b) = false ∧ (b == 0x22) = false ∧ (b == 0x27) = false ∧ b ≠ 0 := by
  apply forall_byte
  decide +kernel

theorem startsNumeral_first {b : UInt8} {rest : List UInt8} (h : startsNumeral b rest = true) :
    (isDigit b || b == 0x2e) = true := by
  rcases Bool.or_eq_true_iff.mp h with hdigit | hpoint
  · rw [hdigit, Bool.true_or]
  · rw [(Bool.and_eq_true_iff.mp hpoint).1, Bool.or_true]

theorem next_numeral {b : UInt8} {rest : List UInt8} (h : startsNumeral b rest = true) (line fuel : Nat) :
    next (fuel + 1) ⟨b :: rest, line⟩ = numeral line b rest := by
  obtain ⟨hnewline, hspace, hdash, hbracket, hquote, happostrophe, -⟩ := numeral_starts b (startsNumeral_first h)
  rw [startsNumeral] at h
  simp only [next, hnewline, hspace, hdash, hbracket, hquote, happostrophe, h, Bool.false_and, Bool.or_self,
    Bool.false_eq_true, if_false, if_true]

/-- The token that a whole text spells as one numeral. -/
def numeral? : List UInt8 → Option Lexeme
  | b :: rest =>
    match numeralText b rest with
    | (acc, []) => if startsNumeral b rest then number? ⟨acc.reverse.toArray⟩ else none
    | _ => none
  | [] => none

theorem numeral?_cases {text : List UInt8} {l : Lexeme} (h : numeral? text = some l) :
    ∃ b rest acc, text = b :: rest ∧ startsNumeral b rest = true ∧ numeralText b rest = (acc, []) ∧
      number? ⟨acc.reverse.toArray⟩ = some l := by
  unfold numeral? at h
  split at h
  · next b rest =>
    split at h
    · next acc htext =>
      split at h
      · next hstarts => exact ⟨b, rest, acc, rfl, hstarts, htext, h⟩
      · cases h
    · cases h
  · cases h

theorem startsNumeral_append {b : UInt8} {rest : List UInt8} (h : startsNumeral b rest = true) (tail : List UInt8) :
    startsNumeral b (rest ++ tail) = true := by
  cases rest with
  | nil =>
    have hdigit : isDigit b = true := by simpa [startsNumeral] using h
    simp [startsNumeral, hdigit]
  | cons c rest => exact h

theorem lexes_numeral {text rest : List UInt8} {l : Lexeme} (htext : numeral? text = some l) (hrest : Breaks rest) :
    Lexes (text ++ rest) l rest := by
  obtain ⟨stop, tail, rfl, hstop⟩ := hrest
  obtain ⟨b, more, acc, rfl, hstarts, hmore, hnumber⟩ := numeral?_cases htext
  have happend : numeralText b (more ++ stop :: tail) = (acc, stop :: tail) := by
    rw [numeralText_append b more hstop, hmore, List.nil_append]
  rw [Lexes, List.cons_append, next_numeral (startsNumeral_append hstarts _), numeral, happend]
  simp only [hnumber]

/-- A minus before a numeral does not begin a comment. -/
theorem lexes_minus {text : List UInt8} {l : Lexeme} (htext : numeral? text = some l) (rest : List UInt8) :
    Lexes (0x2d :: (text ++ rest)) ⟨.mark "-", bytes "-"⟩ (text ++ rest) := by
  obtain ⟨b, more, acc, rfl, hstarts, -⟩ := numeral?_cases htext
  obtain ⟨-, -, hdash, -⟩ := numeral_starts b (startsNumeral_first hstarts)
  have hb : b ≠ 0x2d := by simpa using hdash
  simp [Lexes, next, isNewline, isSpace, isDigit, isLetter, mark?, hb]

-- A numeral has no zero byte.

theorem numeralBytes_taken (isHex : Bool) (fuel : Nat) (xs acc : List UInt8) :
    ∃ taken, xs = taken ++ (numeralBytes (isExponent isHex) fuel xs acc).2 ∧ 0 ∉ taken := by
  -- what is taken is the mark of an exponent, its sign or a digit, and the zero byte is none of these
  induction fuel generalizing xs acc with
  | zero => exact ⟨[], rfl, List.not_mem_nil⟩
  | succ fuel ih =>
    cases xs with
    | nil => exact ⟨[], rfl, List.not_mem_nil⟩
    | cons b xs =>
      have hadd {ys : List UInt8} (hb : b ≠ 0) (h : ∃ taken, xs = taken ++ ys ∧ 0 ∉ taken) :
          ∃ taken, b :: xs = taken ++ ys ∧ 0 ∉ taken := by
        obtain ⟨taken, rfl, htaken⟩ := h
        exact ⟨b :: taken, rfl, by simp [hb.symm, htaken]⟩
      simp only [numeralBytes]
      split
      · next hexponent =>
        have hb : b ≠ 0 := by
          rintro rfl
          simp [isExponent_zero] at hexponent
        cases xs with
        | nil => exact hadd hb ⟨[], rfl, List.not_mem_nil⟩
        | cons sign xs =>
          simp only
          split
          · next hsign =>
            have hsign : sign ≠ 0 := by
              rintro rfl
              cases hsign
            obtain ⟨taken, htaken, hzero⟩ := ih xs (sign :: b :: acc)
            exact hadd hb ⟨sign :: taken, congrArg (sign :: ·) htaken, by simp [hsign.symm, hzero]⟩
          · exact hadd hb (ih (sign :: xs) (b :: acc))
      · split
        · next hdigit =>
          have hb : b ≠ 0 := by
            rintro rfl
            revert hdigit
            decide
          exact hadd hb (ih xs (b :: acc))
        · exact ⟨[], rfl, List.not_mem_nil⟩

theorem numeralDigits_taken (first : UInt8) (rest : List UInt8) :
    ∃ taken, rest = taken ++ (numeralDigits first rest).2 ∧ 0 ∉ taken := by
  unfold numeralDigits
  split
  · next hhex =>
    cases rest with
    | nil => exact ⟨[], rfl, List.not_mem_nil⟩
    | cons x rest =>
      have hx : x ≠ 0 := by
        rintro rfl
        simp [isHexNumeral] at hhex
      obtain ⟨taken, htaken, hzero⟩ := numeralBytes_taken true ((x :: rest).length + 1) rest [x, first]
      exact ⟨x :: taken, congrArg (x :: ·) htaken, by simp [hx.symm, hzero]⟩
  · exact numeralBytes_taken false _ _ _

theorem zero_not_mem_of_touching {acc after : List UInt8} (h : (touching acc after).2 = []) : 0 ∉ after := by
  cases after with
  | nil => exact List.not_mem_nil
  | cons b after =>
    simp only [touching] at h
    split at h
    · next hletter =>
      simp only at h
      simp [h, (letter_ne_zero hletter).symm]
    · cases h

theorem zero_not_mem_numeral {text : List UInt8} {l : Lexeme} (h : numeral? text = some l) : 0 ∉ text := by
  obtain ⟨b, rest, acc, rfl, hstarts, htext, -⟩ := numeral?_cases h
  obtain ⟨-, -, -, -, -, -, hb⟩ := numeral_starts b (startsNumeral_first hstarts)
  obtain ⟨taken, htaken, hzero⟩ := numeralDigits_taken b rest
  have hafter : 0 ∉ (numeralDigits b rest).2 := zero_not_mem_of_touching (congrArg Prod.snd htext)
  rw [htaken]
  simp [hb.symm, hzero, hafter]

def quotedChar : Char → String
  | '"' => "\\\""
  | '\\' => "\\\\"
  | '\n' => "\\n"
  | '\r' => "\\r"
  | '\x00' => "\\000"
  | c => String.singleton c

/-- A text between quotes. Quotes, backslashes, ends of lines and zero bytes in it are escaped. -/
def quoted (s : String) : String := "\"" ++ String.join (s.toList.map quotedChar) ++ "\""

/-- What stands for itself between quotes. -/
def isPlain (b : UInt8) : Bool := b != 0x22 && b != 0x5c && !isNewline b && b != 0

theorem shortString_plain {bs : List UInt8} (hbs : bs.all isPlain = true) (fuel line : Nat) (rest acc : List UInt8) :
    shortString 0x22 (fuel + bs.length) ⟨bs ++ rest, line⟩ acc =
      shortString 0x22 fuel ⟨rest, line⟩ (bs.reverse ++ acc) := by
  induction bs generalizing acc with
  | nil => rfl
  | cons b bs ih =>
    obtain ⟨hb, hbs⟩ := Bool.and_eq_true_iff.mp hbs
    obtain ⟨⟨⟨hquote, hescape⟩, hline⟩, -⟩ : ((b ≠ 0x22 ∧ b ≠ 0x5c) ∧ isNewline b = false) ∧ b ≠ 0 := by
      simpa [isPlain] using hb
    rw [List.length_cons, ← Nat.add_assoc, List.cons_append, List.reverse_cons, List.append_assoc, ← ih hbs]
    simp [shortString, hquote, hescape, hline]

def escaped : List Char := ['"', '\\', '\n', '\r', '\x00']

theorem isPlain_of_not_escaped {b : UInt8} (h : b.toNat ∉ escaped.map (·.val.toNat)) : isPlain b = true := by
  have hne {a : UInt8} (ha : a.toNat ∈ escaped.map (·.val.toNat)) : b ≠ a := fun hba => h (hba ▸ ha)
  simp only [isPlain, isNewline, Bool.and_eq_true, bne_iff_ne, Bool.not_eq_true', Bool.or_eq_false_iff,
    beq_eq_false_iff_ne]
  exact ⟨⟨⟨hne (by decide), hne (by decide)⟩, hne (by decide), hne (by decide)⟩, hne (by decide)⟩

/-- The bytes of longer characters are none of those that are escaped. -/
theorem isPlain_encodeChar {c : Char} (h : c ∉ escaped) : (String.utf8EncodeChar c).all isPlain = true := by
  refine List.all_eq_true.mpr fun b hb => isPlain_of_not_escaped fun hescaped => ?_
  obtain ⟨d, hd, hdb⟩ := List.mem_map.mp hescaped
  have hsmall : d.val.toNat < 128 := by
    simp only [escaped, List.mem_cons, List.not_mem_nil, or_false] at hd
    rcases hd with rfl | rfl | rfl | rfl | rfl <;> decide
  rcases encodeChar_cases hb with hsame | hlarge
  · have hcd : c.val.toNat = d.val.toNat := by omega
    exact h (Char.ext (UInt32.toNat_inj.mp hcd) ▸ hd)
  · omega

theorem spelling_singleton (c : Char) : spelling (String.singleton c) = String.utf8EncodeChar c := by
  simp [Text.Utf8.spelling_eq]

theorem shortString_char (c : Char) : ∃ n ≤ (spelling (quotedChar c)).length,
    ∀ (fuel line : Nat) (rest acc : List UInt8), shortString 0x22 (fuel + n) ⟨spelling (quotedChar c) ++ rest, line⟩ acc =
      shortString 0x22 fuel ⟨rest, line⟩ ((String.utf8EncodeChar c).reverse ++ acc) := by
  unfold quotedChar
  split
  · exact ⟨1, by decide, fun _ _ _ _ => rfl⟩
  · exact ⟨1, by decide, fun _ _ _ _ => rfl⟩
  · exact ⟨1, by decide, fun _ _ _ _ => rfl⟩
  · exact ⟨1, by decide, fun _ _ _ _ => rfl⟩
  · exact ⟨1, by decide, fun _ _ _ _ => rfl⟩
  · have hc : c ∉ escaped := by simp_all [escaped]
    rw [spelling_singleton]
    exact ⟨_, Nat.le_refl _, shortString_plain (isPlain_encodeChar hc)⟩

theorem shortString_chars (cs : List Char) {fuel : Nat} (line : Nat) (rest acc : List UInt8)
    (hfuel : (cs.flatMap fun c => spelling (quotedChar c)).length < fuel) :
    shortString 0x22 fuel ⟨(cs.flatMap fun c => spelling (quotedChar c)) ++ 0x22 :: rest, line⟩ acc =
      .ok (⟨((acc.reverse ++ cs.flatMap String.utf8EncodeChar).drop 1).toArray⟩, ⟨rest, line⟩) := by
  induction cs generalizing fuel acc with
  | nil =>
    obtain ⟨fuel, rfl⟩ : ∃ n, fuel = n + 1 := ⟨fuel - 1, by simp at hfuel; omega⟩
    simp [shortString]
  | cons c cs ih =>
    obtain ⟨n, hn, hchar⟩ := shortString_char c
    rw [List.flatMap_cons, List.length_append] at hfuel
    obtain ⟨left, rfl⟩ : ∃ left, fuel = left + n := ⟨fuel - n, by omega⟩
    have hleft : (cs.flatMap fun c => spelling (quotedChar c)).length < left := by omega
    rw [List.flatMap_cons, List.append_assoc, hchar, ih _ hleft, List.reverse_append, List.reverse_reverse,
      List.append_assoc, List.flatMap_cons]

theorem spelling_quoted (s : String) :
    spelling (quoted s) = 0x22 :: (s.toList.flatMap fun c => spelling (quotedChar c)) ++ [0x22] := by
  have hjoin : spelling (String.join (s.toList.map quotedChar)) = s.toList.flatMap fun c => spelling (quotedChar c) := by
    simp [Text.Utf8.spelling_eq, List.flatMap_assoc, List.flatMap_map]
  rw [quoted, Text.Utf8.spelling_append, Text.Utf8.spelling_append, hjoin]
  rfl

theorem lexes_quoted (s : String) (rest : List UInt8) :
    ∃ shown, Lexes (spelling (quoted s) ++ rest) ⟨.string (bytes s), shown⟩ rest := by
  have hnext (xs : List UInt8) : next ((0x22 :: xs).length + 1) ⟨0x22 :: xs, 1⟩ =
      (shortString 0x22 (xs.length + 1) ⟨xs, 1⟩ [0x22]).bind fun r =>
        .ok (⟨.string r.1, ⟨#[0x22]⟩ ++ r.1 ++ ⟨#[0x22]⟩⟩, r.2) := rfl
  have hspelling : s.toList.flatMap String.utf8EncodeChar = spelling s := (Text.Utf8.spelling_eq s).symm
  rw [spelling_quoted, List.append_assoc, List.cons_append, List.singleton_append]
  generalize hbody : (s.toList.flatMap fun c => spelling (quotedChar c)) = body
  have hlength : body.length < (body ++ 0x22 :: rest).length + 1 := by
    rw [List.length_append]
    omega
  have hread := shortString_chars s.toList 1 rest [0x22] (hbody ▸ hlength)
  rw [hbody, hspelling] at hread
  unfold Lexes
  rw [hnext, hread]
  exact ⟨_, rfl⟩

theorem zero_not_mem_char (c : Char) : 0 ∉ spelling (quotedChar c) := by
  unfold quotedChar
  split
  · decide
  · decide
  · decide
  · decide
  · decide
  · have hc : c ∉ escaped := by simp_all [escaped]
    rw [spelling_singleton]
    intro hzero
    have hplain := List.all_eq_true.mp (isPlain_encodeChar hc) 0 hzero
    cases hplain

theorem zero_not_mem_quoted (s : String) : 0 ∉ spelling (quoted s) := by
  rw [spelling_quoted]
  simp [zero_not_mem_char]

end ScriptHost.Lua.Lexer
