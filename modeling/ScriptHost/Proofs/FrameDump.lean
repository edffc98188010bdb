import Mathlib
import ScriptHost.Proofs.Json.Numbers
import ScriptHost.Proofs.Marshal
import ScriptHost.Proofs.Spelling

/-! # The lines of a dump

A dump has a line for every value, with its position and kind in front. A string is shown as it is, so every line feed
in it breaks its line, and what stands behind the break can look like a value that was never passed. Nothing else that
is shown of a value breaks a line. -/

namespace ScriptHost

namespace Text.Utf8

-- A line feed is seen exactly where its byte stands, also among bytes that are no text.

/-- Inside a character the number that is read will be beyond ASCII, and so is every byte that goes on with it. -/
def Progress.Beyond : Progress → Prop
  | .idle => True
  | .inside sofar due low _ => 0x80 ≤ low ∧ 0x80 ≤ (sofar * 64 + (low - 0x80)) * 64 ^ (due - 1)

theorem lead_beyond {b : UInt8} {share due low high : Nat} (h : lead b = some (share, due, low, high)) :
    (Progress.inside share due low high).Beyond := by
  unfold lead at h
  simp only at h
  split_ifs at h
  all_goals
    simp only [Option.some.injEq, Prod.mk.injEq] at h
    obtain ⟨rfl, rfl, rfl, rfl⟩ := h
    refine ⟨by omega, ?_⟩
    simp only [Nat.reduceSub, Nat.reducePow]
    omega

theorem count_char (n : Nat) : [Char.ofNat n].count '\n' = if n = 10 then 1 else 0 := by
  by_cases hn : n = 10
  · subst hn
    rfl
  · rw [if_neg hn, List.count_eq_zero, List.mem_singleton]
    intro h
    have hcode : (Char.ofNat n).toNat = 10 := congrArg Char.toNat h.symm
    unfold Char.ofNat at hcode
    split at hcode
    · exact hn hcode
    · cases hcode

theorem count_byte (b : UInt8) : [b].count 10 = if b.toNat = 10 then 1 else 0 := by
  rw [List.count_singleton]
  simp only [beq_iff_eq, ← UInt8.toNat_inj]
  rfl

theorem start_beyond (b : UInt8) : (start b).2.Beyond := by
  unfold start
  split
  · trivial
  · split
    · next h => exact lead_beyond h
    · trivial

theorem count_start (b : UInt8) : (start b).1.count '\n' = [b].count 10 := by
  rw [count_byte]
  unfold start
  split
  · exact count_char _
  · have hb : ¬ b.toNat = 10 := by omega
    rw [if_neg hb]
    split <;> rfl

theorem advance_beyond {p : Progress} (h : p.Beyond) (b : UInt8) : (advance p b).2.Beyond := by
  cases p with
  | idle => exact start_beyond b
  | inside sofar due low high =>
    obtain ⟨hlow, hnumber⟩ := h
    rw [advance]
    split
    · next hb =>
      split
      · trivial
      · next hdue =>
        -- the bytes still due multiply the number as before, and the next one has no bound but its lead bits
        obtain ⟨due, rfl⟩ : ∃ k, due = k + 2 := ⟨due - 2, by omega⟩
        refine ⟨Nat.le_refl _, Nat.le_trans hnumber ?_⟩
        calc (sofar * 64 + (low - 0x80)) * 64 ^ (due + 1)
            ≤ (sofar * 64 + (b.toNat - 0x80)) * 64 ^ (due + 1) := Nat.mul_le_mul_right _ (by omega)
          _ = ((sofar * 64 + (b.toNat - 0x80)) * 64 + (0x80 - 0x80)) * 64 ^ due := by
            simp only [Nat.sub_self, Nat.add_zero, Nat.pow_succ', Nat.mul_assoc]
    · exact start_beyond b

theorem count_advance {p : Progress} (h : p.Beyond) (b : UInt8) : (advance p b).1.count '\n' = [b].count 10 := by
  cases p with
  | idle => exact count_start b
  | inside sofar due low high =>
    obtain ⟨hlow, hnumber⟩ := h
    rw [advance]
    split
    · next hb =>
      have hbyte : ¬ b.toNat = 10 := by omega
      rw [count_byte, if_neg hbyte]
      split
      · next hdue =>
        have hpow : due - 1 = 0 := by omega
        rw [hpow, Nat.pow_zero, Nat.mul_one] at hnumber
        rw [count_char, if_neg (by omega)]
      · rfl
    · exact (List.count_cons_of_ne (by decide)).trans (count_start b)

theorem count_lenientFrom {p : Progress} (h : p.Beyond) (bs : List UInt8) :
    (lenientFrom p bs).count '\n' = bs.count 10 := by
  induction bs generalizing p with
  | nil => cases p <;> rfl
  | cons b bs ih =>
    have hstep : lenientFrom p (b :: bs) = (advance p b).1 ++ lenientFrom (advance p b).2 bs := by
      cases p <;> rfl
    rw [hstep, List.count_append, count_advance h, ih (advance_beyond h b), ← List.count_append, List.singleton_append]

theorem count_encodeChar (c : Char) : (String.utf8EncodeChar c).count 10 = [c].count '\n' := by
  by_cases hc : c = '\n'
  · subst hc
    rfl
  · rw [List.count_singleton, if_neg (by simpa using hc), List.count_eq_zero]
    intro hmem
    rcases encodeChar_cases hmem with hsame | hlarge
    · exact hc (Char.ext (UInt32.toNat_inj.mp hsame.symm))
    · exact absurd hlarge (by decide)

theorem count_spelling (cs : List Char) : (cs.flatMap String.utf8EncodeChar).count 10 = cs.count '\n' := by
  induction cs with
  | nil => rfl
  | cons c cs ih =>
    rw [List.flatMap_cons, List.count_append, count_encodeChar, ih, ← List.count_append, List.singleton_append]

theorem count_decodeLenient (b : ByteArray) : (decodeLenient b).toList.count '\n' = b.toList.count 10 := by
  unfold decodeLenient
  split
  · next s hs =>
    rw [(decode?_eq_some_iff b s).mp hs, toList_eq]
    exact (spelling_eq s ▸ count_spelling s.toList).symm
  · rw [String.toList_ofList]
    exact count_lenientFrom (p := .idle) trivial _

end Text.Utf8

namespace Marshal

open Lua (Value)

/-- The line feeds in the bytes of a string; other values have none. -/
def lineFeeds : Value → Nat
  | .str b => b.toList.count 10
  | _ => 0

theorem count_unblank {cs : List Char} (h : Json.Unblank cs) : cs.count '\n' = 0 :=
  List.count_eq_zero.mpr fun hmem => absurd (h _ hmem) (by decide)

theorem digitChar_ne_newline : ∀ d < 16, Nat.digitChar d ≠ '\n' := by decide

theorem newline_notMem_toDigits (n : Nat) : '\n' ∉ Nat.toDigits 16 n := by
  induction n using Nat.strongRecOn with
  | _ n ih =>
    intro hmem
    by_cases hn : n < 16
    · rw [Nat.toDigits_of_lt_base hn, List.mem_singleton] at hmem
      exact digitChar_ne_newline n hn hmem.symm
    · rw [Nat.toDigits_of_base_le (by decide) (Nat.le_of_not_lt hn), List.mem_append, List.mem_singleton] at hmem
      rcases hmem with hmem | hmem
      · exact ih (n / 16) (by omega) hmem
      · exact digitChar_ne_newline _ (Nat.mod_lt n (by decide)) hmem.symm

theorem count_toString_int (n : Int) : (toString n).toList.count '\n' = 0 := by
  rw [Json.toList_toString_int, List.count_append, count_unblank (Json.Unblank.toDigits _)]
  split <;> rfl

theorem count_plainText (x : Float) : (Decimal.plainText x).toList.count '\n' = 0 := by
  have hmark : ∀ c ∈ Decimal.plain.wholeMark.toList, Decimal.IsFigure c := List.forall_mem_nil _
  unfold Decimal.plainText
  split
  · decide
  · split <;> decide
  · exact count_unblank (.of_figures fun _ hc => Decimal.isFigure_of_mem_shortestText hmark hc)

theorem count_addressText (v : Value) : (addressText v).toList.count '\n' = 0 := by
  obtain ⟨n, hn⟩ : ∃ n, addressText v = "0x" ++ String.ofList (Nat.toDigits 16 n) := by
    unfold addressText
    exact ⟨_, rfl⟩
  have hdigits : (String.ofList (Nat.toDigits 16 n)).toList = Nat.toDigits 16 n := String.toList_ofList
  rw [hn, String.toList_append, List.count_append, hdigits, List.count_eq_zero.mpr (newline_notMem_toDigits n)]
  rfl

theorem count_display (v : Value) : (display v).toList.count '\n' = lineFeeds v := by
  cases v with
  | nil => decide
  | bool b => cases b <;> decide
  | int n => exact count_toString_int _
  | float x => exact count_plainText x
  | str b => exact Text.Utf8.count_decodeLenient b
  | table r => exact count_addressText (.table r)
  | builtin f => exact count_addressText (.builtin f)
  | closure r => exact count_addressText (.closure r)
  | thread r => exact count_addressText (.thread r)
  | userdata r => exact count_addressText (.userdata r)
  | lightUserdata a => exact count_addressText (.lightUserdata a)
  | error r => exact count_addressText (.error r)

def closedLines (s : String) : List (List Char) := (s.toList.splitOn '\n').dropLast

def label (position : Nat) (v : Value) : List Char :=
  Nat.toDigits 10 position ++ '\t' :: (v.kindName.toList ++ ['\t'])

def row (position : Nat) (v : Value) : List Char := label position v ++ (display v).toList

theorem count_label (position : Nat) (v : Value) : (label position v).count '\n' = 0 := by
  rw [label, List.count_append, count_unblank (Json.Unblank.toDigits position)]
  cases v <;> simp only [Value.kindName] <;> decide

theorem count_row (position : Nat) (v : Value) : (row position v).count '\n' = lineFeeds v := by
  rw [row, List.count_append, count_label, count_display, Nat.zero_add]

theorem toList_dumpFrom (position : Nat) (v : Value) (vs : List Value) :
    (dumpFrom position (v :: vs)).toList = row position v ++ '\n' :: (dumpFrom (position + 1) vs).toList := by
  have hposition : (toString position).toList = Nat.toDigits 10 position := Nat.toList_repr
  simp only [dumpFrom, row, label, String.toList_append, hposition, List.append_assoc, List.cons_append]
  rfl

theorem closedLines_of_break {s t : String} {cs : List Char} (h : s.toList = cs ++ '\n' :: t.toList) :
    closedLines s = cs.splitOn '\n' ++ closedLines t := by
  have hsplit : s.toList.splitOn '\n' = cs.splitOn '\n' ++ t.toList.splitOn '\n' := by
    rw [h]
    exact List.splitOnP_append_cons cs t.toList (by decide)
  have hne : t.toList.splitOn '\n' ≠ [] := List.splitOnP_ne_nil _ _
  rw [closedLines, hsplit, List.dropLast_append_of_ne_nil hne, closedLines]

theorem length_splitOn (cs : List Char) : (cs.splitOn '\n').length = cs.count '\n' + 1 := by
  rw [List.splitOn_eq_splitOnP]
  induction cs with
  | nil => rfl
  | cons c cs ih =>
    rw [List.splitOnP_cons_eq_if_modifyHead, List.count_cons]
    split
    · rw [List.length_cons, ih]
    · rw [List.length_modifyHead, ih, Nat.add_zero]

theorem splitOn_of_count {cs : List Char} (h : cs.count '\n' = 0) : cs.splitOn '\n' = [cs] := by
  refine List.splitOnP_eq_singleton fun c hc => beq_eq_false_iff_ne.mpr ?_
  rintro rfl
  exact List.count_eq_zero.mp h hc

theorem length_dumpFrom (position : Nat) (vs : List Value) :
    (closedLines (dumpFrom position vs)).length = vs.length + (vs.map lineFeeds).sum := by
  induction vs generalizing position with
  | nil => rfl
  | cons v vs ih =>
    rw [closedLines_of_break (toList_dumpFrom position v vs), List.length_append, length_splitOn, count_row, ih,
      List.length_cons, List.map_cons, List.sum_cons]
    omega

theorem closedLines_dumpFrom {vs : List Value} (h : ∀ v ∈ vs, lineFeeds v = 0) (position : Nat) :
    closedLines (dumpFrom position vs) = vs.mapIdx fun i v => row (position + i) v := by
  induction vs generalizing position with
  | nil => rfl
  | cons v vs ih =>
    rw [List.forall_mem_cons] at h
    rw [closedLines_of_break (toList_dumpFrom position v vs), splitOn_of_count ((count_row _ _).trans h.1), ih h.2,
      List.mapIdx_cons, List.singleton_append]
    simp only [Nat.add_zero, Nat.add_right_comm, Nat.add_assoc]

/-- Lines that show values: one for each, which begins with its position and kind. -/
structure Shows (vs : List Value) (lines : List (List Char)) : Prop where
  length : lines.length = vs.length
  label : ∀ i v, vs[i]? = some v → ∃ line, lines[i]? = some line ∧ label (i + 1) v <+: line

/-- A dump has a line for every value and one more for every line feed in a string. So it shows exactly the values that
were passed if no string among them has a line feed, and only then. -/
theorem lines_dump (vs : List Value) :
    (closedLines (dump vs)).length = vs.length + (vs.map lineFeeds).sum ∧
      (Shows vs (closedLines (dump vs)) ↔ ∀ v ∈ vs, lineFeeds v = 0) := by
  have hlength := length_dumpFrom 1 vs
  refine ⟨hlength, ?_, ?_⟩
  · intro h
    have hsum : (vs.map lineFeeds).sum = 0 := by
      have hsame := h.length
      rw [dump, hlength] at hsame
      omega
    intro v hv
    exact List.sum_eq_zero_iff_forall_eq_nat.mp hsum _ (List.mem_map_of_mem hv)
  · intro h
    rw [dump, closedLines_dumpFrom h]
    refine ⟨List.length_mapIdx, ?_⟩
    intro i v hv
    refine ⟨row (1 + i) v, by rw [List.getElem?_mapIdx, hv, Option.map_some], ?_⟩
    rw [Nat.add_comm 1 i]
    exact List.prefix_append _ _

/-- A string that spells the line of another value passes for that value. -/
theorem dump_forged :
    dump [.ofText "a\n2\tnil\tnil"] = dump [.ofText "a", .nil] ∧
      ¬ Shows [.ofText "a\n2\tnil\tnil"] (closedLines (dump [.ofText "a\n2\tnil\tnil"])) := by
  refine ⟨by decide +kernel, ?_⟩
  intro h
  exact absurd h.length (by decide +kernel)

end Marshal

end ScriptHost
