import Mathlib.Tactic.SplitIfs
import ScriptHost.Lua.Value

/-! # How texts are spelled

The bytes of a text, as a list. -/

namespace ScriptHost

namespace Text.Utf8

def spelling (s : String) : List UInt8 := s.toUTF8.data.toList

theorem spelling_eq (s : String) : spelling s = s.toList.flatMap String.utf8EncodeChar := by
  have h : s.toUTF8 = (s.toList.flatMap String.utf8EncodeChar).toByteArray := String.utf8Encode_toList.symm
  rw [spelling, h, List.toList_data_toByteArray]

theorem spelling_append (s t : String) : spelling (s ++ t) = spelling s ++ spelling t := by
  simp only [spelling_eq, String.toList_append, List.flatMap_append]

/-- A character of one byte is spelled by its code, and no byte of a longer spelling is ASCII. -/
theorem encodeChar_cases {c : Char} {b : UInt8} (hb : b ∈ String.utf8EncodeChar c) :
    b.toNat = c.val.toNat ∨ 128 ≤ b.toNat := by
  unfold String.utf8EncodeChar at hb
  generalize c.val.toNat = v at *
  simp only at hb
  split_ifs at hb
  all_goals
    simp only [List.mem_cons, List.not_mem_nil, or_false, ← UInt8.toNat_inj, UInt8.toNat_ofNat'] at hb
    omega

theorem toList_loop (b : ByteArray) (n : Nat) (acc : List UInt8) :
    ByteArray.toList.loop b n acc = acc.reverse ++ b.data.toList.drop n := by
  fun_induction ByteArray.toList.loop b n acc with
  | case1 n acc hlt ih =>
    have hn : n < b.data.toList.length := by simpa using hlt
    have hget : b.get! n = b.data.toList[n] := getElem!_pos b.data n hlt
    rw [ih, List.drop_eq_getElem_cons hn, hget, List.reverse_cons, List.append_assoc]
    rfl
  | case2 n acc hge =>
    have hn : b.data.toList.length ≤ n := by simpa using hge
    rw [List.drop_eq_nil_of_le hn, List.append_nil]

theorem toList_eq (b : ByteArray) : b.toList = b.data.toList := by
  rw [ByteArray.toList, toList_loop, List.reverse_nil, List.nil_append, List.drop_zero]

end Text.Utf8

namespace Lua

open Text.Utf8 (spelling)

instance : LawfulBEq Bytes where
  eq_of_beq h := ByteArray.ext (eq_of_beq (α := Array UInt8) h)
  rfl {b} := beq_self_eq_true b.data

theorem toList_bytes (s : String) : (bytes s).toList = spelling s := Text.Utf8.toList_eq _

theorem ofSpelling (s : String) : (⟨(spelling s).toArray⟩ : Bytes) = bytes s := rfl

end Lua

end ScriptHost
