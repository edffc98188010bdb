import ScriptHost.Lua.Value
import Std.Data.TreeMap.Lemmas

/-! # An order of values

Tables find their keys by an order of all values, kind by kind. Nothing shows of it but that it is an order, so that a key
is found again where it was put. -/

namespace ScriptHost.Lua

theorem transCmp_of_eq {α : Type} {cmp : α → α → Ordering} (cmp' : α → α → Ordering) [Std.TransCmp cmp']
    (h : ∀ a b, cmp a b = cmp' a b) : Std.TransCmp cmp := by
  have hcmp : cmp = cmp' := funext fun a => funext fun b => h a b
  rw [hcmp]
  infer_instance

namespace Bytes

/-- The order of byte strings from a position on; `count` bytes are left to compare. -/
def cmpFrom (a b : Bytes) : Nat → Nat → Ordering
  | 0, _ => compare a.size b.size
  | count + 1, i =>
    match compare (a.get! i) (b.get! i) with
    | .eq => cmpFrom a b count (i + 1)
    | o => o

def cmp (a b : Bytes) : Ordering := cmpFrom a b (min a.size b.size) 0

theorem cmpFrom_eq (a b : Bytes) (count i : Nat) (h : count + i = min a.size b.size) :
    cmpFrom a b count i = compare (a.data.toList.drop i) (b.data.toList.drop i) := by
  induction count generalizing i with
  | zero =>
    -- one of the two ends here, and the other is not shorter
    have hlength (s : Bytes) : (s.data.toList.drop i).length = s.size - i := by
      rw [List.length_drop, Array.length_toList, ByteArray.size]
    have ha := hlength a
    have hb := hlength b
    rw [cmpFrom]
    rcases hx : a.data.toList.drop i with - | ⟨x, xs⟩ <;> rcases hy : b.data.toList.drop i with - | ⟨y, ys⟩ <;>
      simp only [hx, hy, List.length_nil, List.length_cons] at ha hb
    · exact Nat.compare_eq_eq.mpr (by omega)
    · exact Nat.compare_eq_lt.mpr (by omega)
    · exact Nat.compare_eq_gt.mpr (by omega)
    · omega
  | succ count ih =>
    have hget (s : Bytes) (hs : i < s.size) : s.data.toList.drop i = s.get! i :: s.data.toList.drop (i + 1) := by
      have hi : i < s.data.toList.length := by rw [Array.length_toList]; exact hs
      rw [List.drop_eq_getElem_cons hi, Array.getElem_toList, ByteArray.get!]
      congr 1
      exact (getElem!_pos s.data i hs).symm
    rw [cmpFrom, hget a (by omega), hget b (by omega), List.compare_cons_cons]
    cases hc : compare (a.get! i) (b.get! i) with
    | eq => exact ih (i + 1) (by omega)
    | lt => rfl
    | gt => rfl

theorem cmp_eq (a b : Bytes) : cmp a b = compare a.data.toList b.data.toList := cmpFrom_eq a b _ 0 (Nat.add_zero _)

end Bytes

namespace Builtin

def place : Builtin → Nat
  | basic f => f.ctorIdx
  | string f => f.ctorIdx
  | table f => f.ctorIdx
  | math f => f.ctorIdx
  | utf8 f => f.ctorIdx
  | coroutine f => f.ctorIdx
  | dispatch | trap | fileText | outside _ => 0

def outsideName : Builtin → String
  | outside name => name
  | _ => ""

theorem compare_eq (a b : Builtin) :
    compare a b = (compare a.ctorIdx b.ctorIdx).then
      ((compare a.place b.place).then (compare a.outsideName b.outsideName)) := by
  cases a <;> cases b <;> try rfl
  next x y =>
    change (compare x y).then .eq = compare x y
    exact Ordering.then_eq

instance : Std.TransOrd Builtin :=
  transCmp_of_eq (compareLex (compareOn Builtin.ctorIdx) (compareLex (compareOn place) (compareOn outsideName)))
    compare_eq

end Builtin

namespace Value

def rank : Value → Nat
  | nil => 0
  | bool _ => 1
  | int _ => 2
  | float _ => 3
  | str _ => 4
  | table _ => 5
  | builtin _ => 6
  | closure _ => 7
  | thread _ => 8
  | userdata _ => 9
  | lightUserdata _ => 10
  | error _ => 11

/-- An order of values that tells different keys apart. -/
def cmp : Value → Value → Ordering
  | bool a, bool b => compare a b
  | int a, int b => compare a b
  | float a, float b => compare a.toBits b.toBits
  | str a, str b => Bytes.cmp a b
  | table a, table b => compare a b
  | builtin a, builtin b => compare a b
  | closure a, closure b => compare a b
  | thread a, thread b => compare a b
  | userdata a, userdata b => compare a b
  | lightUserdata a, lightUserdata b => compare a b
  | error a, error b => compare a b
  | a, b => compare a.rank b.rank

-- The order looks at one part after the other of what a value consists of.

def flag : Value → Bool
  | bool b => b
  | _ => false

def whole : Value → Int64
  | int n => n
  | _ => 0

def bits : Value → UInt64
  | float x => x.toBits
  | _ => 0

def letters : Value → List UInt8
  | str s => s.data.toList
  | _ => []

def reference : Value → Nat
  | table r | closure r | thread r | userdata r | lightUserdata r | error r => r
  | _ => 0

def function : Value → Builtin
  | builtin f => f
  | _ => .dispatch

def lexical : Value → Value → Ordering :=
  compareLex (compareOn rank) (compareLex (compareOn flag) (compareLex (compareOn whole) (compareLex (compareOn bits)
    (compareLex (compareOn letters) (compareLex (compareOn reference) (compareOn function))))))

theorem cmp_eq (a b : Value) : cmp a b = lexical a b := by
  cases a <;> cases b <;> try rfl
  all_goals simp [lexical, compareLex, compareOn, cmp, rank, flag, whole, bits, letters, reference, function,
    Bytes.cmp_eq]

instance : Std.TransCmp cmp := by
  have : Std.TransCmp lexical := by
    unfold lexical
    infer_instance
  exact transCmp_of_eq lexical cmp_eq

end Value

end ScriptHost.Lua
