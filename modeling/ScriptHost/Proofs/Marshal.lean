import Mathlib.Data.List.Forall2
import ScriptHost.Marshal

/-! # Which values cross the border

A value crosses as exactly one argument, or it is refused for a reason that names its position. A list of values crosses
as a whole: value by value and in order, or the first value that does not cross decides. -/

namespace ScriptHost

namespace Text.Utf8

theorem decode?_eq_some_iff (b : ByteArray) (s : String) : decode? b = some s ↔ b = s.toUTF8 := by
  unfold decode? String.fromUTF8?
  constructor
  · intro h
    split at h
    · cases h
      rfl
    · cases h
  · rintro rfl
    rw [String.toUTF8_eq_toByteArray, dif_pos s.isValidUTF8]
    rfl

end Text.Utf8

namespace Marshal

open Lua (Value bytes)

/-- A guest value and the argument that it becomes. -/
inductive Carries : Value → Argument → Prop
  | nil : Carries .nil .nil
  | bool (b : Bool) : Carries (.bool b) (.bool b)
  | int (n : Int64) : Carries (.int n) (.number (doubleOfInt n))
  | float (x : Float) : Carries (.float x) (.number x)
  | text (s : String) : Carries (.str (bytes s)) (.text s)

/-- Nil, a boolean, a number or a string that is well-formed text. -/
def Crosses : Value → Prop
  | .nil | .bool _ | .int _ | .float _ => True
  | .str b => ∃ s, b = bytes s
  | _ => False

def refusal (v : Value) (position : Nat) : MarshalError :=
  match v with
  | .str _ => .invalidUtf8 position
  | v => .unsupportedType position v.kindName

theorem crosses_iff (v : Value) : Crosses v ↔ ∃ a, Carries v a := by
  constructor
  · intro h
    cases v with
    | nil => exact ⟨_, .nil⟩
    | bool b => exact ⟨_, .bool b⟩
    | int n => exact ⟨_, .int n⟩
    | float x => exact ⟨_, .float x⟩
    | str b =>
      obtain ⟨s, rfl⟩ := h
      exact ⟨_, .text s⟩
    | _ => exact h.elim
  · rintro ⟨a, h⟩
    cases h with
    | text s => exact ⟨s, rfl⟩
    | _ => trivial

theorem crosses_of_carries {vs : List Value} {as : List Argument} (h : List.Forall₂ Carries vs as) :
    ∀ v ∈ vs, Crosses v := by
  induction h with
  | nil => simp
  | cons hv _ ih => exact List.forall_mem_cons.mpr ⟨(crosses_iff _).mpr ⟨_, hv⟩, ih⟩

theorem toArgument_of_carries {v : Value} {a : Argument} (h : Carries v a) (position : Nat) :
    toArgument v position = .ok a := by
  cases h with
  | text s =>
    have hs : Text.Utf8.decode? (bytes s) = some s := (Text.Utf8.decode?_eq_some_iff _ s).mpr rfl
    simp [toArgument, hs]
  | _ => rfl

theorem toArgument_of_not_crosses {v : Value} (h : ¬ Crosses v) (position : Nat) :
    toArgument v position = .error (refusal v position) := by
  cases v with
  | str b =>
    have hb : Text.Utf8.decode? b = none :=
      Option.eq_none_iff_forall_ne_some.mpr fun s hs => h ⟨s, (Text.Utf8.decode?_eq_some_iff b s).mp hs⟩
    simp [toArgument, hb, refusal]
  | nil | bool _ | int _ | float _ => exact (h trivial).elim
  | _ => rfl

/-- All values before a position cross and the one there does not; positions count from zero. -/
def FirstRefused (vs : List Value) (i : Nat) (v : Value) : Prop :=
  vs[i]? = some v ∧ ¬ Crosses v ∧ ∀ j < i, ∀ w, vs[j]? = some w → Crosses w

theorem FirstRefused.cons {vs : List Value} {i : Nat} {v : Value} (h : FirstRefused vs i v) {u : Value}
    (hu : Crosses u) : FirstRefused (u :: vs) (i + 1) v := by
  obtain ⟨hv, hn, hbefore⟩ := h
  refine ⟨by simpa using hv, hn, ?_⟩
  intro j hj w hw
  cases j with
  | zero =>
    have huw : u = w := by simpa using hw
    exact huw ▸ hu
  | succ j => exact hbefore j (by omega) w (by simpa using hw)

/-- Values from a position on either all cross, each as the argument at its place, or the first that does not is named by
its position. -/
theorem toArgumentsFrom_cases (vs : List Value) (position : Nat) :
    (∃ as, toArgumentsFrom position vs = .ok as ∧ List.Forall₂ Carries vs as) ∨
      ∃ i v, FirstRefused vs i v ∧ toArgumentsFrom position vs = .error (refusal v (position + i)) := by
  induction vs generalizing position with
  | nil => exact Or.inl ⟨[], rfl, .nil⟩
  | cons u vs ih =>
    by_cases hu : Crosses u
    · obtain ⟨a, ha⟩ := (crosses_iff u).mp hu
      have htail : toArgumentsFrom position (u :: vs) = (toArgumentsFrom (position + 1) vs).map (a :: ·) := by
        simp only [toArgumentsFrom, toArgument_of_carries ha]
        cases toArgumentsFrom (position + 1) vs <;> rfl
      rcases ih (position + 1) with ⟨as, has, hall⟩ | ⟨i, v, hfirst, herror⟩
      · exact Or.inl ⟨a :: as, by rw [htail, has]; rfl, .cons ha hall⟩
      · refine Or.inr ⟨i + 1, v, hfirst.cons hu, ?_⟩
        rw [htail, herror, Nat.add_right_comm, Nat.add_assoc]
        rfl
    · refine Or.inr ⟨0, u, ⟨rfl, hu, by simp⟩, ?_⟩
      simp only [toArgumentsFrom, toArgument_of_not_crosses hu]
      rfl

end Marshal

end ScriptHost
