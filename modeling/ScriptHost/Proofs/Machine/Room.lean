import ScriptHost.Lua.Machine.Step

/-! # Room for calls

A call needs room: a level of the machine's own for what is called deeper, slots of the stack for the function that is
entered, and memory if the stack has to grow for them. What happens without it is an error of the machine itself. -/

namespace ScriptHost.Lua

/-- Whether a call one level deeper is not refused. -/
def HasCallRoom (depth : Nat) : Prop := depth + 1 < handlerLimit ∧ depth + 1 ≠ callLimit

instance (depth : Nat) : Decidable (HasCallRoom depth) := inferInstanceAs (Decidable (_ ∧ _))

/-- Whether so many slots can be added to the stack. Beyond the limit there are only those for handling the error. -/
def HasSlots (weight more : Nat) : Prop :=
  (weight ≤ stackLimit → weight + more ≤ stackLimit) ∧ weight + more ≤ stackLimit + handlerStack

instance (weight more : Nat) : Decidable (HasSlots weight more) := inferInstanceAs (Decidable (_ ∧ _))

/-- The errors of a machine that has no room, whether for calls, on the stack or for memory. -/
inductive Raised.IsExhaustion : Raised → Prop where
  | calls (place : Bytes) : IsExhaustion (.ordinary (.str (place ++ bytes "C stack overflow")))
  | stack (place : Bytes) : IsExhaustion (.ordinary (.str (place ++ bytes "stack overflow")))
  | memory : IsExhaustion .memory
  | handler : IsExhaustion .handler

section Deeper

variable (place : Unit → Bytes) (f : Value) (args : List Value) (label : Option Label) {depth : Nat}

theorem deeper_of_room (h : HasCallRoom depth) :
    Task.deeper place f args label depth = .call f args label (depth + 1) := by
  rw [Task.deeper, if_neg (Nat.not_le.mpr h.1), if_neg h.2]

theorem deeper_without_room (h : ¬ HasCallRoom depth) :
    ∃ e depth', Task.deeper place f args label depth = .raise e depth' ∧ e.IsExhaustion := by
  unfold Task.deeper
  split
  · exact ⟨_, _, rfl, .handler⟩
  · next hlimit =>
    have hfull : depth + 1 = callLimit :=
      Decidable.byContradiction fun hne => h ⟨Nat.not_le.mp hlimit, hne⟩
    rw [if_pos hfull]
    exact ⟨_, _, rfl, .calls _⟩

end Deeper

section Overflow

variable {place : Unit → Bytes} {weight more depth : Nat} {control : Control}

theorem overflow?_cases (h : overflow? place weight more depth = some control) :
    control = .task (.raise (.ordinary (.str (place () ++ bytes "stack overflow"))) depth) ∨ control = .unwind .handler := by
  unfold overflow? at h
  split at h
  · exact Or.inl (Option.some.inj h).symm
  · split at h
    · exact Or.inr (Option.some.inj h).symm
    · cases h

theorem overflow?_eq_none_iff : overflow? place weight more depth = none ↔ HasSlots weight more := by
  unfold overflow? HasSlots
  split
  · simp only [reduceCtorEq, false_iff]
    omega
  · split
    · simp only [reduceCtorEq, false_iff]
      omega
    · simp only [true_iff]
      omega

end Overflow

theorem Heap.hasRoom_mono {h : Heap} {limit : Option Nat} {size more : Nat} (hsize : size ≤ more)
    (hmore : h.hasRoom limit more) : h.hasRoom limit size := by
  unfold hasRoom at hmore ⊢
  cases limit with
  | none => rfl
  | some limit =>
    simp only [Option.all_some, decide_eq_true_eq] at hmore ⊢
    omega

namespace Machine

variable {m : Machine} {slots : Nat}

/-- Whether there can be so many more slots in use, and there is memory for the stack that has them. -/
def HasStack (m : Machine) (weight more : Nat) : Prop := HasSlots weight more ∧ m.affords (m.growth (weight + more))

instance (weight more : Nat) : Decidable (m.HasStack weight more) := inferInstanceAs (Decidable (_ ∧ _))

/-- A function that has room for its slots has room for passing nothing on. -/
theorem HasStack.nothing {weight more : Nat} (h : m.HasStack weight more) : m.HasStack (weight + more) 0 :=
  ⟨⟨fun hlimit => hlimit, h.1.2⟩, h.2⟩

theorem stack_le_grown (m : Machine) (slots : Nat) : m.stack ≤ m.grown slots := by
  unfold grown
  split <;> omega

theorem grown_mono {more : Nat} (h : slots ≤ more) : m.grown slots ≤ m.grown more := by
  unfold grown
  split <;> split <;> omega

theorem affords_mono {size more : Nat} (h : size ≤ more) (hmore : m.affords more) : m.affords size := by
  simp only [affords, Bool.or_eq_true, beq_iff_eq] at hmore ⊢
  rcases hmore with rfl | hroom
  · exact Or.inl (Nat.le_zero.mp h)
  · exact Or.inr (Heap.hasRoom_mono h hroom)

theorem affords_growth_mono {more : Nat} (h : slots ≤ more) (hmore : m.affords (m.growth more)) :
    m.affords (m.growth slots) :=
  affords_mono (Nat.mul_le_mul_left _ (Nat.sub_le_sub_right (grown_mono h) _)) hmore

theorem growth_of_le (h : slots ≤ m.stack) : m.growth slots = 0 := by simp [growth, grown, h]

theorem grow_of_le (h : slots ≤ m.stack) : m.grow slots = m := by
  have hlimit : m.limit.map (· - 0) = m.limit := by simp
  simp only [grow, if_pos h, growth_of_le h, hlimit]

theorem hasStack_of_le {weight more : Nat} (hslots : HasSlots weight more) (h : weight + more ≤ m.stack) :
    m.HasStack weight more := by
  refine ⟨hslots, ?_⟩
  rw [growth_of_le h]
  rfl

theorem stack_grow (m : Machine) (slots : Nat) : (m.grow slots).stack = m.grown slots := by
  by_cases h : slots ≤ m.stack
  · rw [grow_of_le h, grown, if_pos h]
  · have hstacks : (m.grow slots).grownStacks = m.grownStacks.insert m.running (m.grown slots) := if_neg h
    rw [stack, hstacks]
    exact Std.TreeMap.getD_insert_self

/-- Whether there is memory for the stack to have up to so many slots, and for so many bytes besides. -/
structure HasMemory (m : Machine) (slots size : Nat) : Prop where
  stack : m.stack ≤ slots
  room : m.heap.hasRoom m.limit (slotSize * (slots - m.stack) + size)

namespace HasMemory

variable {top size : Nat}

theorem affords {more : Nat} (h : m.HasMemory top size) (hmore : more ≤ slotSize * (top - m.stack) + size) :
    m.affords more :=
  affords_mono hmore (by simp [Machine.affords, h.room])

/-- A stack grows to less than twice the slots that are in use then. -/
theorem grown_le (h : m.HasMemory top size) (hslots : 2 * slots ≤ top) : m.grown slots ≤ top := by
  have hstack := h.stack
  unfold grown
  split <;> omega

theorem affords_growth (h : m.HasMemory top size) (hslots : 2 * slots ≤ top) : m.affords (m.growth slots) := by
  have hgrown := h.grown_le hslots
  have hmore : m.growth slots ≤ slotSize * (top - m.stack) := Nat.mul_le_mul_left _ (Nat.sub_le_sub_right hgrown _)
  exact h.affords (by omega)

theorem hasStack (h : m.HasMemory top size) {weight more : Nat} (hfits : weight + more ≤ stackLimit)
    (hslots : 2 * (weight + more) ≤ top) : m.HasStack weight more :=
  ⟨⟨fun _ => hfits, by omega⟩, h.affords_growth hslots⟩

theorem grow (h : m.HasMemory top size) (hslots : 2 * slots ≤ top) : (m.grow slots).HasMemory top size := by
  have hgrown := h.grown_le hslots
  have hmore := m.stack_le_grown slots
  have hroom := h.room
  have hlimit : (m.grow slots).limit = m.limit.map (· - m.growth slots) := rfl
  have hused : (m.grow slots).heap.used = m.heap.used := rfl
  constructor
  · rw [stack_grow]
    exact hgrown
  · rw [stack_grow]
    rw [Heap.hasRoom, hlimit, hused]
    rw [Heap.hasRoom] at hroom
    cases hbound : m.limit with
    | none => rfl
    | some bound =>
      simp only [hbound, Option.map_some, Option.all_some, decide_eq_true_eq] at hroom ⊢
      simp only [growth, slotSize] at hroom ⊢
      omega

end HasMemory

end Machine

end ScriptHost.Lua
