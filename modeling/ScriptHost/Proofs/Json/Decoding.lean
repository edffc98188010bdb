import Mathlib.Data.List.Nodup
import ScriptHost.Proofs.Json.Compact

/-! # Decoding what was written

A record is written as the members of an object, in the order of their declaration, and any of them may be left out. A
reader that knows the names gets the fields back as they were given, provided that it accepts each of them and misses
none that it requires. -/

namespace ScriptHost.Json

section

variable {α : Type} {decode : Decoder α}

theorem check_of_ok {depth : Nat} {t : Tree} {v : α} (h : decode depth t = .ok v) : decode.check depth t = .ok () := by
  rw [Decoder.check, h]
  rfl

theorem decodeOption_some {depth : Nat} {t : Tree} {v : α} (ht : t ≠ .null) (h : decode depth t = .ok v) :
    decodeOption decode depth t = .ok (some v) := by
  unfold decodeOption
  split
  · exact absurd rfl ht
  · rw [h]
    rfl

theorem decodeItems_map {β : Type} {decode : Tree → Except Fault β} {tree : β → Tree} {items : List β}
    (h : ∀ v ∈ items, decode (tree v) = .ok v) : decodeItems decode (items.map tree) none = .ok items := by
  induction items with
  | nil => rfl
  | cons v items ih =>
    rw [List.forall_mem_cons] at h
    rw [List.map_cons, decodeItems, h.1, ih h.2]
    rfl

theorem decodeArray_tree {toJson : α → Json} {items : List α} {depth : Nat} (hdepth : 1 < depth)
    (h : ∀ v ∈ items, decode (depth - 1) (toJson v).tree = .ok v) :
    decodeArray decode depth (array (items.map toJson)).tree = .ok items := by
  rw [tree, treeItems_eq, List.map_map, decodeArray, if_neg (Nat.not_le.mpr hdepth)]
  exact decodeItems_map h

end

theorem decodeWhole_ofInt {low high n : Int} (hlow : low ≤ n) (hhigh : n ≤ high) (hmin : -(2 ^ 63) ≤ n)
    (hmax : n < 2 ^ 64) (depth : Nat) : decodeWhole low high depth (.number (.ofInt n)) = .ok n := by
  rw [decodeWhole, NumberText.value_ofInt hmin hmax]
  change (if low ≤ n ∧ n ≤ high then Except.ok n else Except.error Fault.mismatch) = _
  rw [if_pos ⟨hlow, hhigh⟩]

/-- The members that a record is written as: each field that is given, by its name. -/
def written : List String → Fields → List (Except Fault String × Tree)
  | name :: names, some t :: fields => (.ok name, t) :: written names fields
  | _ :: names, none :: fields => written names fields
  | _, _ => []

/-- Fields that pass their checks, from the field `i` on. Only those that are not required are left out. -/
inductive Accepted (required : Nat → Bool) (check : Nat → Tree → Except Fault Unit) : Nat → Fields → Prop
  | nil (i : Nat) : Accepted required check i []
  | given {i : Nat} {t : Tree} {fields : Fields} (h : check i t = .ok ())
    (rest : Accepted required check (i + 1) fields) : Accepted required check i (some t :: fields)
  | omitted {i : Nat} {fields : Fields} (h : required i = false) (rest : Accepted required check (i + 1) fields) :
    Accepted required check i (none :: fields)

theorem fieldIndex?_append {before after : List String} {name : String} (h : (before ++ name :: after).Nodup) :
    fieldIndex? (before ++ name :: after) name = some before.length := by
  have hbefore : before.findIdx? (· == name) = none := by
    rw [List.findIdx?_eq_none_iff]
    intro other hother
    have hne := (List.nodup_append.mp h).2.2 other hother name List.mem_cons_self
    exact beq_eq_false_iff_ne.mpr hne
  rw [fieldIndex?, List.findIdx?_append, hbefore, List.findIdx?_cons, beq_self_eq_true, if_pos rfl]
  simp

theorem takeMembers_known {names : List String} {check : Nat → Tree → Except Fault Unit} {key : String} {t : Tree}
    {more : List (Except Fault String × Tree)} {stop : Option Fault} {got : Fields} {i : Nat}
    (hindex : fieldIndex? names key = some i) (hnew : got[i]?.join = none) (hcheck : check i t = .ok ()) :
    takeMembers names check ((.ok key, t) :: more) stop got =
      takeMembers names check more stop (got.set i (some t)) := by
  simp only [takeMembers, bind, Except.bind, hindex, hnew, hcheck, Option.isSome_none, Bool.false_eq_true, if_false]

theorem takeMembers_written {required : Nat → Bool} {check : Nat → Tree → Except Fault Unit} {i : Nat} {fields : Fields}
    (h : Accepted required check i fields) {before names : List String} {front : Fields}
    (hnames : (before ++ names).Nodup) (hlength : fields.length = names.length) (hbefore : before.length = i)
    (hfront : front.length = i) :
    takeMembers (before ++ names) check (written names fields) none (front ++ names.map fun _ => none) =
      .ok (front ++ fields) := by
  induction h generalizing before names front with
  | nil i =>
    obtain rfl := List.length_eq_zero_iff.mp hlength.symm
    rfl
  | @given i t fields hcheck _ ih =>
    obtain ⟨name, names, rfl⟩ := List.exists_cons_of_length_eq_add_one hlength.symm
    have hindex : fieldIndex? (before ++ name :: names) name = some i := hbefore ▸ fieldIndex?_append hnames
    have hnew : (front ++ (none :: names.map fun _ => none) : Fields)[i]?.join = none := by
      rw [List.getElem?_append_right (Nat.le_of_eq hfront), hfront, Nat.sub_self]
      rfl
    have hset : (front ++ (none :: names.map fun _ => none) : Fields).set i (some t) =
        (front ++ [some t]) ++ names.map fun _ => none := by
      rw [List.set_append_right _ _ (Nat.le_of_eq hfront), hfront, Nat.sub_self, List.set_cons_zero, List.append_assoc,
        List.singleton_append]
    have hassoc : before ++ name :: names = (before ++ [name]) ++ names := by
      rw [List.append_assoc, List.singleton_append]
    rw [written, List.map_cons, takeMembers_known hindex hnew hcheck, hset, hassoc,
      ih (hassoc ▸ hnames) (Nat.succ.inj hlength) (by rw [List.length_append, hbefore, List.length_singleton])
        (by rw [List.length_append, hfront, List.length_singleton]), List.append_assoc, List.singleton_append]
  | @omitted i fields _ _ ih =>
    obtain ⟨name, names, rfl⟩ := List.exists_cons_of_length_eq_add_one hlength.symm
    have hassoc : before ++ name :: names = (before ++ [name]) ++ names := by
      rw [List.append_assoc, List.singleton_append]
    have hsplit : (front ++ (none :: names.map fun _ => none) : Fields) =
        (front ++ [none]) ++ names.map fun _ => none := by
      rw [List.append_assoc, List.singleton_append]
    rw [written, List.map_cons, hsplit, hassoc,
      ih (hassoc ▸ hnames) (Nat.succ.inj hlength) (by rw [List.length_append, hbefore, List.length_singleton])
        (by rw [List.length_append, hfront, List.length_singleton]), List.append_assoc, List.singleton_append]

theorem Accepted.complete {required : Nat → Bool} {check : Nat → Tree → Except Fault Unit} {i : Nat} {fields : Fields}
    (h : Accepted required check i fields) {j : Nat} (hj : j < fields.length) (hrequired : required (i + j) = true) :
    (fields[j]?.join).isNone = false := by
  induction h generalizing j with
  | nil => exact absurd hj (Nat.not_lt_zero j)
  | given _ _ ih =>
    cases j with
    | zero => rfl
    | succ j => exact ih (Nat.lt_of_succ_lt_succ hj) (by rwa [Nat.add_right_comm, Nat.add_assoc])
  | omitted hoptional _ ih =>
    cases j with
    | zero => exact absurd hrequired (by rw [Nat.add_zero, hoptional]; decide)
    | succ j => exact ih (Nat.lt_of_succ_lt_succ hj) (by rwa [Nat.add_right_comm, Nat.add_assoc])

/-- A record that was written gives back its fields. -/
theorem decodeFields_written {names : List String} {required : Nat → Bool}
    {check : Nat → Nat → Tree → Except Fault Unit} {depth : Nat} {fields : Fields} (hdepth : 1 < depth) (hnames : names.Nodup) (hlength : fields.length = names.length)
    (h : Accepted required (check (depth - 1)) 0 fields) :
    decodeFields names required check depth (.object (written names fields) none) = .ok fields := by
  have htaken : takeMembers ([] ++ names) (check (depth - 1)) (written names fields) none
      ([] ++ names.map fun _ => none) = .ok ([] ++ fields) :=
    takeMembers_written h hnames hlength rfl rfl
  have hcomplete : ((List.range names.length).any fun i => required i && (fields[i]?.join).isNone) = false := by
    rw [List.any_eq_false]
    intro j hj
    rw [Bool.and_eq_true, not_and, Bool.not_eq_true]
    intro hrequired
    exact h.complete (hlength ▸ List.mem_range.mp hj) (by rwa [Nat.zero_add])
  rw [List.nil_append, List.nil_append, List.nil_append] at htaken
  rw [decodeFields, if_neg (Nat.not_le.mpr hdepth)]
  simp only [htaken]
  change (if ((List.range names.length).any fun i => required i && (fields[i]?.join).isNone) = true then _ else _) = _
  rw [hcomplete]
  rfl

end ScriptHost.Json
