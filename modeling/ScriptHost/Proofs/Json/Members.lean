import ScriptHost.Proofs.Json.Decoding

/-! # The fields that members give

The members of an object are taken in turn, and each gives a field to its name. The order of the members does not
matter, because no name may be given twice. -/

namespace ScriptHost.Json

abbrev Member := Except Fault String × Tree

/-- The values that members give to a name. -/
def named (name : String) (ms : List Member) : List Tree :=
  ms.filterMap fun m => if m.1 = .ok name then some m.2 else none

def fieldsOf (names : List String) (ms : List Member) : Fields := names.map fun name => (named name ms).head?

/-- No name has two values. -/
def Once (names : List String) (ms : List Member) : Prop := ∀ name ∈ names, (named name ms).length ≤ 1

/-- The key of a member is a text, and if no field has the name, its value can be skipped. -/
def Readable (names : List String) (m : Member) : Prop := ∃ key, m.1 = .ok key ∧ (key ∉ names → m.2.skipFault = none)

section

variable {names : List String} {check : Nat → Tree → Except Fault Unit} {name : String} {t : Tree} {ms : List Member}

theorem named_nil (name : String) : named name [] = [] := rfl

theorem named_append (name : String) (ms more : List Member) :
    named name (ms ++ more) = named name ms ++ named name more :=
  List.filterMap_append

theorem named_cons_self (name : String) (t : Tree) (ms : List Member) :
    named name ((.ok name, t) :: ms) = t :: named name ms :=
  List.filterMap_cons_some (if_pos rfl)

theorem named_cons_of_ne {m : Member} (h : m.1 ≠ .ok name) (ms : List Member) : named name (m :: ms) = named name ms :=
  List.filterMap_cons_none (if_neg h)

theorem named_sublist (name : String) {more : List Member} (h : ms.Sublist more) :
    (named name ms).Sublist (named name more) :=
  h.filterMap _

theorem named_eq_nil_iff : named name ms = [] ↔ ∀ m ∈ ms, m.1 ≠ .ok name := by
  simp [named, List.filterMap_eq_nil_iff]

theorem mem_named (h : (.ok name, t) ∈ ms) : t ∈ named name ms :=
  List.mem_filterMap.mpr ⟨_, h, if_pos rfl⟩

theorem fieldIndex?_eq_none_iff : fieldIndex? names name = none ↔ name ∉ names := by
  rw [fieldIndex?, List.findIdx?_eq_none_iff]
  constructor
  · intro h hmem
    simpa using h name hmem
  · intro h other hother
    exact beq_false_of_ne (ne_of_mem_of_not_mem hother h)

theorem getElem?_of_fieldIndex? {i : Nat} (h : fieldIndex? names name = some i) : names[i]? = some name := by
  obtain ⟨hi, hname, -⟩ := List.findIdx?_eq_some_iff_getElem.mp h
  rw [List.getElem?_eq_getElem hi, eq_of_beq hname]

theorem fieldIndex?_of_getElem? (hnames : names.Nodup) {i : Nat} (h : names[i]? = some name) :
    fieldIndex? names name = some i := by
  cases hindex : fieldIndex? names name with
  | none => exact absurd (List.mem_of_getElem? h) (fieldIndex?_eq_none_iff.mp hindex)
  | some j =>
    have hsame : names[j]? = names[i]? := (getElem?_of_fieldIndex? hindex).trans h.symm
    exact congrArg some ((List.getElem?_inj (List.findIdx?_eq_some_iff_getElem.mp hindex).1 hnames).mp hsame)

theorem getElem?_fieldsOf {i : Nat} (h : names[i]? = some name) (ms : List Member) :
    (fieldsOf names ms)[i]? = some (named name ms).head? := by
  rw [fieldsOf, List.getElem?_map, h]
  rfl

theorem fieldsOf_append_known (hnames : names.Nodup) {i : Nat} (hname : names[i]? = some name)
    (hnew : named name ms = []) (t : Tree) :
    fieldsOf names (ms ++ [(.ok name, t)]) = (fieldsOf names ms).set i (some t) := by
  refine List.ext_getElem? fun j => ?_
  rw [fieldsOf, fieldsOf, List.getElem?_set, List.getElem?_map, List.getElem?_map, List.length_map]
  by_cases hij : i = j
  · subst hij
    rw [if_pos rfl, if_pos (List.getElem?_eq_some_iff.mp hname).1, hname, Option.map_some, named_append, hnew,
      named_cons_self]
    rfl
  · rw [if_neg hij]
    cases hother : names[j]? with
    | none => rfl
    | some other =>
      have hne : (.ok name : Except Fault String) ≠ .ok other := by
        intro heq
        have hsame : names[i]? = names[j]? := by rw [hname, hother, Except.ok.inj heq]
        exact hij ((List.getElem?_inj (List.getElem?_eq_some_iff.mp hname).1 hnames).mp hsame)
      rw [Option.map_some, Option.map_some, named_append, named_cons_of_ne hne]
      rw [named_nil, List.append_nil]

theorem fieldsOf_append_unknown (hname : name ∉ names) (t : Tree) :
    fieldsOf names (ms ++ [(.ok name, t)]) = fieldsOf names ms := by
  refine List.map_congr_left fun other hother => ?_
  have hne : (.ok name : Except Fault String) ≠ .ok other := by
    intro heq
    exact hname (Except.ok.inj heq ▸ hother)
  rw [named_append, named_cons_of_ne hne, named_nil, List.append_nil]

theorem Once.of_append {more : List Member} (h : Once names (ms ++ more)) : Once names ms := by
  intro name hname
  have hle := h name hname
  rw [named_append, List.length_append] at hle
  omega

theorem Once.append_known (h : Once names ms) (hnew : named name ms = []) (t : Tree) :
    Once names (ms ++ [(.ok name, t)]) := by
  intro other hother
  rw [named_append, List.length_append]
  by_cases heq : name = other
  · subst heq
    rw [hnew, named_cons_self]
    exact Nat.le_refl 1
  · rw [named_cons_of_ne (fun hkey => heq (Except.ok.inj hkey))]
    exact h other hother

theorem Once.append_unknown (h : Once names ms) (hname : name ∉ names) (t : Tree) :
    Once names (ms ++ [(.ok name, t)]) := by
  intro other hother
  have hne : (.ok name : Except Fault String) ≠ .ok other := by
    intro heq
    exact hname (Except.ok.inj heq ▸ hother)
  rw [named_append, named_cons_of_ne hne, named_nil, List.append_nil]
  exact h other hother

/-- A member as it is taken: a known field passes its check, and another can be skipped. -/
def Fits (names : List String) (check : Nat → Tree → Except Fault Unit) (m : Member) : Prop :=
  ∃ key, m.1 = .ok key ∧ (∀ i, names[i]? = some key → check i m.2 = .ok ()) ∧ (key ∉ names → m.2.skipFault = none)

section

variable {taken : List Member} {stop : Option Fault} {got : Fields}

/-- The fields so far are those of the members so far. -/
theorem takeMembers_known_iff (hnames : names.Nodup) {i : Nat} (hname : names[i]? = some name) :
    takeMembers names check ((.ok name, t) :: ms) stop (fieldsOf names taken) = .ok got ↔
      named name taken = [] ∧ check i t = .ok () ∧
        takeMembers names check ms stop (fieldsOf names (taken ++ [(.ok name, t)])) = .ok got := by
  rw [takeMembers, bind_eq_ok_iff]
  simp only [Except.ok.injEq, exists_eq_left', fieldIndex?_of_getElem? hnames hname, getElem?_fieldsOf hname,
    Option.join_some]
  cases hnew : named name taken with
  | nil =>
    rw [fieldsOf_append_known hnames hname hnew, List.head?_nil, Option.isSome_none, if_neg Bool.false_ne_true,
      bind_eq_ok_iff]
    constructor
    · rintro ⟨_, hcheck, hrest⟩
      exact ⟨rfl, hcheck, hrest⟩
    · rintro ⟨-, hcheck, hrest⟩
      exact ⟨(), hcheck, hrest⟩
  | cons u us =>
    constructor
    · intro hrepeated
      cases hrepeated
    · rintro ⟨hnone, -⟩
      cases hnone

theorem takeMembers_unknown_iff (hname : name ∉ names) :
    takeMembers names check ((.ok name, t) :: ms) stop (fieldsOf names taken) = .ok got ↔
      t.skipFault = none ∧ takeMembers names check ms stop (fieldsOf names (taken ++ [(.ok name, t)])) = .ok got := by
  rw [takeMembers, bind_eq_ok_iff]
  simp only [Except.ok.injEq, exists_eq_left', fieldIndex?_eq_none_iff.mpr hname, fieldsOf_append_unknown hname]
  cases t.skipFault with
  | none => exact ⟨fun h => ⟨rfl, h⟩, And.right⟩
  | some f =>
    constructor
    · intro hbroken
      cases hbroken
    · rintro ⟨hnone, -⟩
      cases hnone

theorem takeMembers_ok_iff (hnames : names.Nodup) (htaken : Once names taken) :
    takeMembers names check ms stop (fieldsOf names taken) = .ok got ↔
      stop = none ∧ (∀ m ∈ ms, Fits names check m) ∧ Once names (taken ++ ms) ∧ got = fieldsOf names (taken ++ ms) := by
  induction ms generalizing taken with
  | nil =>
    rw [List.append_nil]
    cases stop with
    | none => simp [takeMembers, htaken, eq_comm]
    | some f => simp [takeMembers]
  | cons m ms ih =>
    obtain ⟨_ | key, t⟩ := m
    · have hbroken : ¬ Fits names check (.error ‹_›, t) := by
        rintro ⟨_, hkey, -⟩
        cases hkey
      simp [takeMembers, bind, Except.bind, hbroken]
    rw [List.forall_mem_cons, List.append_cons]
    by_cases hkey : key ∈ names
    · obtain ⟨i, hi⟩ := List.mem_iff_getElem?.mp hkey
      have hfits : Fits names check (.ok key, t) ↔ check i t = .ok () := by
        constructor
        · rintro ⟨_, hsame, hcheck, -⟩
          cases hsame
          exact hcheck i hi
        · intro hcheck
          refine ⟨key, rfl, fun j hj => ?_, fun hunknown => absurd hkey hunknown⟩
          have hsame : names[i]? = names[j]? := hi.trans hj.symm
          rwa [← (List.getElem?_inj (List.getElem?_eq_some_iff.mp hi).1 hnames).mp hsame]
      rw [takeMembers_known_iff hnames hi, hfits]
      constructor
      · rintro ⟨hnew, hcheck, hrest⟩
        obtain ⟨hstop, hall, honce, hgot⟩ := (ih (htaken.append_known hnew t)).mp hrest
        exact ⟨hstop, ⟨hcheck, hall⟩, honce, hgot⟩
      · rintro ⟨hstop, ⟨hcheck, hall⟩, honce, hgot⟩
        have hle := honce.of_append key hkey
        rw [named_append, named_cons_self, List.length_append, List.length_cons] at hle
        have hnew : named key taken = [] := List.length_eq_zero_iff.mp (by omega)
        exact ⟨hnew, hcheck, (ih honce.of_append).mpr ⟨hstop, hall, honce, hgot⟩⟩
    · have hfits : Fits names check (.ok key, t) ↔ t.skipFault = none := by
        constructor
        · rintro ⟨_, hsame, -, hskip⟩
          cases hsame
          exact hskip hkey
        · intro hskip
          exact ⟨key, rfl, fun i hi => absurd (List.mem_of_getElem? hi) hkey, fun _ => hskip⟩
      rw [takeMembers_unknown_iff hkey, ih (htaken.append_unknown hkey t), hfits]
      tauto

end

end

end ScriptHost.Json
