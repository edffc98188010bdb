import ScriptHost.Proofs.Json.Members

/-! # The fields that a record is given

A record as an object gives a field to each known name that it has, in any order. As an array it gives the fields in
turn, and the last ones may be missing. Other members, other orders and the other form give the same fields. -/

namespace ScriptHost.Json

/-- The fields that a record without a break is given. -/
inductive HasFields (names : List String) : Tree → Fields → Prop
  | object {ms : List Member} (hreadable : ∀ m ∈ ms, Readable names m) (honce : Once names ms) :
    HasFields names (.object ms none) (fieldsOf names ms)
  | array {ts : List Tree} (hlength : ts.length ≤ names.length) :
    HasFields names (.array ts none) (ts.map some ++ List.replicate (names.length - ts.length) none)

section

variable {names : List String} {required : Nat → Bool} {check : Nat → Tree → Except Fault Unit} {got : Fields}

theorem HasFields.length_eq {t : Tree} (h : HasFields names t got) : got.length = names.length := by
  cases h with
  | object => exact List.length_map _
  | array hlength =>
    rw [List.length_append, List.length_map, List.length_replicate]
    omega

theorem accepted_cons_iff {i : Nat} {o : Option Tree} : Accepted required check i (o :: got) ↔
    (∀ t, o = some t → check i t = .ok ()) ∧ (o = none → required i = false) ∧ Accepted required check (i + 1) got := by
  constructor
  · intro h
    cases h with
    | given hcheck hrest => exact ⟨fun _ ht => Option.some.inj ht ▸ hcheck, nofun, hrest⟩
    | omitted hrequired hrest => exact ⟨nofun, fun _ => hrequired, hrest⟩
  · rintro ⟨hgiven, homitted, hrest⟩
    cases o with
    | none => exact .omitted (homitted rfl) hrest
    | some t => exact .given (hgiven t rfl) hrest

theorem accepted_iff {i : Nat} : Accepted required check i got ↔
    (∀ j t, got[j]? = some (some t) → check (i + j) t = .ok ()) ∧
      ∀ j, got[j]? = some none → required (i + j) = false := by
  induction got generalizing i with
  | nil => exact ⟨fun _ => ⟨nofun, nofun⟩, fun _ => .nil i⟩
  | cons o got ih =>
    have hshift (j : Nat) : i + 1 + j = i + (j + 1) := by omega
    simp only [accepted_cons_iff, ih, hshift]
    constructor
    · rintro ⟨hgiven, homitted, hchecks, hrequired⟩
      constructor
      · rintro (_ | j) t ht
        · exact hgiven t (Option.some.inj ht)
        · exact hchecks j t ht
      · rintro (_ | j) hj
        · exact homitted (Option.some.inj hj)
        · exact hrequired j hj
    · rintro ⟨hchecks, hrequired⟩
      exact ⟨fun t ht => hchecks 0 t (congrArg some ht), fun ho => hrequired 0 (congrArg some ho),
        fun j t ht => hchecks (j + 1) t ht, fun j hj => hrequired (j + 1) hj⟩

/-- The fields that no item is left for. -/
theorem takeItems_nil_ok_iff {left i : Nat} : takeItems required check left i [] none = .ok got ↔
    got = List.replicate left none ∧ Accepted required check i got := by
  induction left generalizing i got with
  | zero =>
    constructor
    · intro h
      cases h
      exact ⟨rfl, .nil i⟩
    · rintro ⟨rfl, -⟩
      rfl
  | succ left ih =>
    rw [takeItems, List.replicate_succ]
    split
    · next hrequired =>
      refine ⟨nofun, ?_⟩
      rintro ⟨rfl, haccepted⟩
      exact absurd ((accepted_cons_iff.mp haccepted).2.1 rfl) (by rw [hrequired]; decide)
    · next hoptional =>
      rw [map_eq_ok_iff]
      constructor
      · rintro ⟨rest, hrest, rfl⟩
        obtain ⟨rfl, haccepted⟩ := ih.mp hrest
        exact ⟨rfl, accepted_cons_iff.mpr ⟨nofun, fun _ => Bool.eq_false_iff.mpr hoptional, haccepted⟩⟩
      · rintro ⟨rfl, haccepted⟩
        exact ⟨_, ih.mpr ⟨rfl, (accepted_cons_iff.mp haccepted).2.2⟩, rfl⟩

theorem takeItems_ok_iff {ts : List Tree} {stop : Option Fault} {left i : Nat} :
    takeItems required check left i ts stop = .ok got ↔
      stop = none ∧ ts.length ≤ left ∧ got = ts.map some ++ List.replicate (left - ts.length) none ∧
        Accepted required check i got := by
  induction ts generalizing left i got with
  | nil =>
    cases stop with
    | none =>
      rw [takeItems_nil_ok_iff]
      simp
    | some f => cases left <;> exact ⟨nofun, fun h => nomatch h.1⟩
  | cons t ts ih =>
    cases left with
    | zero => exact ⟨nofun, fun h => absurd h.2.1 (Nat.not_succ_le_zero _)⟩
    | succ left =>
      rw [List.map_cons, List.cons_append, List.length_cons, Nat.add_sub_add_right]
      simp only [takeItems, bind_eq_ok_iff, map_eq_ok_iff, ih, Nat.add_le_add_iff_right]
      constructor
      · rintro ⟨_, hcheck, rest, ⟨hstop, hlength, rfl, haccepted⟩, rfl⟩
        exact ⟨hstop, hlength, rfl, accepted_cons_iff.mpr ⟨fun _ ht => Option.some.inj ht ▸ hcheck, nofun, haccepted⟩⟩
      · rintro ⟨hstop, hlength, rfl, haccepted⟩
        obtain ⟨hcheck, -, hrest⟩ := accepted_cons_iff.mp haccepted
        exact ⟨(), hcheck t rfl, _, ⟨hstop, hlength, rfl, hrest⟩, rfl⟩

theorem fieldsOf_eq_some {ms : List Member} {name : String} {t : Tree} (honce : Once names ms) {i : Nat}
    (hname : names[i]? = some name) (hmem : (.ok name, t) ∈ ms) : (fieldsOf names ms)[i]? = some (some t) := by
  have hvalue := mem_named hmem
  have hle := honce name (List.mem_of_getElem? hname)
  obtain ⟨u, hu⟩ := List.length_eq_one_iff.mp (Nat.le_antisymm hle (List.length_pos_of_mem hvalue))
  rw [hu] at hvalue
  rw [getElem?_fieldsOf hname, hu, List.mem_singleton.mp hvalue, List.head?_cons]

/-- Members can be taken if all of them are readable and the fields that they give are accepted. -/
theorem forall_fits_iff {ms : List Member} (honce : Once names ms) :
    (∀ m ∈ ms, Fits names check m) ↔ (∀ m ∈ ms, Readable names m) ∧
      ∀ i t, (fieldsOf names ms)[i]? = some (some t) → check i t = .ok () := by
  constructor
  · intro h
    constructor
    · intro m hm
      obtain ⟨key, hkey, -, hskip⟩ := h m hm
      exact ⟨key, hkey, hskip⟩
    · intro i t ht
      rw [fieldsOf, List.getElem?_map, Option.map_eq_some_iff] at ht
      obtain ⟨name, hname, hhead⟩ := ht
      obtain ⟨m, hm, hvalue⟩ := List.mem_filterMap.mp (List.mem_of_mem_head? hhead)
      obtain ⟨hkey, hvalue⟩ := Option.ite_none_right_eq_some.mp hvalue
      obtain ⟨key, hkey', hcheck, -⟩ := h m hm
      obtain rfl := Except.ok.inj (hkey.symm.trans hkey')
      exact Option.some.inj hvalue ▸ hcheck i hname
  · rintro ⟨hreadable, hchecks⟩ m hm
    obtain ⟨key, hkey, hskip⟩ := hreadable m hm
    refine ⟨key, hkey, fun i hi => hchecks i m.2 (fieldsOf_eq_some honce hi ?_), hskip⟩
    rwa [← hkey]

theorem any_missing_eq_false_iff (hlength : got.length = names.length) :
    ((List.range names.length).any fun i => required i && (got[i]?.join).isNone) = false ↔
      ∀ i, got[i]? = some none → required i = false := by
  rw [List.any_eq_false]
  constructor
  · intro h i hi
    have hmem : i ∈ List.range names.length :=
      List.mem_range.mpr (hlength ▸ (List.getElem?_eq_some_iff.mp hi).1)
    simpa [hi] using h i hmem
  · intro h i hmem
    have hi : i < got.length := hlength ▸ List.mem_range.mp hmem
    cases ho : got[i] with
    | none => simp [h i (by rw [List.getElem?_eq_getElem hi, ho])]
    | some t => simp [List.getElem?_eq_getElem hi, ho]

variable {checks : Nat → Nat → Tree → Except Fault Unit}

theorem decodeFields_object_ok_iff (hnames : names.Nodup) {depth : Nat} {ms : List Member} {stop : Option Fault} :
    decodeFields names required checks depth (.object ms stop) = .ok got ↔
      1 < depth ∧ HasFields names (.object ms stop) got ∧ Accepted required (checks (depth - 1)) 0 got := by
  have hstart : (names.map fun _ => none) = fieldsOf names [] := rfl
  have hnone : Once names [] := fun _ _ => Nat.zero_le 1
  rw [decodeFields]
  by_cases hdepth : 1 < depth
  swap
  · rw [if_pos (Nat.le_of_not_lt hdepth)]
    constructor
    · intro h
      cases h
    · intro h
      exact absurd h.1 hdepth
  rw [if_neg (Nat.not_le.mpr hdepth)]
  simp only [bind_eq_ok_iff, hstart, takeMembers_ok_iff hnames hnone, List.nil_append]
  constructor
  · rintro ⟨_, ⟨rfl, hfits, honce, rfl⟩, hmissing⟩
    split at hmissing
    · cases hmissing
    · next hcomplete =>
      cases hmissing
      obtain ⟨hreadable, hchecks⟩ := (forall_fits_iff honce).mp hfits
      have hfields : HasFields names (.object ms none) (fieldsOf names ms) := .object hreadable honce
      have hrequired := (any_missing_eq_false_iff hfields.length_eq).mp (Bool.eq_false_iff.mpr hcomplete)
      exact ⟨hdepth, hfields, accepted_iff.mpr (by simpa only [Nat.zero_add] using ⟨hchecks, hrequired⟩)⟩
  · rintro ⟨-, hfields, haccepted⟩
    have hlength := hfields.length_eq
    rw [accepted_iff] at haccepted
    simp only [Nat.zero_add] at haccepted
    cases hfields with
    | object hreadable honce =>
      refine ⟨_, ⟨rfl, (forall_fits_iff honce).mpr ⟨hreadable, haccepted.1⟩, honce, rfl⟩, ?_⟩
      rw [(any_missing_eq_false_iff hlength).mpr haccepted.2, if_neg Bool.false_ne_true]

/-- A record is read if each of its fields is accepted, and none that is required is missing. -/
theorem decodeFields_ok_iff (hnames : names.Nodup) {depth : Nat} {t : Tree} :
    decodeFields names required checks depth t = .ok got ↔
      1 < depth ∧ HasFields names t got ∧ Accepted required (checks (depth - 1)) 0 got := by
  cases t with
  | object ms stop => exact decodeFields_object_ok_iff hnames
  | array ts stop =>
    rw [decodeFields]
    split
    · next hdepth =>
      constructor
      · intro h
        cases h
      · intro h
        exact absurd h.1 (Nat.not_lt.mpr hdepth)
    · next hdepth =>
      rw [takeItems_ok_iff]
      constructor
      · rintro ⟨rfl, hlength, rfl, haccepted⟩
        exact ⟨Nat.lt_of_not_le hdepth, .array hlength, haccepted⟩
      · rintro ⟨-, hfields, haccepted⟩
        cases hfields with
        | array hlength => exact ⟨rfl, hlength, rfl, haccepted⟩
  | null | bool | number | string | broken =>
    constructor
    · intro h
      cases h
    · rintro ⟨-, hfields, -⟩
      cases hfields

theorem accepted_of_parts {α : Type} {part : Nat → Option Tree → α → Prop} {v : α}
    (hparts : ∀ i < got.length, part i (got[i]?.join) v) (hcheck : ∀ i t, part i (some t) v → check i t = .ok ())
    (hrequired : ∀ i, part i none v → required i = false) : Accepted required check 0 got := by
  have hpart {i : Nat} {o : Option Tree} (ho : got[i]? = some o) : part i o v := by
    have hi := hparts i (List.getElem?_eq_some_iff.mp ho).1
    rwa [ho] at hi
  rw [accepted_iff]
  simp only [Nat.zero_add]
  exact ⟨fun i t ht => hcheck i t (hpart ht), fun i hi => hrequired i (hpart hi)⟩

/-- A record whose fields each give a part of the result is read if all of them do, provided that a field gives its part
only if it passes its check, and in its absence only if it is not required. -/
theorem decodeFields_bind_ok_iff {α : Type} {part : Nat → Option Tree → α → Prop} {f : Fields → Except Fault α}
    {depth : Nat} {t : Tree} {v : α} (hnames : names.Nodup) (hdepth : 1 < depth)
    (hf : ∀ got, f got = .ok v ↔ ∀ i < names.length, part i (got[i]?.join) v)
    (hcheck : ∀ i u, part i (some u) v → checks (depth - 1) i u = .ok ())
    (hrequired : ∀ i, part i none v → required i = false) :
    decodeFields names required checks depth t >>= f = .ok v ↔
      ∃ got, HasFields names t got ∧ ∀ i < names.length, part i (got[i]?.join) v := by
  simp only [bind_eq_ok_iff, decodeFields_ok_iff hnames, hf]
  constructor
  · rintro ⟨got, ⟨-, hfields, -⟩, hparts⟩
    exact ⟨got, hfields, hparts⟩
  · rintro ⟨got, hfields, hparts⟩
    have haccepted := accepted_of_parts (hfields.length_eq ▸ hparts) hcheck hrequired
    exact ⟨got, ⟨hdepth, hfields, haccepted⟩, hparts⟩

end

section

variable {names : List String} {ms : List Member} {got : Fields} {name : String} {t u : Tree}

theorem HasFields.unique {other : Fields} (h : HasFields names t got) (h' : HasFields names t other) : got = other := by
  cases h <;> cases h' <;> rfl

theorem named_perm {more : List Member} (h : ms.Perm more) (hle : (named name ms).length ≤ 1) :
    named name ms = named name more := by
  have hnamed : (named name ms).Perm (named name more) := h.filterMap _
  cases hms : named name ms with
  | nil =>
    rw [hms] at hnamed
    exact hnamed.nil_eq
  | cons u us =>
    rw [hms, List.length_cons] at hle
    obtain rfl := List.length_eq_zero_iff.mp (Nat.le_zero.mp (Nat.le_of_succ_le_succ hle))
    rw [hms] at hnamed
    exact hnamed.singleton_eq

theorem Once.perm {more : List Member} (honce : Once names ms) (h : ms.Perm more) : Once names more := by
  intro name hname
  rw [← named_perm h (honce name hname)]
  exact honce name hname

theorem fieldsOf_perm {more : List Member} (honce : Once names ms) (h : ms.Perm more) :
    fieldsOf names ms = fieldsOf names more := by
  refine List.map_congr_left fun name hname => ?_
  rw [named_perm h (honce name hname)]

theorem HasFields.perm {more : List Member} (h : ms.Perm more) (hfields : HasFields names (.object ms none) got) :
    HasFields names (.object more none) got := by
  cases hfields with
  | object hreadable honce =>
    rw [fieldsOf_perm honce h]
    exact .object (fun m hm => hreadable m (h.mem_iff.mpr hm)) (honce.perm h)

theorem hasFields_unknown_iff (hname : name ∉ names) (ht : t.skipFault = none) :
    HasFields names (.object ((.ok name, t) :: ms) none) got ↔ HasFields names (.object ms none) got := by
  have hnamed (other : String) (hother : other ∈ names) : named other ((.ok name, t) :: ms) = named other ms := by
    have hne : (.ok name : Except Fault String) ≠ .ok other := by
      intro heq
      exact hname (Except.ok.inj heq ▸ hother)
    exact named_cons_of_ne hne ms
  have hgot : fieldsOf names ((.ok name, t) :: ms) = fieldsOf names ms := by
    refine List.map_congr_left fun other hother => ?_
    rw [hnamed other hother]
  constructor
  · intro h
    cases h with
    | object hreadable honce =>
      rw [hgot]
      refine .object (fun m hm => hreadable m (List.mem_cons_of_mem _ hm)) fun other hother => ?_
      rw [← hnamed other hother]
      exact honce other hother
  · intro h
    cases h with
    | object hreadable honce =>
      rw [← hgot]
      refine .object (List.forall_mem_cons.mpr ⟨⟨name, rfl, fun _ => ht⟩, hreadable⟩) fun other hother => ?_
      rw [hnamed other hother]
      exact honce other hother

/-- A member with the name of a field gives the field, if no other member does. -/
theorem hasFields_known_iff (hnames : names.Nodup) {i : Nat} (hname : names[i]? = some name) :
    HasFields names (.object ((.ok name, t) :: ms) none) got ↔
      named name ms = [] ∧ ∃ rest, HasFields names (.object ms none) rest ∧ got = rest.set i (some t) := by
  have hperm : (ms ++ [(Except.ok name, t)]).Perm ((.ok name, t) :: ms) := List.perm_append_singleton _ _
  constructor
  · intro h
    cases h with
    | object hreadable honce =>
      have honce' := honce.perm hperm.symm
      have hle := honce name (List.mem_of_getElem? hname)
      rw [named_cons_self, List.length_cons] at hle
      have hnew : named name ms = [] := List.length_eq_zero_iff.mp (by omega)
      have hrest : HasFields names (.object ms none) (fieldsOf names ms) :=
        .object (fun m hm => hreadable m (List.mem_cons_of_mem _ hm)) honce'.of_append
      refine ⟨hnew, _, hrest, ?_⟩
      rw [← fieldsOf_append_known hnames hname hnew, fieldsOf_perm honce' hperm]
  · rintro ⟨hnew, rest, hrest, rfl⟩
    cases hrest with
    | object hreadable honce =>
      have honce' := honce.append_known hnew t
      rw [← fieldsOf_append_known hnames hname hnew, fieldsOf_perm honce' hperm]
      refine .object (List.forall_mem_cons.mpr ⟨⟨name, rfl, fun hunknown => ?_⟩, hreadable⟩) (honce'.perm hperm)
      exact absurd (List.mem_of_getElem? hname) hunknown

theorem hasFields_written (hnames : names.Nodup) (hlength : got.length = names.length) :
    HasFields names (.object (written names got) none) got := by
  have haccepted : Accepted (fun _ => false) (fun _ _ => .ok ()) 0 got :=
    accepted_iff.mpr ⟨fun _ _ _ => rfl, fun _ _ => rfl⟩
  have hread : decodeFields names (fun _ => false) (fun _ _ _ => .ok ()) 2 (.object (written names got) none) =
      .ok got :=
    decodeFields_written (by decide) hnames hlength haccepted
  exact ((decodeFields_ok_iff hnames).mp hread).2.1

/-- The array of all fields gives what the object does that has each of them by its name. -/
theorem hasFields_positional_iff (hnames : names.Nodup) {ts : List Tree} (hlength : ts.length = names.length) :
    HasFields names (.array ts none) got ↔ HasFields names (.object (written names (ts.map some)) none) got := by
  have hgot : HasFields names (.array ts none) (ts.map some) := by
    have harray := HasFields.array (Nat.le_of_eq hlength)
    rwa [hlength, Nat.sub_self, List.replicate_zero, List.append_nil] at harray
  have hwritten : HasFields names (.object (written names (ts.map some)) none) (ts.map some) :=
    hasFields_written hnames (by rw [List.length_map, hlength])
  constructor
  · intro h
    rwa [h.unique hgot]
  · intro h
    rwa [h.unique hwritten]

/-- A value stands at the place of a field, under its name or in its turn. -/
inductive Holds (names : List String) (i : Nat) (u : Tree) : Tree → Prop
  | member {name : String} {ms : List Member} (hname : names[i]? = some name) (h : (.ok name, u) ∈ ms) :
    Holds names i u (.object ms none)
  | item {ts : List Tree} (h : ts[i]? = some u) : Holds names i u (.array ts none)

theorem HasFields.getElem?_of_holds {i : Nat} (hfields : HasFields names t got) (h : Holds names i u t) :
    got[i]? = some (some u) := by
  cases h with
  | member hname hmem =>
    cases hfields with
    | object _ honce => exact fieldsOf_eq_some honce hname hmem
  | @item ts hitem =>
    cases hfields with
    | array =>
      have hi : i < (ts.map some).length := by
        rw [List.length_map]
        exact (List.getElem?_eq_some_iff.mp hitem).1
      rw [List.getElem?_append_left hi, List.getElem?_map, hitem, Option.map_some]

/-- Two records differ in the value of one field only. -/
inductive Replaced (names : List String) (i : Nat) (u v : Tree) : Tree → Tree → Prop
  | member {name : String} {before after : List Member} (hname : names[i]? = some name) :
    Replaced names i u v (.object (before ++ (.ok name, u) :: after) none)
      (.object (before ++ (.ok name, v) :: after) none)
  | item {before after : List Tree} (hi : before.length = i) :
    Replaced names i u v (.array (before ++ u :: after) none) (.array (before ++ v :: after) none)

theorem Replaced.symm {i : Nat} {v t' : Tree} (h : Replaced names i u v t t') : Replaced names i v u t' t := by
  cases h with
  | member hname => exact .member hname
  | item hi => exact .item hi

theorem Replaced.holds {i : Nat} {v t' : Tree} (h : Replaced names i u v t t') : Holds names i u t := by
  cases h with
  | member hname => exact .member hname (List.mem_append_right _ List.mem_cons_self)
  | item hi => exact .item (hi ▸ List.getElem?_append_right (Nat.le_refl _) ▸ by simp)

theorem HasFields.replaced (hnames : names.Nodup) {i : Nat} {v t' : Tree} (h : Replaced names i u v t t')
    (hfields : HasFields names t got) : HasFields names t' (got.set i (some v)) := by
  cases h with
  | @member name before after hname =>
    have hfront := hfields.perm List.perm_middle
    obtain ⟨hnew, rest, hrest, rfl⟩ := (hasFields_known_iff hnames hname).mp hfront
    rw [List.set_set]
    exact ((hasFields_known_iff hnames hname).mpr ⟨hnew, rest, hrest, rfl⟩).perm List.perm_middle.symm
  | @item before after hi =>
    cases hfields with
    | array hlength =>
      have hset : ((before ++ u :: after).map some ++
          List.replicate (names.length - (before ++ u :: after).length) none).set i (some v) =
            (before ++ v :: after).map some ++ List.replicate (names.length - (before ++ v :: after).length) none := by
        subst hi
        simp
      rw [hset]
      exact .array (by simpa using hlength)

theorem HasFields.given (hnames : names.Nodup) {i : Nat} (hname : names[i]? = some name)
    (habsent : ∀ m ∈ ms, m.1 ≠ .ok name) (t : Tree) (hfields : HasFields names (.object ms none) got) :
    got[i]? = some none ∧ HasFields names (.object ((.ok name, t) :: ms) none) (got.set i (some t)) := by
  have hnew : named name ms = [] := named_eq_nil_iff.mpr habsent
  refine ⟨?_, (hasFields_known_iff hnames hname).mpr ⟨hnew, got, hfields, rfl⟩⟩
  cases hfields with
  | object => rw [getElem?_fieldsOf hname, hnew, List.head?_nil]

theorem HasFields.omitted (hnames : names.Nodup) {i : Nat} (hname : names[i]? = some name)
    (hfields : HasFields names (.object ((.ok name, t) :: ms) none) got) :
    got[i]? = some (some t) ∧ HasFields names (.object ms none) (got.set i none) := by
  refine ⟨hfields.getElem?_of_holds (.member hname List.mem_cons_self), ?_⟩
  obtain ⟨hnew, rest, hrest, rfl⟩ := (hasFields_known_iff hnames hname).mp hfields
  have hnone := (hrest.given hnames hname (named_eq_nil_iff.mp hnew) t).1
  obtain ⟨hi, hvalue⟩ := List.getElem?_eq_some_iff.mp hnone
  rwa [List.set_set, ← hvalue, List.set_getElem_self]

theorem skipItems_eq_none_iff {ts : List Tree} : skipItems ts none = none ↔ ∀ t ∈ ts, t.skipFault = none := by
  induction ts with
  | nil => simp [skipItems]
  | cons t ts ih => rw [skipItems, Option.or_eq_none_iff, ih, List.forall_mem_cons]

theorem skipMembers_eq_none_iff : skipMembers ms none = none ↔ ∀ m ∈ ms, m.2.skipFault = none := by
  induction ms with
  | nil => simp [skipMembers]
  | cons m ms ih => rw [skipMembers, Option.or_eq_none_iff, ih, List.forall_mem_cons]

theorem HasFields.skipFault_eq_none (h : HasFields names t got) (hgot : ∀ u, some u ∈ got → u.skipFault = none) :
    t.skipFault = none := by
  cases h with
  | object hreadable honce =>
    refine skipMembers_eq_none_iff.mpr fun m hm => ?_
    obtain ⟨key, hkey, hskip⟩ := hreadable m hm
    by_cases hname : key ∈ names
    · obtain ⟨i, hi⟩ := List.mem_iff_getElem?.mp hname
      exact hgot m.2 (List.mem_of_getElem? (fieldsOf_eq_some honce hi (hkey ▸ hm)))
    · exact hskip hname
  | array =>
    refine skipItems_eq_none_iff.mpr fun u hu => hgot u ?_
    exact List.mem_append_left _ (List.mem_map_of_mem hu)

end

end ScriptHost.Json
