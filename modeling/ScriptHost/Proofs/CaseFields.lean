import ScriptHost.Proofs.CaseFormat
import ScriptHost.Proofs.Json.Records

/-! # The fields of a case

A case is made of records, each with its fields in their order of declaration. Some fields must be given, some may be
null, and some have a default. A record is read if each of its fields gives its part of the result. -/

namespace ScriptHost.Case

open Json (Tree Fault Decoder Fields HasFields)

/-- The records of which a case is made. -/
inductive Kind where
  | case
  | function
  | hostError
  | call
  | outcome

/-- Whether a field may be left out, and what may be written instead. -/
inductive Presence where
  | required
  | optional
  | defaulted (value : Json)

/-- The records that a field holds. -/
inductive Content where
  | plain
  | record (k : Kind)
  | records (k : Kind)

structure Field where
  name : String
  presence : Presence
  content : Content

def Kind.fields : Kind → List Field
  | case => [⟨"schemaVersion", .required, .plain⟩, ⟨"logLevel", .optional, .plain⟩,
      ⟨"executions", .defaulted (.int 1), .plain⟩, ⟨"functions", .defaulted (.array []), .records function⟩,
      ⟨"expectedCalls", .defaulted (.array []), .records call⟩,
      ⟨"expectedOutcome", .defaulted (.object [("code", .string "LUA_OK")]), .record outcome⟩]
  | function => [⟨"namespace", .defaulted (.string "java"), .plain⟩, ⟨"name", .required, .plain⟩,
      ⟨"result", .defaulted (.int 0), .plain⟩, ⟨"error", .optional, .record hostError⟩]
  | hostError => [⟨"code", .required, .plain⟩, ⟨"message", .required, .plain⟩]
  | call => [⟨"namespace", .defaulted (.string "java"), .plain⟩, ⟨"name", .required, .plain⟩,
      ⟨"args", .defaulted (.array []), .plain⟩]
  | outcome => [⟨"code", .required, .plain⟩, ⟨"message", .optional, .plain⟩, ⟨"messageContains", .optional, .plain⟩]

def Kind.names (k : Kind) : List String := k.fields.map Field.name

/-- What says the same as to leave the field out. -/
def Presence.silent? : Presence → Option Tree
  | required => none
  | optional => some .null
  | defaulted value => some value.tree

/-- What a record is read as. -/
def Kind.Meaning : Kind → Type
  | case => TestCase
  | function => FunctionSpec
  | hostError => HostError
  | call => Call
  | outcome => Outcome

def Kind.decode : (k : Kind) → Decoder k.Meaning
  | case => TestCase.decode
  | function => decodeFunctionSpec
  | hostError => decodeError
  | call => decodeCall
  | outcome => decodeOutcome

/-- The levels of nesting that are left where a record of a case stands. -/
def Kind.depth : Kind → Nat
  | case => Json.depthLimit
  | outcome => Json.depthLimit - 1
  | function | call => Json.depthLimit - 1 - 1
  | hostError => Json.depthLimit - 1 - 1 - 1

def Kind.read (k : Kind) : Tree → Except Fault k.Meaning := k.decode k.depth

/-- A field that is given, or left out, gives a part of a result. -/
def gives {α β : Type} (read : Tree → Except Fault β) (absent : Except Fault β) (part : α → β) : Option Tree → α → Prop
  | some t, v => read t = .ok (part v)
  | none, v => absent = .ok (part v)

/-- What each field of a record gives, by its position. -/
def Kind.part : (k : Kind) → Nat → Option Tree → k.Meaning → Prop
  | case, 0 => gives (Json.decodeString Kind.case.depth) (.error .mismatch) TestCase.schema
  | case, 1 => gives (Json.decodeOption Json.decodeString Kind.case.depth) (.ok none) TestCase.logLevel
  | case, 2 => gives (decodeCount Kind.case.depth) (.ok 1) TestCase.executions
  | case, 3 => gives (Json.decodeArray Kind.function.decode (Kind.case.depth - 1)) (.ok []) TestCase.functions
  | case, 4 => gives (Json.decodeArray Kind.call.decode (Kind.case.depth - 1)) (.ok []) TestCase.expectedCalls
  | case, _ => gives Kind.outcome.read (.ok {}) TestCase.expectedOutcome
  | function, 0 => gives (Json.decodeString Kind.function.depth) (.ok defaultNamespace) fun f => f.key.space
  | function, 1 => gives (Json.decodeString Kind.function.depth) (.error .mismatch) fun f => f.key.name
  | function, 2 => gives (decodeResult Kind.function.depth) (.ok 0) FunctionSpec.result
  | function, _ => gives (Json.decodeOption Kind.hostError.decode Kind.hostError.depth) (.ok none) FunctionSpec.error
  | hostError, 0 => gives (Json.decodeString Kind.hostError.depth) (.error .mismatch) HostError.code
  | hostError, _ => gives (Json.decodeString Kind.hostError.depth) (.error .mismatch) HostError.message
  | call, 0 => gives (Json.decodeString Kind.call.depth) (.ok defaultNamespace) fun c => c.key.space
  | call, 1 => gives (Json.decodeString Kind.call.depth) (.error .mismatch) fun c => c.key.name
  | call, _ => gives (Json.decodeArray Argument.decode (Kind.call.depth - 1)) (.ok []) Call.args
  | outcome, 0 => gives (ReturnCode.decode (Kind.outcome.depth - 1)) (.error .mismatch) Outcome.code
  | outcome, 1 => gives (Json.decodeOption Json.decodeString Kind.outcome.depth) (.ok none) Outcome.message
  | outcome, _ => gives (Json.decodeOption Json.decodeString Kind.outcome.depth) (.ok none) Outcome.fragment

theorem value_eq_ok_iff {α β : Type} {fields : Fields} {i : Nat} {decode : Decoder β} {depth : Nat}
    {absent : Except Fault β} {part : α → β} {v : α} :
    fields.value i decode depth absent = .ok (part v) ↔ gives (decode depth) absent part (fields[i]?.join) v := by
  rw [Fields.value]
  cases fields[i]?.join <;> exact Iff.rfl

theorem Kind.names_nodup (k : Kind) : k.names.Nodup := by
  cases k <;> decide

theorem Kind.one_lt_depth (k : Kind) : 1 < k.depth := by
  cases k <;> decide

/-- A record is read if each of its fields gives its part. -/
def Kind.Reads (k : Kind) (t : Tree) (v : k.Meaning) : Prop :=
  ∃ got, HasFields k.names t got ∧ ∀ i < k.names.length, k.part i (got[i]?.join) v

/-- A decoder that does not look at the levels that are left. -/
def Flat {α : Type} (decode : Decoder α) : Prop := ∀ depth other t, decode depth t = decode other t

theorem flat_string : Flat Json.decodeString := by
  intro depth other t
  cases t <;> rfl

theorem flat_whole (low high : Int) : Flat (Json.decodeWhole low high) := by
  intro depth other t
  cases t <;> rfl

theorem Flat.map {α β : Type} {decode : Decoder α} (h : Flat decode) (f : α → β) :
    Flat fun depth t => f <$> decode depth t := by
  intro depth other t
  exact congrArg _ (h depth other t)

theorem Flat.option {α : Type} {decode : Decoder α} (h : Flat decode) : Flat (Json.decodeOption decode) := by
  intro depth other t
  unfold Json.decodeOption
  split
  · rfl
  · exact congrArg _ (h depth other t)

theorem Flat.check {α : Type} {decode : Decoder α} (h : Flat decode) {depth : Nat} {t : Tree} {v : α}
    (ht : decode depth t = .ok v) (other : Nat) : decode.check other t = .ok () :=
  Json.check_of_ok (v := v) (h depth other t ▸ ht)

theorem reads_hostError_iff {t : Tree} {v : HostError} :
    decodeError Kind.hostError.depth t = .ok v ↔ Kind.hostError.Reads t v := by
  refine Json.decodeFields_bind_ok_iff Kind.hostError.names_nodup Kind.hostError.one_lt_depth ?_ ?_ ?_
  · intro got
    simp only [Json.bind_eq_ok_iff]
    constructor
    · rintro ⟨_, hcode, _, hmessage, hv⟩
      cases hv
      rintro (_ | _ | i) hi
      · exact value_eq_ok_iff.mp hcode
      · exact value_eq_ok_iff.mp hmessage
      · exact absurd hi (Nat.not_lt.mpr (Nat.le_add_left 2 i))
    · intro h
      exact ⟨_, value_eq_ok_iff.mpr (h 0 (by decide)), _, value_eq_ok_iff.mpr (h 1 (by decide)), rfl⟩
  · rintro (_ | i) u h
    · exact flat_string.check h _
    · exact flat_string.check h _
  · rintro (_ | i) h
    · cases h
    · cases h

theorem reads_function_iff {t : Tree} {v : FunctionSpec} :
    decodeFunctionSpec Kind.function.depth t = .ok v ↔ Kind.function.Reads t v := by
  refine Json.decodeFields_bind_ok_iff Kind.function.names_nodup Kind.function.one_lt_depth ?_ ?_ ?_
  · intro got
    simp only [Json.bind_eq_ok_iff]
    constructor
    · rintro ⟨_, hspace, _, hname, _, hresult, _, herror, hv⟩
      cases hv
      rintro (_ | _ | _ | _ | i) hi
      · exact value_eq_ok_iff.mp hspace
      · exact value_eq_ok_iff.mp hname
      · exact value_eq_ok_iff.mp hresult
      · exact value_eq_ok_iff.mp herror
      · exact absurd hi (Nat.not_lt.mpr (Nat.le_add_left 4 i))
    · intro h
      exact ⟨_, value_eq_ok_iff.mpr (h 0 (by decide)), _, value_eq_ok_iff.mpr (h 1 (by decide)), _,
        value_eq_ok_iff.mpr (h 2 (by decide)), _, value_eq_ok_iff.mpr (h 3 (by decide)), rfl⟩
  · rintro (_ | _ | _ | i) u h
    · exact flat_string.check h _
    · exact flat_string.check h _
    · exact ((flat_whole _ _).map Int32.ofInt).check h _
    · exact Json.check_of_ok h
  · rintro (_ | _ | _ | i) h
    · rfl
    · cases h
    · rfl
    · rfl

theorem reads_call_iff {t : Tree} {v : Call} : decodeCall Kind.call.depth t = .ok v ↔ Kind.call.Reads t v := by
  refine Json.decodeFields_bind_ok_iff Kind.call.names_nodup Kind.call.one_lt_depth ?_ ?_ ?_
  · intro got
    simp only [Json.bind_eq_ok_iff]
    constructor
    · rintro ⟨_, hspace, _, hname, _, hargs, hv⟩
      cases hv
      rintro (_ | _ | _ | i) hi
      · exact value_eq_ok_iff.mp hspace
      · exact value_eq_ok_iff.mp hname
      · exact value_eq_ok_iff.mp hargs
      · exact absurd hi (Nat.not_lt.mpr (Nat.le_add_left 3 i))
    · intro h
      exact ⟨_, value_eq_ok_iff.mpr (h 0 (by decide)), _, value_eq_ok_iff.mpr (h 1 (by decide)), _,
        value_eq_ok_iff.mpr (h 2 (by decide)), rfl⟩
  · rintro (_ | _ | i) u h
    · exact flat_string.check h _
    · exact flat_string.check h _
    · exact Json.check_of_ok h
  · rintro (_ | _ | i) h
    · rfl
    · cases h
    · rfl

theorem reads_outcome_iff {t : Tree} {v : Outcome} :
    decodeOutcome Kind.outcome.depth t = .ok v ↔ Kind.outcome.Reads t v := by
  refine Json.decodeFields_bind_ok_iff Kind.outcome.names_nodup Kind.outcome.one_lt_depth ?_ ?_ ?_
  · intro got
    simp only [Json.bind_eq_ok_iff]
    constructor
    · rintro ⟨_, hcode, _, hmessage, _, hfragment, hv⟩
      cases hv
      rintro (_ | _ | _ | i) hi
      · exact value_eq_ok_iff.mp hcode
      · exact value_eq_ok_iff.mp hmessage
      · exact value_eq_ok_iff.mp hfragment
      · exact absurd hi (Nat.not_lt.mpr (Nat.le_add_left 3 i))
    · intro h
      exact ⟨_, value_eq_ok_iff.mpr (h 0 (by decide)), _, value_eq_ok_iff.mpr (h 1 (by decide)), _,
        value_eq_ok_iff.mpr (h 2 (by decide)), rfl⟩
  · rintro (_ | _ | i) u h
    · exact Json.check_of_ok h
    · exact flat_string.option.check h _
    · exact flat_string.option.check h _
  · rintro (_ | _ | i) h
    · cases h
    · rfl
    · rfl

theorem reads_case_iff {t : Tree} {v : TestCase} : TestCase.decode Kind.case.depth t = .ok v ↔ Kind.case.Reads t v := by
  refine Json.decodeFields_bind_ok_iff Kind.case.names_nodup Kind.case.one_lt_depth ?_ ?_ ?_
  · intro got
    simp only [Json.bind_eq_ok_iff]
    constructor
    · rintro ⟨_, hschema, _, hlevel, _, hexecutions, _, hfunctions, _, hcalls, _, houtcome, hv⟩
      cases hv
      rintro (_ | _ | _ | _ | _ | _ | i) hi
      · exact value_eq_ok_iff.mp hschema
      · exact value_eq_ok_iff.mp hlevel
      · exact value_eq_ok_iff.mp hexecutions
      · exact value_eq_ok_iff.mp hfunctions
      · exact value_eq_ok_iff.mp hcalls
      · exact value_eq_ok_iff.mp houtcome
      · exact absurd hi (Nat.not_lt.mpr (Nat.le_add_left 6 i))
    · intro h
      exact ⟨_, value_eq_ok_iff.mpr (h 0 (by decide)), _, value_eq_ok_iff.mpr (h 1 (by decide)), _,
        value_eq_ok_iff.mpr (h 2 (by decide)), _, value_eq_ok_iff.mpr (h 3 (by decide)), _,
        value_eq_ok_iff.mpr (h 4 (by decide)), _, value_eq_ok_iff.mpr (h 5 (by decide)), rfl⟩
  · rintro (_ | _ | _ | _ | _ | i) u h
    · exact flat_string.check h _
    · exact flat_string.option.check h _
    · exact ((flat_whole _ _).map Int.toNat).check h _
    · exact Json.check_of_ok h
    · exact Json.check_of_ok h
    · exact Json.check_of_ok h
  · rintro (_ | _ | _ | _ | _ | i) h
    · cases h
    · rfl
    · rfl
    · rfl
    · rfl
    · rfl

theorem Kind.read_ok_iff (k : Kind) {t : Tree} {v : k.Meaning} : k.read t = .ok v ↔ k.Reads t v := by
  cases k with
  | case => exact reads_case_iff
  | function => exact reads_function_iff
  | hostError => exact reads_hostError_iff
  | call => exact reads_call_iff
  | outcome => exact reads_outcome_iff

/-- What the presence of a field means for its part. -/
structure Presence.Lawful {α : Type} (p : Presence) (part : Option Tree → α → Prop) : Prop where
  silent {t : Tree} {v : α} (ht : p.silent? = some t) : part none v ↔ part (some t) v
  null (hp : p ≠ .optional) (v : α) : ¬ part (some .null) v

/-- What the content of a field means for its part: records are read one by one. -/
def Content.Lawful {α : Type} : Content → (Option Tree → α → Prop) → Prop
  | plain, _ => True
  | record k, part => ∃ P : k.Meaning → α → Prop, ∀ t v, t ≠ .null → (part (some t) v ↔ ∃ w, k.read t = .ok w ∧ P w v)
  | records k, part => ∃ P : List k.Meaning → α → Prop, ∀ ts v,
      part (some (.array ts none)) v ↔ ∃ ws, List.Forall₂ (fun t w => k.read t = .ok w) ts ws ∧ P ws v

section

variable {α β : Type} {read : Tree → Except Fault β} {part : α → β}

theorem lawful_required {f : Fault} (hnull : ∀ x, read .null ≠ .ok x) :
    Presence.required.Lawful (gives read (.error f) part) where
  silent := nofun
  null _ v := hnull (part v)

theorem lawful_optional {decode : Decoder β} {depth : Nat} {part : α → Option β} :
    Presence.optional.Lawful (gives (Json.decodeOption decode depth) (.ok none) part) where
  silent ht := by
    cases ht
    exact Iff.rfl
  null hp := absurd rfl hp

theorem lawful_defaulted {value : Json} {x : β} (hvalue : read value.tree = .ok x) (hnull : ∀ x, read .null ≠ .ok x) :
    (Presence.defaulted value).Lawful (gives read (.ok x) part) where
  silent ht := by
    cases ht
    rw [gives, gives, hvalue]
  null _ v := hnull (part v)

theorem decodeItems_ok_iff {decode : Tree → Except Fault β} {ts : List Tree} {stop : Option Fault} {vs : List β} :
    Json.decodeItems decode ts stop = .ok vs ↔ stop = none ∧ List.Forall₂ (fun t v => decode t = .ok v) ts vs := by
  induction ts generalizing vs with
  | nil => cases stop <;> simp [Json.decodeItems, eq_comm]
  | cons t ts ih =>
    rw [Json.decodeItems, Json.bind_eq_ok_iff, List.forall₂_cons_left_iff]
    constructor
    · rintro ⟨v, hv, hrest⟩
      obtain ⟨vs, hvs, heq⟩ := Json.bind_eq_ok_iff.mp hrest
      cases heq
      obtain ⟨hstop, hitems⟩ := ih.mp hvs
      exact ⟨hstop, v, vs, hv, hitems, rfl⟩
    · rintro ⟨hstop, v, vs, hv, hitems, rfl⟩
      exact ⟨v, hv, Json.bind_eq_ok_iff.mpr ⟨vs, ih.mpr ⟨hstop, hitems⟩, rfl⟩⟩

theorem exists_of_mem {γ : Type} {R : β → γ → Prop} {xs : List β} {ys : List γ} (h : List.Forall₂ R xs ys) {x : β}
    (hx : x ∈ xs) : ∃ y, R x y := by
  induction h with
  | nil => cases hx
  | cons hxy _ ih =>
    rcases List.mem_cons.mp hx with rfl | hx
    · exact ⟨_, hxy⟩
    · exact ih hx

theorem lawful_optionalRecord {k : Kind} {part : α → Option k.Meaning} :
    (Content.record k).Lawful (gives (Json.decodeOption k.decode k.depth) (.ok none) part) := by
  refine ⟨fun w v => part v = some w, fun t v ht => ?_⟩
  have hread : Json.decodeOption k.decode k.depth t = some <$> k.read t := by
    unfold Json.decodeOption
    split
    · exact absurd rfl ht
    · rfl
  rw [gives, hread, Json.map_eq_ok_iff]
  simp only [eq_comm]

theorem lawful_record {k : Kind} {absent : Except Fault k.Meaning} {part : α → k.Meaning} :
    (Content.record k).Lawful (gives k.read absent part) := by
  refine ⟨fun w v => part v = w, fun t v _ => ?_⟩
  simp only [gives, exists_eq_right']

theorem lawful_records {k : Kind} {absent : Except Fault (List k.Meaning)} {part : α → List k.Meaning} {depth : Nat}
    (hdepth : depth = k.depth + 1) :
    (Content.records k).Lawful (gives (Json.decodeArray k.decode depth) absent part) := by
  refine ⟨fun ws v => part v = ws, fun ts v => ?_⟩
  have hpos := k.one_lt_depth
  rw [gives, hdepth, Json.decodeArray, if_neg (by omega), decodeItems_ok_iff, Nat.add_sub_cancel]
  simp only [true_and, exists_eq_right']
  rfl

end

structure Field.Lawful {α : Type} (field : Field) (part : Option Tree → α → Prop) : Prop where
  presence : field.presence.Lawful part
  content : field.content.Lawful part

theorem Kind.lawful (k : Kind) {i : Nat} {field : Field} (h : k.fields[i]? = some field) : field.Lawful (k.part i) := by
  match k, i, h with
  | case, 0, rfl => exact ⟨lawful_required nofun, trivial⟩
  | case, 1, rfl => exact ⟨lawful_optional, trivial⟩
  | case, 2, rfl => exact ⟨lawful_defaulted (decodeCount_tree (by decide) _) nofun, trivial⟩
  | case, 3, rfl => exact ⟨lawful_defaulted rfl nofun, lawful_records rfl⟩
  | case, 4, rfl => exact ⟨lawful_defaulted rfl nofun, lawful_records rfl⟩
  | case, 5, rfl => exact ⟨lawful_defaulted (decodeOutcome_tree {} (by decide)) nofun, lawful_record⟩
  | function, 0, rfl => exact ⟨lawful_defaulted rfl nofun, trivial⟩
  | function, 1, rfl => exact ⟨lawful_required nofun, trivial⟩
  | function, 2, rfl => exact ⟨lawful_defaulted (decodeResult_tree 0 _) nofun, trivial⟩
  | function, 3, rfl => exact ⟨lawful_optional, lawful_optionalRecord⟩
  | hostError, 0, rfl => exact ⟨lawful_required nofun, trivial⟩
  | hostError, 1, rfl => exact ⟨lawful_required nofun, trivial⟩
  | call, 0, rfl => exact ⟨lawful_defaulted rfl nofun, trivial⟩
  | call, 1, rfl => exact ⟨lawful_required nofun, trivial⟩
  | call, 2, rfl => exact ⟨lawful_defaulted rfl nofun, trivial⟩
  | outcome, 0, rfl => exact ⟨lawful_required nofun, trivial⟩
  | outcome, 1, rfl => exact ⟨lawful_optional, trivial⟩
  | outcome, 2, rfl => exact ⟨lawful_optional, trivial⟩

/-- A reader that gives no value for a text with a break. -/
def Careful {β : Type} (read : Tree → Except Fault β) : Prop := ∀ t v, read t = .ok v → t.skipFault = none

theorem unwanted_ne_ok {β : Type} (t : Tree) (v : β) : t.unwanted ≠ .ok v := by
  cases t <;> exact nofun

theorem careful_string (depth : Nat) : Careful (Json.decodeString depth) := by
  intro t v h
  cases t with
  | string s => rfl
  | _ => cases h

theorem careful_whole (low high : Int) (depth : Nat) : Careful (Json.decodeWhole low high depth) := by
  intro t v h
  cases t with
  | number n => rfl
  | _ => cases h

theorem careful_argument (depth : Nat) : Careful (Argument.decode depth) := by
  intro t v h
  cases t with
  | null | bool | number | string => rfl
  | _ => cases h

section

variable {β γ : Type} {read : Tree → Except Fault β} {decode : Decoder β} {depth : Nat}

theorem Careful.map (h : Careful read) (f : β → γ) : Careful fun t => f <$> read t := by
  intro t v ht
  obtain ⟨w, hw, -⟩ := Json.map_eq_ok_iff.mp ht
  exact h t w hw

theorem Careful.option (h : Careful (decode depth)) : Careful (Json.decodeOption decode depth) := by
  intro t v ht
  unfold Json.decodeOption at ht
  split at ht
  · rfl
  · exact h.map some t v ht

theorem Careful.array (h : Careful (decode (depth - 1))) : Careful (Json.decodeArray decode depth) := by
  intro t vs ht
  cases t with
  | array ts stop =>
    rw [Json.decodeArray] at ht
    split at ht
    · cases ht
    · obtain ⟨rfl, hitems⟩ := decodeItems_ok_iff.mp ht
      refine Json.skipItems_eq_none_iff.mpr fun u hu => ?_
      obtain ⟨v, hv⟩ := exists_of_mem hitems hu
      exact h u v hv
  | _ => cases ht

theorem careful_name (find : String → Option β) : Careful (Json.decodeName find depth) := by
  intro t v ht
  cases t with
  | string s => rfl
  | object ms stop =>
    simp only [Json.decodeName] at ht
    split at ht
    · cases ht
    split at ht
    · cases ht
    obtain ⟨key, -, hfind⟩ := Json.bind_eq_ok_iff.mp ht
    split at hfind
    · cases hfind
    split at hfind
    · split at hfind
      · next hmore =>
        obtain rfl := List.isEmpty_iff.mp hmore
        split at hfind
        · rfl
        · cases hfind
      · cases hfind
    · exact absurd hfind (unwanted_ne_ok _ v)
  | _ => cases ht

end

theorem Kind.careful_of_parts {k : Kind} (h : ∀ i u v, k.part i (some u) v → u.skipFault = none) : Careful k.read := by
  intro t v ht
  obtain ⟨got, hfields, hparts⟩ := k.read_ok_iff.mp ht
  refine hfields.skipFault_eq_none fun u hu => ?_
  obtain ⟨i, hi⟩ := List.mem_iff_getElem?.mp hu
  have hpart := hparts i (hfields.length_eq ▸ (List.getElem?_eq_some_iff.mp hi).1)
  rw [hi] at hpart
  exact h i u v hpart

theorem careful_hostError : Careful Kind.hostError.read := by
  refine Kind.careful_of_parts ?_
  rintro (_ | i) u v h
  · exact careful_string _ _ _ h
  · exact careful_string _ _ _ h

theorem careful_outcome : Careful Kind.outcome.read := by
  refine Kind.careful_of_parts ?_
  rintro (_ | _ | i) u v h
  · exact careful_name _ _ _ h
  · exact (careful_string _).option _ _ h
  · exact (careful_string _).option _ _ h

theorem careful_call : Careful Kind.call.read := by
  refine Kind.careful_of_parts ?_
  rintro (_ | _ | i) u v h
  · exact careful_string _ _ _ h
  · exact careful_string _ _ _ h
  · exact (careful_argument _).array _ _ h

theorem careful_function : Careful Kind.function.read := by
  refine Kind.careful_of_parts ?_
  rintro (_ | _ | _ | i) u v h
  · exact careful_string _ _ _ h
  · exact careful_string _ _ _ h
  · exact (careful_whole _ _ _).map Int32.ofInt _ _ h
  · exact Careful.option careful_hostError _ _ h

theorem careful_case : Careful Kind.case.read := by
  refine Kind.careful_of_parts ?_
  rintro (_ | _ | _ | _ | _ | i) u v h
  · exact careful_string _ _ _ h
  · exact (careful_string _).option _ _ h
  · exact (careful_whole _ _ _).map Int.toNat _ _ h
  · exact Careful.array careful_function _ _ h
  · exact Careful.array careful_call _ _ h
  · exact careful_outcome _ _ h

end ScriptHost.Case
