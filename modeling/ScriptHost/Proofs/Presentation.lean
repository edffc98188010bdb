import ScriptHost.Proofs.CaseFields
import ScriptHost.Proofs.Json.Documents

/-! # One case, many texts

The order of the fields, blanks, fields that nobody knows, fields that say what their absence says, and the choice
between an object and an array do not matter to what a text is read as, in the case and in all records inside. A field
that is given twice and a null that its field does not allow do matter: they are refused wherever they stand. -/

namespace ScriptHost.Case

open Json (Tree Fault Fields HasFields Holds Replaced Written Member)

/-- Two trees are the same record, differently presented. -/
inductive Restated : Kind → Tree → Tree → Prop
  | refl {k : Kind} (t : Tree) : Restated k t t
  | symm {k : Kind} {t u : Tree} (h : Restated k t u) : Restated k u t
  | trans {k : Kind} {t u v : Tree} (h : Restated k t u) (h' : Restated k u v) : Restated k t v
  /-- The fields are given in another order. -/
  | permuted {k : Kind} {ms more : List Member} (h : ms.Perm more) : Restated k (.object ms none) (.object more none)
  /-- A field with a name that is not known is given any value. -/
  | unknown {k : Kind} {ms : List Member} {name : String} {t : Tree} (hname : name ∉ k.names) (ht : ∃ s, Written t s) :
    Restated k (.object ms none) (.object ((.ok name, t) :: ms) none)
  /-- A field that was left out is given as null or with its default. -/
  | silent {k : Kind} {ms : List Member} {field : Field} {t : Tree} (hfield : field ∈ k.fields)
    (habsent : ∀ m ∈ ms, m.1 ≠ .ok field.name) (ht : field.presence.silent? = some t) :
    Restated k (.object ms none) (.object ((.ok field.name, t) :: ms) none)
  /-- All fields are given in an array, in the order of declaration. -/
  | positional {k : Kind} {ts : List Tree} (h : ts.length = k.names.length) :
    Restated k (.object (Json.written k.names (ts.map some)) none) (.array ts none)
  /-- A record inside is presented differently. -/
  | record {k inner : Kind} {i : Nat} {field : Field} {t t' u u' : Tree} (hfield : k.fields[i]? = some field)
    (hcontent : field.content = .record inner) (h : Restated inner u u') (ht : Replaced k.names i u u' t t') :
    Restated k t t'
  /-- One of the records that stand in an array inside is presented differently. -/
  | item {k inner : Kind} {i : Nat} {field : Field} {before after : List Tree} {t t' u u' : Tree}
    (hfield : k.fields[i]? = some field) (hcontent : field.content = .records inner) (h : Restated inner u u')
    (ht : Replaced k.names i (.array (before ++ u :: after) none) (.array (before ++ u' :: after) none) t t') :
    Restated k t t'

/-- A record gives a field twice, or null to a field that is not optional, or has such a record inside. -/
inductive Spoiled : Kind → Tree → Prop
  | twice {k : Kind} {ms : List Member} {name : String} {t u : Tree} (hname : name ∈ k.names)
    (h : [(.ok name, t), (.ok name, u)].Sublist ms) : Spoiled k (.object ms none)
  | null {k : Kind} {i : Nat} {field : Field} {t : Tree} (hfield : k.fields[i]? = some field)
    (hpresence : field.presence ≠ .optional) (h : Holds k.names i .null t) : Spoiled k t
  | record {k inner : Kind} {i : Nat} {field : Field} {t u : Tree} (hfield : k.fields[i]? = some field)
    (hcontent : field.content = .record inner) (h : Spoiled inner u) (ht : Holds k.names i u t) : Spoiled k t
  | item {k inner : Kind} {i : Nat} {field : Field} {t u : Tree} {us : List Tree} (hfield : k.fields[i]? = some field)
    (hcontent : field.content = .records inner) (h : Spoiled inner u) (hu : u ∈ us)
    (ht : Holds k.names i (.array us none) t) : Spoiled k t

section

variable {k : Kind} {t t' : Tree}

theorem Kind.getElem?_names {i : Nat} {field : Field} (h : k.fields[i]? = some field) :
    k.names[i]? = some field.name := by
  rw [Kind.names, List.getElem?_map, h]
  rfl

theorem Kind.reads_iff_of_fields (h : ∀ got, HasFields k.names t got ↔ HasFields k.names t' got) (v : k.Meaning) :
    k.Reads t v ↔ k.Reads t' v := by
  simp only [Kind.Reads, h]

/-- Another value of one field gives the same if its part does. -/
theorem Kind.Reads.set {i : Nat} {o o' : Option Tree} {v : k.Meaning} (h : k.Reads t v)
    (hset : ∀ got, HasFields k.names t got → got[i]? = some o ∧ HasFields k.names t' (got.set i o'))
    (hpart : k.part i o v → k.part i o' v) : k.Reads t' v := by
  obtain ⟨got, hfields, hparts⟩ := h
  obtain ⟨hi, hfields'⟩ := hset got hfields
  refine ⟨got.set i o', hfields', fun j hj => ?_⟩
  have hold := hparts j hj
  by_cases hij : i = j
  · subst hij
    rw [hi] at hold
    rw [List.getElem?_set_self (List.getElem?_eq_some_iff.mp hi).1]
    exact hpart hold
  · rwa [List.getElem?_set_ne hij]

theorem Kind.reads_iff_of_replaced {i : Nat} {u u' : Tree} (ht : Replaced k.names i u u' t t') {v : k.Meaning}
    (hpart : k.part i (some u) v ↔ k.part i (some u') v) : k.Reads t v ↔ k.Reads t' v := by
  have hset {t t' u u' : Tree} (ht : Replaced k.names i u u' t t') (got : Fields) (hfields : HasFields k.names t got) :
      got[i]? = some (some u) ∧ HasFields k.names t' (got.set i (some u')) :=
    ⟨hfields.getElem?_of_holds ht.holds, hfields.replaced k.names_nodup ht⟩
  exact ⟨fun h => h.set (hset ht) hpart.mp, fun h => h.set (hset ht.symm) hpart.mpr⟩

/-- Only equal trees and records are restated. -/
theorem Restated.eq_or_ne_null (h : Restated k t t') : t = t' ∨ t ≠ .null ∧ t' ≠ .null := by
  induction h with
  | refl => exact .inl rfl
  | symm _ ih => exact ih.imp Eq.symm And.symm
  | trans _ _ ih ih' =>
    rcases ih with rfl | ⟨ht, hu⟩
    · exact ih'
    rcases ih' with rfl | ⟨-, hv⟩
    · exact .inr ⟨ht, hu⟩
    · exact .inr ⟨ht, hv⟩
  | permuted | unknown | silent | positional => exact .inr ⟨nofun, nofun⟩
  | record _ _ _ ht | item _ _ _ ht =>
    cases ht <;> exact .inr ⟨nofun, nofun⟩

theorem forall₂_replace_iff {α β : Type} {R : α → β → Prop} {before after : List α} {a a' : α}
    (h : ∀ b, R a b ↔ R a' b) (bs : List β) :
    List.Forall₂ R (before ++ a :: after) bs ↔ List.Forall₂ R (before ++ a' :: after) bs := by
  induction before generalizing bs with
  | nil => simp only [List.nil_append, List.forall₂_cons_left_iff, h]
  | cons b before ih => simp only [List.cons_append, List.forall₂_cons_left_iff, ih]

theorem Restated.read_iff (h : Restated k t t') (v : k.Meaning) : k.read t = .ok v ↔ k.read t' = .ok v := by
  induction h with
  | refl => exact Iff.rfl
  | symm _ ih => exact (ih v).symm
  | trans _ _ ih ih' => exact (ih v).trans (ih' v)
  | permuted h =>
    rw [Kind.read_ok_iff, Kind.read_ok_iff]
    exact Kind.reads_iff_of_fields (fun got => ⟨HasFields.perm h, HasFields.perm h.symm⟩) v
  | unknown hname ht =>
    obtain ⟨s, hs⟩ := ht
    rw [Kind.read_ok_iff, Kind.read_ok_iff]
    exact Kind.reads_iff_of_fields
      (fun got => (Json.hasFields_unknown_iff hname ((Json.written_iff _ s).mp hs).2).symm) v
  | @silent k ms field t hfield habsent ht =>
    obtain ⟨i, hi⟩ := List.mem_iff_getElem?.mp hfield
    have hname := Kind.getElem?_names hi
    have hpart := (k.lawful hi).presence.silent (v := v) ht
    rw [Kind.read_ok_iff, Kind.read_ok_iff]
    exact ⟨fun h => h.set (fun got => HasFields.given k.names_nodup hname habsent t) hpart.mp,
      fun h => h.set (fun got => HasFields.omitted k.names_nodup hname) hpart.mpr⟩
  | @positional k ts hlength =>
    rw [Kind.read_ok_iff, Kind.read_ok_iff]
    exact Kind.reads_iff_of_fields (fun got => (Json.hasFields_positional_iff k.names_nodup hlength).symm) v
  | @record k inner i field t t' u u' hfield hcontent h ht ih =>
    -- the record inside is one field of the outer one, and all that the outer one asks of it is what it is read as
    rw [Kind.read_ok_iff, Kind.read_ok_iff]
    refine Kind.reads_iff_of_replaced ht ?_
    rcases h.eq_or_ne_null with rfl | ⟨hu, hu'⟩
    · exact Iff.rfl
    have hlawful := (k.lawful hfield).content
    rw [hcontent] at hlawful
    obtain ⟨P, hP⟩ := hlawful
    rw [hP u v hu, hP u' v hu']
    simp only [ih]
  | @item k inner i field before after t t' u u' hfield hcontent h ht ih =>
    rw [Kind.read_ok_iff, Kind.read_ok_iff]
    refine Kind.reads_iff_of_replaced ht ?_
    have hlawful := (k.lawful hfield).content
    rw [hcontent] at hlawful
    obtain ⟨P, hP⟩ := hlawful
    have hitems := @forall₂_replace_iff _ _ (fun u w => inner.read u = .ok w) before after u u' ih
    rw [hP, hP]
    simp only [hitems]

theorem Spoiled.ne_null (h : Spoiled k t) : t ≠ .null := by
  cases h with
  | twice => exact nofun
  | null _ _ ht | record _ _ _ ht | item _ _ _ _ ht => cases ht <;> exact nofun

theorem Kind.Reads.part_of_holds {v : k.Meaning} (h : k.Reads t v) {i : Nat} {field : Field} {u : Tree}
    (hfield : k.fields[i]? = some field) (hu : Holds k.names i u t) : k.part i (some u) v := by
  obtain ⟨got, hfields, hparts⟩ := h
  have hpart := hparts i (List.getElem?_eq_some_iff.mp (Kind.getElem?_names hfield)).1
  rwa [hfields.getElem?_of_holds hu] at hpart

theorem Spoiled.read_ne_ok (h : Spoiled k t) (v : k.Meaning) : k.read t ≠ .ok v := by
  intro hread
  have hreads := k.read_ok_iff.mp hread
  clear hread
  induction h with
  | @twice k ms name t u hname hsub =>
    obtain ⟨got, hfields, -⟩ := hreads
    cases hfields with
    | object _ honce =>
      have hle := honce name hname
      have htwo := (Json.named_sublist name hsub).length_le
      rw [Json.named_cons_self, Json.named_cons_self, List.length_cons, List.length_cons] at htwo
      omega
  | null hfield hpresence ht => exact (Kind.lawful _ hfield).presence.null hpresence v (hreads.part_of_holds hfield ht)
  | record hfield hcontent h ht ih =>
    have hlawful := (Kind.lawful _ hfield).content
    rw [hcontent] at hlawful
    obtain ⟨P, hP⟩ := hlawful
    obtain ⟨w, hw, -⟩ := (hP _ v h.ne_null).mp (hreads.part_of_holds hfield ht)
    exact ih w (Kind.read_ok_iff _ |>.mp hw)
  | item hfield hcontent h hu ht ih =>
    have hlawful := (Kind.lawful _ hfield).content
    rw [hcontent] at hlawful
    obtain ⟨P, hP⟩ := hlawful
    obtain ⟨ws, hws, -⟩ := (hP _ v).mp (hreads.part_of_holds hfield ht)
    obtain ⟨w, hw⟩ := exists_of_mem hws hu
    exact ih w (Kind.read_ok_iff _ |>.mp hw)

end

theorem TestCase.ofText_eq_read {t : Tree} {s : String} (h : Written t s) : ofText s = Kind.case.read t :=
  h.decodeText decode

/-- A text that is read as a case is JSON to its end. -/
theorem TestCase.written_of_ofText {s : String} {c : TestCase} (h : ofText s = .ok c) : ∃ t, Written t s := by
  rw [ofText, Json.decodeText, Json.bind_eq_ok_iff] at h
  obtain ⟨v, hread, hend⟩ := h
  split at hend
  · cases hend
  · next htrailing =>
    refine ⟨_, (Json.written_iff _ s).mpr ⟨?_, careful_case _ v hread⟩⟩
    rw [← Bool.eq_false_iff.mpr htrailing]

/-- What a text is read as does not depend on how the case is presented, and a text that gives a field twice, or null
to a field that is not optional, is refused. -/
theorem TestCase.ofText_restated :
    (∀ s c, ofText s = .ok c → ∃ t, Written t s) ∧
    (∀ s s' t t', Written t s → Written t' s' → Restated .case t t' → ∀ c, ofText s = .ok c ↔ ofText s' = .ok c) ∧
    ∀ s t, Written t s → Spoiled .case t → ∃ f, ofText s = .error f := by
  refine ⟨fun s c => written_of_ofText, ?_, ?_⟩
  · intro s s' t t' hs hs' h c
    rw [ofText_eq_read hs, ofText_eq_read hs']
    exact h.read_iff c
  · intro s t hs h
    rw [ofText_eq_read hs]
    cases hread : Kind.case.read t with
    | ok c => exact absurd hread (h.read_ne_ok c)
    | error f => exact ⟨f, rfl⟩

/-- A case with one function. -/
def briefCase : Tree :=
  .object [(.ok "schemaVersion", .string (.ok "lb-tool-case.v1")),
    (.ok "functions", .array [.object [(.ok "name", .string (.ok "f"))] none] none)] none

/-- The same case in another order, with its function as an array and with too large a number in a note. -/
def notedCase : Tree :=
  .object [(.ok "functions", .array [.array [.string (.ok "java"), .string (.ok "f"), .number ⟨false, [0], none, none⟩,
      .null] none] none),
    (.ok "note", .array [.number ⟨true, [1], some [5], some (false, [9, 9, 9])⟩] none),
    (.ok "schemaVersion", .string (.ok "lb-tool-case.v1"))] none

theorem restated_notedCase : Restated .case briefCase notedCase := by
  let space : Member := (.ok "namespace", .string (.ok "java"))
  let name : Member := (.ok "name", .string (.ok "f"))
  let result : Member := (.ok "result", .number ⟨false, [0], none, none⟩)
  let error : Member := (.ok "error", .null)
  let places : Tree := .array [space.2, name.2, result.2, error.2] none
  let functions : Member := (.ok "functions", .array [places] none)
  let note : Member := (.ok "note", .array [.number ⟨true, [1], some [5], some (false, [9, 9, 9])⟩] none)
  let schema : Member := (.ok "schemaVersion", .string (.ok "lb-tool-case.v1"))
  have hspace : Restated .function (.object [name] none) (.object [space, name] none) :=
    @Restated.silent .function _ ⟨"namespace", .defaulted (.string "java"), .plain⟩ _ (by simp [Kind.fields])
      (by simp [name]) rfl
  have herror : Restated .function (.object [space, name] none) (.object [error, space, name] none) :=
    @Restated.silent .function _ ⟨"error", .optional, .record .hostError⟩ _ (by simp [Kind.fields])
      (by simp [space, name]) rfl
  have hresult : Restated .function (.object [error, space, name] none) (.object [result, error, space, name] none) :=
    @Restated.silent .function _ ⟨"result", .defaulted (.int 0), .plain⟩ _ (by simp [Kind.fields])
      (by simp [space, name, error]) rfl
  have horder : ([result, error] ++ [space, name]).Perm ([space, name] ++ [result, error]) := List.perm_append_comm
  have hplaces : Restated .function (.object [space, name, result, error] none) places :=
    @Restated.positional .function [space.2, name.2, result.2, error.2] rfl
  have hfunction : Restated .function (.object [name] none) places :=
    (((hspace.trans herror).trans hresult).trans (.permuted horder)).trans hplaces
  have hitem : Restated .case briefCase (.object [schema, functions] none) :=
    @Restated.item .case .function 3 ⟨"functions", .defaulted (.array []), .records .function⟩ [] [] _ _ _ _ rfl rfl
      hfunction (@Replaced.member _ 3 _ _ "functions" [schema] [] rfl)
  have hnote : ∃ s, Written note.2 s :=
    ⟨"[-1.5e999]", (Json.written_iff _ _).mpr ⟨by simp only [Json.Document.ofText, String.reduceToList]; rfl, rfl⟩⟩
  have hunknown : "note" ∉ Kind.case.names := by decide
  have hswap : ([note, schema] ++ [functions]).Perm ([functions] ++ [note, schema]) := List.perm_append_comm
  exact hitem.trans ((Restated.unknown hunknown hnote).trans (.permuted hswap))

/-- A case whose function fails with two codes. -/
def doubledCase : Tree :=
  .object [(.ok "schemaVersion", .string (.ok "lb-tool-case.v1")),
    (.ok "functions", .array [.object [(.ok "name", .string (.ok "f")),
      (.ok "error", .object [(.ok "code", .string (.ok "A")), (.ok "message", .string (.ok "m")),
        (.ok "code", .string (.ok "B"))] none)] none] none)] none

theorem spoiled_doubledCase : Spoiled .case doubledCase := by
  let error : Tree := .object
    [(.ok "code", .string (.ok "A")), (.ok "message", .string (.ok "m")), (.ok "code", .string (.ok "B"))] none
  let function : Tree := .object [(.ok "name", .string (.ok "f")), (.ok "error", error)] none
  have herror : Spoiled .hostError error := .twice (by decide) (.cons_cons _ (.cons _ (.refl _)))
  have hfunction : Spoiled .function function :=
    @Spoiled.record .function .hostError 3 ⟨"error", .optional, .record .hostError⟩ _ _ rfl rfl herror
      (@Holds.member _ 3 _ "error" _ rfl (.tail _ (.head _)))
  exact @Spoiled.item .case .function 3 ⟨"functions", .defaulted (.array []), .records .function⟩ _ _ [function] rfl rfl
    hfunction (.head _) (@Holds.member _ 3 _ "functions" _ rfl (.tail _ (.head _)))

theorem TestCase.ofText_restated_notedCase :
    let brief := "\x7b\"schemaVersion\":\"lb-tool-case.v1\",\"functions\":[\x7b\"name\":\"f\"\x7d]\x7d"
    let noted := " \x7b\"functions\": [ [\"java\", \"\\u0066\", 0, null]\n],\"note\" :[-1.5E+999],\t" ++
      "\"schemaVersion\":\"lb-tool-case.v1\" \x7d\n"
    let doubled := "\x7b\"schemaVersion\":\"lb-tool-case.v1\",\"functions\":[\x7b\"name\":\"f\",\"error\":" ++
      "\x7b\"code\":\"A\",\"message\":\"m\",\"code\":\"B\"\x7d\x7d]\x7d"
    Written briefCase brief ∧ Written notedCase noted ∧ Restated .case briefCase notedCase ∧
      (∃ c, ofText brief = .ok c ∧ ofText noted = .ok c ∧ ∃ t, Written t noted) ∧
      Written doubledCase doubled ∧ Spoiled .case doubledCase ∧ ∃ f, ofText doubled = .error f := by
  intro brief noted doubled
  have hbrief : Written briefCase brief := by
    refine (Json.written_iff _ _).mpr ⟨?_, rfl⟩
    simp only [Json.Document.ofText, brief, String.reduceToList]
    rfl
  have hnoted : Written notedCase noted := by
    refine (Json.written_iff _ _).mpr ⟨?_, rfl⟩
    simp only [Json.Document.ofText, noted, String.reduceAppend, String.reduceToList]
    rfl
  have hdoubled : Written doubledCase doubled := by
    refine (Json.written_iff _ _).mpr ⟨?_, rfl⟩
    simp only [Json.Document.ofText, doubled, String.reduceAppend, String.reduceToList]
    rfl
  have hread : ofText brief = .ok { schema := "lb-tool-case.v1", functions := [{ key := ⟨"java", "f"⟩ }] } := by
    rw [TestCase.ofText_eq_read hbrief]
    rfl
  have hsame := (ofText_restated.2.1 _ _ _ _ hbrief hnoted restated_notedCase _).mp hread
  exact ⟨hbrief, hnoted, restated_notedCase, ⟨_, hread, hsame, ofText_restated.1 _ _ hsame⟩, hdoubled,
    spoiled_doubledCase, ofText_restated.2.2 _ _ hdoubled spoiled_doubledCase⟩

end ScriptHost.Case
