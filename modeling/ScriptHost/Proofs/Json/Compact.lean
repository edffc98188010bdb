import ScriptHost.Proofs.Json.Reading

/-! # The tree of a written value

What the reader makes of the compact text of a value is a function of the value. So whoever decodes a written text walks
a known tree, and nothing of the text is left to be looked at. -/

namespace ScriptHost.Json

mutual

def tree : Json → Tree
  | .null => .null
  | .bool b => .bool b
  | .int n => .number (.ofInt n)
  | .double x => (Document.ofText (doubleText x)).root
  | .string s => .string (.ok s)
  | .array items => .array (treeItems items) none
  | .object members => .object (treeMembers members) none

def treeItems : List Json → List Tree
  | [] => []
  | v :: vs => tree v :: treeItems vs

def treeMembers : List (String × Json) → List (Except Fault String × Tree)
  | [] => []
  | (k, v) :: ms => (.ok k, tree v) :: treeMembers ms

end

/-- A value whose doubles all read back. -/
inductive Faithful : Json → Prop
  | null : Faithful .null
  | bool (b : Bool) : Faithful (.bool b)
  | int (n : Int) : Faithful (.int n)
  | double {x : Float} (h : ReadsBack x) : Faithful (.double x)
  | string (s : String) : Faithful (.string s)
  | array {items : List Json} (h : ∀ v ∈ items, Faithful v) : Faithful (.array items)
  | object {members : List (String × Json)} (h : ∀ m ∈ members, Faithful m.2) : Faithful (.object members)

namespace Faithful

theorem noMembers : Faithful (.object []) := .object (List.forall_mem_nil _)

theorem member {key : String} {v : Json} {members : List (String × Json)} (hv : Faithful v)
    (hmembers : Faithful (.object members)) : Faithful (.object ((key, v) :: members)) := by
  cases hmembers with
  | object h => exact .object (List.forall_mem_cons.mpr ⟨hv, h⟩)

theorem items {α : Type} {toJson : α → Json} {items : List α} (h : ∀ v ∈ items, Faithful (toJson v)) :
    Faithful (.array (items.map toJson)) :=
  .array (List.forall_mem_map.mpr h)

end Faithful

theorem treeItems_eq (items : List Json) : treeItems items = items.map tree := by
  induction items with
  | nil => rfl
  | cons v vs ih => rw [treeItems, ih, List.map_cons]

theorem treeMembers_eq (members : List (String × Json)) :
    treeMembers members = members.map fun m => (.ok m.1, tree m.2) := by
  induction members with
  | nil => rfl
  | cons m ms ih => rw [treeMembers, ih, List.map_cons]

theorem compactItems_eq (items : List Json) : compactItems items = items.map compact := by
  induction items with
  | nil => rfl
  | cons v vs ih => rw [compactItems, ih, List.map_cons]

theorem compactMembers_eq (members : List (String × Json)) :
    compactMembers members = members.map fun m => stringText m.1 ++ ":" ++ m.2.compact := by
  induction members with
  | nil => rfl
  | cons m ms ih => rw [compactMembers, ih, List.map_cons]

theorem toList_enclosed (openText closeText : String) (close : Char) (hclose : closeText.toList = [close])
    (texts : List String) : (openText ++ ",".intercalate texts ++ closeText).toList =
      openText.toList ++ joined close (texts.map String.toList) := by
  rw [String.toList_append, String.toList_append, String.toList_intercalate, hclose, List.append_assoc]
  exact congrArg _ (intercalate_append_close close _)

theorem toList_compact_array (items : List Json) :
    (compact (.array items)).toList = '[' :: joined ']' (items.map fun v => v.compact.toList) := by
  rw [compact, toList_enclosed "[" "]" ']' rfl, compactItems_eq, List.map_map]
  rfl

theorem toList_compact_object (members : List (String × Json)) : (compact (.object members)).toList =
    '\x7b' :: joined '\x7d' (members.map fun m => memberText m.1 m.2.compact.toList) := by
  have hmember (m : String × Json) :
      (stringText m.1 ++ ":" ++ m.2.compact).toList = memberText m.1 m.2.compact.toList := by
    rw [String.toList_append, String.toList_append, toList_stringText, List.append_assoc]
    rfl
  rw [compact, toList_enclosed "\x7b" "\x7d" '\x7d' rfl, compactMembers_eq, List.map_map]
  simp only [Function.comp_def, hmember]
  rfl

/-- The compact text of a value spells the tree of the value, wherever the text stands. -/
theorem spelled_compact {v : Json} (h : Faithful v) : Spelled v.compact.toList v.tree := by
  induction h with
  | null => exact spelled_null
  | bool b =>
    cases b with
    | true => exact spelled_true
    | false => exact spelled_false
  | int n => exact spelled_int n
  | double hback =>
    obtain ⟨n, hspelled, hroot, -⟩ := hback.exists_number
    rw [compact, tree, hroot]
    exact hspelled
  | string s => exact spelled_string s
  | array _ ih =>
    rw [toList_compact_array, tree, treeItems_eq]
    exact spelled_array ih
  | object _ ih =>
    rw [toList_compact_object, tree, treeMembers_eq]
    exact @spelled_object Json (fun v => v.compact.toList) tree _ ih

/-- Decoding a written value decodes its tree. -/
theorem decodeText_compact {α : Type} (decode : Decoder α) {v : Json} (h : Faithful v) :
    decodeText decode v.compact = decode depthLimit v.tree := by
  have hspells := spelled_compact h []
  rw [List.append_nil] at hspells
  exact Written.decodeText ⟨[], hspells, nofun⟩ decode

end ScriptHost.Json
