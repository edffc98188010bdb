import ScriptHost.Proofs.Json.Documents

/-! # Reading back values

The compact text of a value spells one tree, which is a function of the value. Doubles are the exception among the
values: they count only as far as their text gives them back. -/

namespace ScriptHost.Json

/-- A text spells a tree, whatever follows it. -/
def Spelled (cs : List Char) (t : Tree) : Prop := ∀ rest, Spells (.value t) (cs ++ rest) rest

theorem spelled_null : Spelled "null".toList .null := fun _ => .null

theorem spelled_true : Spelled "true".toList (.bool true) := fun _ => .true

theorem spelled_false : Spelled "false".toList (.bool false) := fun _ => .false

theorem quoted_quotedTail (s : String) : Quoted (.ok []) none (quotedTail s) (.ok s) := by
  obtain ⟨front, hsplit, hquoted⟩ := quoted_of_readString (readString_quotedTail s [])
  rw [List.append_nil, List.append_nil] at hsplit
  rwa [hsplit]

theorem spelled_string (s : String) : Spelled (stringText s).toList (.string (.ok s)) := by
  intro rest
  rw [toList_stringText, List.cons_append]
  exact .string (quoted_quotedTail s)

theorem numeral_toDigits (negative : Bool) (n : Nat) :
    Numeral negative (Nat.toDigits 10 n) ⟨negative, digitValues n, none, none⟩ := by
  have hread := readNumber_toDigits negative n .nil
  rw [List.append_nil] at hread
  obtain ⟨front, hsplit, hnumeral⟩ := numeral_of_readNumber hread
  rw [List.append_nil] at hsplit
  rwa [hsplit]

theorem spelled_int (n : Int) : Spelled (toString n).toList (.number (.ofInt n)) := by
  intro rest
  rw [toList_toString_int, NumberText.ofInt]
  by_cases hsign : n < 0
  · rw [if_pos hsign, decide_eq_true hsign]
    exact .negative (numeral_toDigits true n.natAbs)
  · rw [if_neg hsign, decide_eq_false hsign]
    exact .number (numeral_toDigits false n.natAbs)

/-- The number that a place of a text holds, as a double. -/
def decodeDouble : Decoder Float
  | _, .number n => Number.toFloat <$> n.value
  | _, t => t.unwanted

/-- A double that its own text gives back unchanged. What is no finite number has no text of its own. -/
def ReadsBack (x : Float) : Prop := decodeText decodeDouble (doubleText x) = .ok x

instance (x : Float) : Decidable (ReadsBack x) :=
  match h : decodeText decodeDouble (doubleText x) with
  | .ok y => decidable_of_iff (y = x) (by rw [ReadsBack, h, Except.ok.injEq])
  | .error _ => .isFalse (by rw [ReadsBack, h]; exact nofun)

theorem ReadsBack.finite {x : Float} (h : ReadsBack x) : ∃ d, Decimal.read x = .finite d := by
  cases hread : Decimal.read x with
  | finite d => exact ⟨d, rfl⟩
  | notANumber | infinite =>
    have hnull : doubleText x = "null" := by rw [doubleText, hread]
    rw [ReadsBack, hnull] at h
    cases h

/-- A number without blanks around it is the whole text, and spells the same wherever it stands. -/
theorem spelled_number {cs rest : List Char} {n : NumberText} (hcs : Unblank cs)
    (h : Spells (.value (.number n)) cs rest) (hrest : ∀ c ∈ rest, isBlank c = true) : Spelled cs (.number n) := by
  have hnil (hsub : rest ⊆ cs) : rest = [] := by
    refine List.eq_nil_iff_forall_not_mem.mpr fun c hc => ?_
    exact absurd (hrest c hc) (by rw [hcs c (hsub hc)]; decide)
  cases h with
  | blank hc => exact absurd hc (by rw [hcs _ List.mem_cons_self]; decide)
  | number hnumeral =>
    rw [hnil (List.subset_append_right _ _), List.append_nil]
    exact fun _ => .number hnumeral
  | negative hnumeral =>
    rw [hnil (List.subset_cons_of_subset _ (List.subset_append_right _ _)), List.append_nil]
    exact fun _ => .negative hnumeral

/-- A double that reads back has a number for its text, which spells that number wherever it stands. -/
theorem ReadsBack.exists_number {x : Float} (h : ReadsBack x) :
    ∃ n, Spelled (doubleText x).toList (.number n) ∧ (Document.ofText (doubleText x)).root = .number n ∧
      Number.toFloat <$> n.value = .ok x := by
  obtain ⟨y, hvalue, hend⟩ := bind_eq_ok_iff.mp h
  split at hend
  · cases hend
  next htrailing =>
  cases hend
  cases hroot : (Document.ofText (doubleText x)).root with
  | number n =>
    rw [hroot] at hvalue
    have hdocument : Document.ofText (doubleText x) = ⟨.number n, false⟩ := by
      rw [← hroot, ← Bool.eq_false_iff.mpr htrailing]
    obtain ⟨rest, hspells, hrest⟩ := (written_iff _ _).mpr ⟨hdocument, rfl⟩
    exact ⟨n, spelled_number (.doubleText x) hspells hrest, rfl, hvalue⟩
  | _ =>
    rw [hroot] at hvalue
    cases hvalue

/-- Texts with a comma in front of each, up to a closing character. -/
def joinedTail (close : Char) : List (List Char) → List Char
  | [] => [close]
  | t :: ts => ',' :: (t ++ joinedTail close ts)

/-- Texts with commas between them, up to a closing character. -/
def joined (close : Char) : List (List Char) → List Char
  | [] => [close]
  | t :: ts => t ++ joinedTail close ts

theorem intercalate_append_close (close : Char) (ts : List (List Char)) :
    [','].intercalate ts ++ [close] = joined close ts := by
  cases ts with
  | nil => rfl
  | cons t ts =>
    induction ts generalizing t with
    | nil => rw [List.intercalate_singleton, joined, joinedTail]
    | cons u ts ih =>
      rw [List.intercalate_cons_cons, List.append_assoc, ih u, List.append_assoc]
      rfl

section

variable {α : Type} {text : α → List Char} {tree : α → Tree}

theorem spells_joinedTail {items : List α} (h : ∀ v ∈ items, Spelled (text v) (tree v)) (rest : List Char) :
    Spells (.items false (items.map tree)) (joinedTail ']' (items.map text) ++ rest) rest := by
  induction items with
  | nil => exact .noItem
  | cons v items ih =>
    rw [List.forall_mem_cons] at h
    rw [List.map_cons, List.map_cons, joinedTail, List.cons_append, List.append_assoc]
    exact .nextItem (h.1 _) (ih h.2)

theorem spelled_array {items : List α} (h : ∀ v ∈ items, Spelled (text v) (tree v)) :
    Spelled ('[' :: joined ']' (items.map text)) (.array (items.map tree) none) := by
  intro rest
  rw [List.cons_append]
  refine .array ?_
  cases items with
  | nil => exact .noItem
  | cons v items =>
    rw [List.forall_mem_cons] at h
    rw [List.map_cons, List.map_cons, joined, List.append_assoc]
    exact .firstItem (h.1 _) (spells_joinedTail h.2 rest)

def memberText (key : String) (text : List Char) : List Char := '"' :: (quotedTail key ++ ':' :: text)

theorem spells_memberText (key : String) {cs after rest : List Char} {t : Tree} {ms : List (Except Fault String × Tree)}
    (h : Spelled cs t) (hs : Spells (.members false ms) after rest) :
    Spells (.members true ((.ok key, t) :: ms)) (memberText key cs ++ after) rest := by
  rw [memberText, List.cons_append, List.append_assoc, List.cons_append]
  exact @Spells.firstMember _ [] _ _ _ _ _ _ (quoted_quotedTail key) nofun (h _) hs

theorem spells_joinedTail_members {members : List (String × α)} (h : ∀ m ∈ members, Spelled (text m.2) (tree m.2))
    (rest : List Char) : Spells (.members false (members.map fun m => (.ok m.1, tree m.2)))
      (joinedTail '\x7d' (members.map fun m => memberText m.1 (text m.2)) ++ rest) rest := by
  induction members with
  | nil => exact .noMember
  | cons m members ih =>
    rw [List.forall_mem_cons] at h
    have hmember := spells_memberText m.1 h.1 (ih h.2)
    rw [memberText, List.cons_append] at hmember
    rw [List.map_cons, List.map_cons, joinedTail, memberText, List.cons_append, List.append_assoc, List.cons_append]
    exact @Spells.nextMember [] _ _ _ _ nofun hmember

theorem spelled_object {members : List (String × α)} (h : ∀ m ∈ members, Spelled (text m.2) (tree m.2)) :
    Spelled ('\x7b' :: joined '\x7d' (members.map fun m => memberText m.1 (text m.2)))
      (.object (members.map fun m => (.ok m.1, tree m.2)) none) := by
  intro rest
  rw [List.cons_append]
  refine .object ?_
  cases members with
  | nil => exact .noMember
  | cons m members =>
    rw [List.forall_mem_cons] at h
    rw [List.map_cons, List.map_cons, joined, List.append_assoc]
    exact spells_memberText m.1 h.1 (spells_joinedTail_members h.2 rest)

end

end ScriptHost.Json
