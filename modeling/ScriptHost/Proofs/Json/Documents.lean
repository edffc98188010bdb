import ScriptHost.Proofs.Json.Grammar

/-! # Texts and their trees

A text that is read without a break, to its end, spells the tree that is read, and it spells no other. -/

namespace ScriptHost.Json

theorem eq_of_readWord {t t' : Tree} {word cs rest : List Char} (h : readWord t word cs = (t', rest))
    (ht : t'.skipFault = none) : t' = t ∧ cs = word ++ rest := by
  induction word generalizing cs with
  | nil =>
    cases h
    exact ⟨rfl, rfl⟩
  | cons w ws ih =>
    cases cs with
    | nil =>
      cases h
      cases ht
    | cons c cs =>
      rw [readWord] at h
      split at h
      · next hw =>
        obtain ⟨hsame, hrest⟩ := ih h
        exact ⟨hsame, by rw [hw, hrest, List.cons_append]⟩
      · cases h
        cases ht

theorem exists_number_of_readNumber {negative : Bool} {cs rest : List Char} {t : Tree}
    (h : readNumber negative cs = (t, rest)) (ht : t.skipFault = none) : ∃ n, t = .number n := by
  simp only [readNumber] at h
  split at h
  · cases h
    cases ht
  split at h
  · cases h
    cases ht
  split at h
  · cases h
    cases ht
  split at h
  · cases h
    cases ht
  · cases h
    exact ⟨_, rfl⟩

/-- With some fuel the reader takes what it gives without a break from a text that spells it. -/
structure Sound (fuel : Nat) : Prop where
  value {cs rest : List Char} {t : Tree} (h : readValue fuel cs = (t, rest)) (ht : t.skipFault = none) :
    Spells (.value t) cs rest
  items {first : Bool} {cs rest : List Char} {ts : List Tree} {stop : Option Fault}
    (h : readItems fuel first cs = (ts, stop, rest)) (hts : skipItems ts stop = none) :
    stop = none ∧ Spells (.items first ts) cs rest
  members {first : Bool} {cs rest : List Char} {ms : List (Except Fault String × Tree)} {stop : Option Fault}
    (h : readMembers fuel first cs = (ms, stop, rest)) (hms : skipMembers ms stop = none) :
    stop = none ∧ Spells (.members first ms) cs rest

namespace Sound

theorem zero : Sound 0 where
  value h ht := by
    cases h
    cases ht
  items h hts := by
    cases h
    cases hts
  members h hms := by
    cases h
    cases hms

variable {fuel : Nat} {cs rest : List Char}

theorem value_succ (ih : Sound fuel) {t : Tree} (h : readValue (fuel + 1) cs = (t, rest)) (ht : t.skipFault = none) :
    Spells (.value t) cs rest := by
  refine .of_skipBlanks ?_
  rw [readValue] at h
  split at h
  case h_1 =>
    cases h
    cases ht
  case h_2 hcs =>
    obtain ⟨rfl, rfl⟩ := eq_of_readWord h ht
    exact hcs ▸ .null
  case h_3 hcs =>
    obtain ⟨rfl, rfl⟩ := eq_of_readWord h ht
    exact hcs ▸ .true
  case h_4 hcs =>
    obtain ⟨rfl, rfl⟩ := eq_of_readWord h ht
    exact hcs ▸ .false
  case h_5 after hcs =>
    cases hstring : readString (after.length + 1) after (.ok []) none with
    | error b =>
      rw [hstring] at h
      cases h
      cases ht
    | ok read =>
      obtain ⟨s, after'⟩ := read
      rw [hstring] at h
      cases h
      obtain ⟨front, rfl, hquoted⟩ := quoted_of_readString hstring
      exact hcs ▸ .string hquoted
  case h_6 after hcs =>
    obtain ⟨n, rfl⟩ := exists_number_of_readNumber h ht
    obtain ⟨front, rfl, hnumeral⟩ := numeral_of_readNumber h
    exact hcs ▸ .negative hnumeral
  case h_7 after hcs =>
    cases hread : readItems fuel true after with
    | mk ts read =>
      obtain ⟨stop, after'⟩ := read
      rw [hread] at h
      cases h
      obtain ⟨rfl, hspells⟩ := ih.items hread ht
      exact hcs ▸ .array hspells
  case h_8 after hcs =>
    cases hread : readMembers fuel true after with
    | mk ms read =>
      obtain ⟨stop, after'⟩ := read
      rw [hread] at h
      cases h
      obtain ⟨rfl, hspells⟩ := ih.members hread ht
      exact hcs ▸ .object hspells
  case h_9 hcs =>
    split at h
    · obtain ⟨n, rfl⟩ := exists_number_of_readNumber h ht
      obtain ⟨front, hfront, hnumeral⟩ := numeral_of_readNumber h
      rw [hcs, hfront]
      exact .number hnumeral
    · cases h
      cases ht

theorem items_next (ih : Sound fuel) {ts : List Tree} {stop : Option Fault}
    (h : (let (item, mid) := readValue fuel cs
          let (items, stop, rest) := readItems fuel false mid
          (item :: items, stop, rest)) = (ts, stop, rest))
    (hts : skipItems ts stop = none) :
    stop = none ∧ ∃ item items mid, ts = item :: items ∧ Spells (.value item) cs mid ∧
      Spells (.items false items) mid rest := by
  cases hvalue : readValue fuel cs with
  | mk item mid =>
    cases hread : readItems fuel false mid with
    | mk items read =>
      obtain ⟨stop', rest'⟩ := read
      simp only [hvalue, hread] at h
      cases h
      rw [skipItems, Option.or_eq_none_iff] at hts
      obtain ⟨rfl, hitems⟩ := ih.items hread hts.2
      exact ⟨rfl, item, items, mid, rfl, ih.value hvalue hts.1, hitems⟩

theorem items_succ (ih : Sound fuel) {first : Bool} {ts : List Tree} {stop : Option Fault}
    (h : readItems (fuel + 1) first cs = (ts, stop, rest)) (hts : skipItems ts stop = none) :
    stop = none ∧ Spells (.items first ts) cs rest := by
  have hskip (hspells : Spells (.items first ts) (skipBlanks cs) rest) : Spells (.items first ts) cs rest :=
    .of_skipBlanks hspells
  rw [readItems] at h
  split at h
  case h_1 =>
    cases h
    cases hts
  case h_2 hcs =>
    cases h
    exact ⟨rfl, hskip (hcs ▸ .noItem)⟩
  case h_3 hcs =>
    split at h
    · cases h
      cases hts
    · next hfirst =>
      obtain rfl := Bool.eq_false_iff.mpr hfirst
      obtain ⟨rfl, item, items, mid, rfl, hitem, hitems⟩ := ih.items_next h hts
      exact ⟨rfl, hskip (hcs ▸ .nextItem hitem hitems)⟩
  case h_4 hcs =>
    split at h
    · next hfirst =>
      obtain rfl := hfirst
      obtain ⟨rfl, item, items, mid, rfl, hitem, hitems⟩ := ih.items_next h hts
      exact ⟨rfl, hskip (hcs ▸ .firstItem hitem hitems)⟩
    · cases h
      cases hts

/-- A member stands behind a comma unless it is the first. -/
theorem spells_members_of_quote {first : Bool} {c : Char} {after tail : List Char} {m : Except Fault String × Tree}
    {ms : List (Except Fault String × Tree)} (hcs : skipBlanks cs = c :: after) (hfirst : ¬ (c = ',' ∧ first = true))
    (hnext : ¬ (c ≠ ',' ∧ (!first) = true)) (hquote : skipBlanks (if c = ',' then after else c :: after) = '"' :: tail)
    (h : Spells (.members true (m :: ms)) ('"' :: tail) rest) : Spells (.members first (m :: ms)) cs rest := by
  refine .of_skipBlanks ?_
  cases first with
  | true =>
    have hc : c ≠ ',' := fun hc => hfirst ⟨hc, rfl⟩
    rw [if_neg hc, ← hcs, skipBlanks_skipBlanks] at hquote
    rwa [hquote]
  | false =>
    have hc : c = ',' := by
      by_contra hc
      exact hnext ⟨hc, rfl⟩
    rw [if_pos hc] at hquote
    obtain ⟨blanks, hsplit, hblanks⟩ := exists_blanks after
    rw [hcs, hc, hsplit, hquote]
    exact .nextMember hblanks h

theorem members_succ (ih : Sound fuel) {first : Bool} {ms : List (Except Fault String × Tree)} {stop : Option Fault}
    (h : readMembers (fuel + 1) first cs = (ms, stop, rest)) (hms : skipMembers ms stop = none) :
    stop = none ∧ Spells (.members first ms) cs rest := by
  -- two branches give no break: the closing brace, and a member with all of its parts
  rw [readMembers] at h
  split at h
  · cases h
    cases hms
  · next hcs =>
    cases h
    exact ⟨rfl, .of_skipBlanks (hcs ▸ .noMember)⟩
  next hcs =>
  split at h
  · cases h
    cases hms
  next hfirst =>
  split at h
  · cases h
    cases hms
  next hnext =>
  split at h
  · cases h
    cases hms
  swap
  · cases h
    cases hms
  next hquote =>
  split at h
  · cases h
    cases hms
  next hstring =>
  obtain ⟨text, rfl, hkey⟩ := quoted_of_readString hstring
  split at h
  · cases h
    cases hms
  swap
  · cases h
    cases hms
  next behind hcolon =>
  cases hvalue : readValue fuel behind with
  | mk value mid =>
    cases hread : readMembers fuel false mid with
    | mk members read =>
      obtain ⟨stop', rest'⟩ := read
      simp only [hvalue, hread] at h
      cases h
      rw [skipMembers, Option.or_eq_none_iff] at hms
      obtain ⟨rfl, hmembers⟩ := ih.members hread hms.2
      obtain ⟨blanks, hsplit, hblanks⟩ := exists_blanks _
      rw [hcolon] at hsplit
      rw [hsplit] at hquote
      exact ⟨rfl, spells_members_of_quote hcs hfirst hnext hquote
        (.firstMember hkey hblanks (ih.value hvalue hms.1) hmembers)⟩

theorem all (fuel : Nat) : Sound fuel := by
  induction fuel with
  | zero => exact zero
  | succ fuel ih => exact ⟨ih.value_succ, ih.items_succ, ih.members_succ⟩

end Sound

/-- What is spelled has no break. -/
def Part.Intact : Part → Prop
  | value t => t.skipFault = none
  | items _ ts => skipItems ts none = none
  | members _ ms => skipMembers ms none = none

theorem Spells.intact {p : Part} {cs rest : List Char} (h : Spells p cs rest) : p.Intact := by
  induction h with
  | blank _ _ ih | array _ ih | object _ ih | nextMember _ _ ih => exact ih
  | null | true | false | string | number | negative | noItem | noMember => rfl
  | firstItem _ _ hitem hitems | nextItem _ _ hitem hitems | firstMember _ _ _ _ hitem hitems =>
    exact Option.or_eq_none_iff.mpr ⟨hitem, hitems⟩

theorem skipBlanks_eq_nil_iff (cs : List Char) : skipBlanks cs = [] ↔ ∀ c ∈ cs, isBlank c = true :=
  List.dropWhile_eq_nil_iff

theorem Ends.of_blanks {rest : List Char} (h : ∀ c ∈ rest, isBlank c = true) : Ends rest := by
  cases rest with
  | nil => exact .nil
  | cons c rest => exact .of_blank (h c List.mem_cons_self) rest

/-- A text is read without a break, to its end, as the one tree that it spells. -/
theorem written_iff (t : Tree) (s : String) : Written t s ↔ Document.ofText s = ⟨t, false⟩ ∧ t.skipFault = none := by
  unfold Written Document.ofText
  cases hread : readValue (2 * s.toList.length + 2) s.toList with
  | mk root rest =>
    simp only [hread, Document.mk.injEq, Bool.not_eq_false', List.isEmpty_iff, skipBlanks_eq_nil_iff]
    constructor
    · rintro ⟨rest', hspells, hblanks⟩
      have hvalue := hspells.readFrom (.of_blanks hblanks) (2 * s.toList.length + 2) (by omega)
      obtain ⟨rfl, rfl⟩ := Prod.mk.inj (hread.symm.trans hvalue)
      exact ⟨⟨rfl, hblanks⟩, hspells.intact⟩
    · rintro ⟨⟨rfl, hblanks⟩, hintact⟩
      exact ⟨rest, (Sound.all _).value hread hintact, hblanks⟩

theorem bind_eq_ok_iff {α β : Type} {x : Except Fault α} {f : α → Except Fault β} {b : β} :
    x >>= f = .ok b ↔ ∃ a, x = .ok a ∧ f a = .ok b := by
  cases x with
  | error e => exact ⟨nofun, fun ⟨a, h, _⟩ => nomatch h⟩
  | ok a => exact ⟨fun h => ⟨a, rfl, h⟩, fun ⟨_, ha, h⟩ => Except.ok.inj ha ▸ h⟩

theorem map_eq_ok_iff {α β : Type} {x : Except Fault α} {f : α → β} {b : β} :
    f <$> x = .ok b ↔ ∃ a, x = .ok a ∧ f a = b := by
  cases x with
  | error e => exact ⟨nofun, fun ⟨a, h, _⟩ => nomatch h⟩
  | ok a => exact ⟨fun h => ⟨a, rfl, Except.ok.inj h⟩, fun ⟨_, ha, h⟩ => Except.ok.inj ha ▸ congrArg Except.ok h⟩

theorem Written.decodeText {t : Tree} {s : String} (h : Written t s) {α : Type} (decode : Decoder α) :
    decodeText decode s = decode depthLimit t := by
  obtain ⟨hread, -⟩ := (written_iff t s).mp h
  rw [Json.decodeText, hread]
  cases decode depthLimit t <;> rfl

end ScriptHost.Json
