import ScriptHost.Location
import ScriptHost.Proofs.Numerals

/-! # Where a diagnostic points

A position opens with a bracket and a quote and closes with a mark: a quote, a bracket, a colon, digits, a colon. A
message has the position whose mark is the last one of its first line. So a chunk may contain whatever it likes, and the
position is its own as long as the text behind it has no mark; a mark there takes the position over. -/

namespace ScriptHost.Location

open Decimal (Denotes)

/-- One or more decimal digits, of any script. -/
def Digits (ds : List Char) : Prop := ds ≠ [] ∧ ∀ d ∈ ds, Text.isDigit d

def closing (ds : List Char) : List Char := '"' :: ']' :: ':' :: (ds ++ [':'])

/-- Behind the first characters of a line stands a mark with these digits. -/
def Closes (line before ds : List Char) : Prop := Digits ds ∧ before ++ closing ds <+: line

/-- No mark of the line starts further on. -/
structure ClosesLast (line before ds : List Char) : Prop where
  here : Closes line before ds
  last : ∀ other es, Closes line other es → other.length ≤ before.length

def Unclosed (line : List Char) : Prop := ∀ before ds, ¬ Closes line before ds

theorem isDigit_colon : Text.isDigit ':' = false := by decide +kernel

theorem takeWhile_digits {ds : List Char} (h : Digits ds) (rest : List Char) :
    (ds ++ ':' :: rest).takeWhile Text.isDigit = ds := by
  rw [List.takeWhile_append_of_pos h.2, List.takeWhile_cons_of_neg (by rw [isDigit_colon]; decide), List.append_nil]

theorem dropWhile_digits {ds : List Char} (h : Digits ds) (rest : List Char) :
    (ds ++ ':' :: rest).dropWhile Text.isDigit = ':' :: rest := by
  rw [List.dropWhile_append_of_pos h.2, List.dropWhile_cons_of_neg (by rw [isDigit_colon]; decide)]

theorem mark?_of_closes {line ds : List Char} (h : Closes line [] ds) : mark? line = some ds := by
  obtain ⟨hdigits, rest, rfl⟩ := h
  have hline : [] ++ closing ds ++ rest = '"' :: ']' :: ':' :: (ds ++ ':' :: rest) := by simp [closing]
  rw [hline]
  simp only [mark?, takeWhile_digits hdigits, dropWhile_digits hdigits]
  simp [hdigits.1]

theorem closes_of_mark? {line ds : List Char} (h : mark? line = some ds) : Closes line [] ds := by
  unfold mark? at h
  split at h
  · next rest =>
    simp only at h
    split at h
    · cases h
    next hmark =>
    rw [not_or, Decidable.not_not] at hmark
    cases h
    obtain ⟨tail, htail⟩ := List.head?_eq_some_iff.mp hmark.2
    refine ⟨⟨by simpa using hmark.1, fun d hd => List.all_eq_true.mp List.all_takeWhile d hd⟩, tail, ?_⟩
    simp only [closing, List.nil_append, List.cons_append, List.append_assoc]
    rw [← htail, List.takeWhile_append_dropWhile]
  · cases h

theorem mark?_eq_some_iff (line ds : List Char) : mark? line = some ds ↔ Closes line [] ds :=
  ⟨closes_of_mark?, mark?_of_closes⟩

theorem closes_cons {c b : Char} {line before ds : List Char} :
    Closes (c :: line) (b :: before) ds ↔ b = c ∧ Closes line before ds := by
  rw [Closes, Closes, List.cons_append, List.cons_prefix_cons]
  exact and_left_comm

theorem closes_append (front : List Char) {line before ds : List Char} :
    Closes (front ++ line) (front ++ before) ds ↔ Closes line before ds := by
  rw [Closes, Closes, List.append_assoc, List.prefix_append_right_inj]

theorem Closes.before_prefix {line before ds : List Char} (h : Closes line before ds) : before <+: line :=
  (List.prefix_append _ _).trans h.2

theorem not_closes_nil (before ds : List Char) : ¬ Closes [] before ds := by
  intro h
  have hnil := List.prefix_nil.mp h.2
  simp [closing] at hnil

/-- What closes a longer line far enough behind its front closes the rest of it. -/
theorem Closes.of_append {front line before ds : List Char} (h : Closes (front ++ line) before ds)
    (hlength : front.length ≤ before.length) : ∃ after, before = front ++ after ∧ Closes line after ds := by
  have hfront : front <+: before :=
    List.prefix_of_prefix_length_le (List.prefix_append _ _) h.before_prefix hlength
  obtain ⟨after, rfl⟩ := hfront
  exact ⟨after, rfl, (closes_append front).mp h⟩

theorem ClosesLast.cons {line before ds : List Char} (h : ClosesLast line before ds) (c : Char) :
    ClosesLast (c :: line) (c :: before) ds := by
  refine ⟨closes_cons.mpr ⟨rfl, h.here⟩, fun other es hother => ?_⟩
  cases other with
  | nil => exact Nat.zero_le _
  | cons b other =>
    have hle := h.last other es (closes_cons.mp hother).2
    simpa using hle

theorem ClosesLast.unique {line b c ds es : List Char} (h : ClosesLast line b ds) (k : ClosesLast line c es) :
    b = c ∧ ds = es := by
  have hlength : b.length = c.length := Nat.le_antisymm (k.last b ds h.here) (h.last c es k.here)
  have hsame : b = c :=
    (List.prefix_of_prefix_length_le h.here.before_prefix k.here.before_prefix (Nat.le_of_eq hlength)).eq_of_length
      hlength
  subst hsame
  obtain ⟨rest, rfl⟩ := h.here.before_prefix
  obtain ⟨hds, hes⟩ := And.intro h.here k.here
  rw [← List.append_nil b, List.append_assoc, closes_append, ← mark?_eq_some_iff] at hds hes
  exact ⟨rfl, Option.some.inj (hds.symm.trans hes)⟩

theorem lastMark?_cases (line : List Char) :
    (∃ before ds, lastMark? line = some (before, ds) ∧ ClosesLast line before ds) ∨
      (lastMark? line = none ∧ Unclosed line) := by
  induction line with
  | nil => exact Or.inr ⟨rfl, not_closes_nil⟩
  | cons c line ih =>
    rcases ih with ⟨before, ds, hfound, hlast⟩ | ⟨hnone, hunclosed⟩
    · exact Or.inl ⟨c :: before, ds, by rw [lastMark?, hfound], hlast.cons c⟩
    · have hstart {other es : List Char} (h : Closes (c :: line) other es) : other = [] := by
        cases other with
        | nil => rfl
        | cons b other => exact absurd (closes_cons.mp h).2 (hunclosed other es)
      cases hmark : mark? (c :: line) with
      | some ds =>
        refine Or.inl ⟨[], ds, by rw [lastMark?, hnone, hmark]; rfl, closes_of_mark? hmark, fun other es h => ?_⟩
        exact Nat.le_of_eq (congrArg List.length (hstart h))
      | none =>
        refine Or.inr ⟨by rw [lastMark?, hnone, hmark]; rfl, fun other es h => ?_⟩
        rw [hstart h, ← mark?_eq_some_iff, hmark] at h
        cases h

theorem lastMark?_eq_some_iff (line before ds : List Char) :
    lastMark? line = some (before, ds) ↔ ClosesLast line before ds := by
  rcases lastMark?_cases line with ⟨b, es, hfound, hlast⟩ | ⟨hnone, hunclosed⟩
  · rw [hfound, Option.some.injEq, Prod.mk.injEq]
    constructor
    · rintro ⟨rfl, rfl⟩
      exact hlast
    · exact hlast.unique
  · rw [hnone]
    exact ⟨nofun, fun h => absurd h.here (hunclosed before ds)⟩

theorem lastMark?_eq_none_iff (line : List Char) : lastMark? line = none ↔ Unclosed line := by
  rcases lastMark?_cases line with ⟨b, es, hfound, hlast⟩ | ⟨hnone, hunclosed⟩
  · rw [hfound]
    exact ⟨nofun, fun h => absurd hlast.here (h b es)⟩
  · exact ⟨fun _ => hunclosed, fun _ => hnone⟩

/-- Nothing is closed between two quotes. -/
theorem Closes.length_le {front line before ds : List Char} (h : Closes (front ++ line) before ds)
    (hquote : '"' ∉ front) : front.length ≤ before.length := by
  induction front generalizing before with
  | nil => exact Nat.zero_le _
  | cons c front ih =>
    rw [List.mem_cons, not_or] at hquote
    cases before with
    | nil => exact absurd (List.cons_prefix_cons.mp h.2).1 hquote.1
    | cons b before => exact Nat.succ_le_succ (ih (closes_cons.mp h).2 hquote.2)

theorem Digits.quote_notMem {ds : List Char} (h : Digits ds) : '"' ∉ ']' :: ':' :: (ds ++ [':']) := by
  have hquote : Text.isDigit '"' = false := by decide +kernel
  have hds : '"' ∉ ds := fun hmem => by simpa [hquote] using h.2 _ hmem
  simpa using hds

theorem Unclosed.cons {line : List Char} (h : Unclosed line) {c : Char} (hc : c ≠ '"') : Unclosed (c :: line) := by
  intro before ds hcloses
  cases before with
  | nil => exact hc (List.cons_prefix_cons.mp hcloses.2).1.symm
  | cons b before => exact h before ds (closes_cons.mp hcloses).2

theorem closesLast_append (front : List Char) {line before ds : List Char} :
    ClosesLast (front ++ line) (front ++ before) ds ↔ ClosesLast line before ds := by
  constructor
  · intro h
    refine ⟨(closes_append front).mp h.here, fun other es hother => ?_⟩
    have hle := h.last (front ++ other) es ((closes_append front).mpr hother)
    simpa using hle
  · intro h
    refine ⟨(closes_append front).mpr h.here, fun other es hother => ?_⟩
    rw [List.length_append]
    by_cases hlength : front.length ≤ other.length
    · obtain ⟨after, rfl, hafter⟩ := hother.of_append hlength
      rw [List.length_append]
      exact Nat.add_le_add_left (h.last after es hafter) _
    · omega

/-- The mark behind a chunk is the last one if the text behind it has none. -/
theorem closesLast_of_unclosed {chunk ds line : List Char} (hds : Digits ds) (hline : Unclosed line) :
    ClosesLast (chunk ++ (closing ds ++ line)) chunk ds := by
  have hhere : Closes (closing ds ++ line) [] ds := ⟨hds, List.prefix_append _ _⟩
  refine ⟨by rw [← closes_append chunk, List.append_nil] at hhere; exact hhere, fun other es hother => ?_⟩
  refine Nat.le_of_not_lt fun hlt => ?_
  obtain ⟨after, rfl, hafter⟩ := hother.of_append (Nat.le_of_lt hlt)
  cases after with
  | nil => simp at hlt
  | cons b after =>
    -- a mark further on starts with a quote, and the mark behind the chunk has no second one
    have hbehind := (closes_cons.mp hafter).2
    obtain ⟨rest, rfl, hrest⟩ := hbehind.of_append (hbehind.length_le hds.quote_notMem)
    exact hline rest es hrest

def firstLine (s : String) : List Char := s.toList.takeWhile (· ≠ '\n')

/-- A message starts with a position: its first line opens with the chunk, and the last mark of the line closes the chunk
and has the number of the line in ASCII digits. -/
def Heads (p : Location) (message : String) : Prop :=
  ∃ ds, ClosesLast (firstLine message) (opening ++ p.chunk.toList) ds ∧ Denotes ds p.line ∧ p.line ≤ 4294967295

theorem lineNumber?_eq_some_iff (ds : List Char) (l : Nat) :
    lineNumber? ds = some l ↔ Denotes ds l ∧ l ≤ 4294967295 := by
  rcases hrun : Decimal.digitRun 10 ds 0 0 with ⟨n, count, rest⟩
  simp only [lineNumber?, hrun, Option.ite_none_right_eq_some, Option.some.injEq, List.isEmpty_iff,
    Decimal.denotes_iff_of_digitRun hrun]
  constructor
  · rintro ⟨⟨hrest, hlt⟩, rfl⟩
    exact ⟨⟨hrest, rfl⟩, by omega⟩
  · rintro ⟨⟨hrest, rfl⟩, hle⟩
    exact ⟨⟨hrest, by omega⟩, rfl⟩

theorem ofMessage?_of_line {message : String} {line : List Char} (h : firstLine message = opening ++ line) :
    ofMessage? message = (lastMark? line).bind fun (chunk, ds) =>
      (lineNumber? ds).bind fun l => some ⟨String.ofList chunk, l⟩ := by
  have hopening : opening.isPrefixOf (opening ++ line) = true :=
    List.isPrefixOf_iff_prefix.mpr (List.prefix_append _ _)
  unfold firstLine at h
  simp only [ofMessage?, h, hopening, List.drop_left, if_neg (not_not_intro trivial)]
  rfl

theorem ofMessage?_of_not_opening {message : String} (h : ¬ opening <+: firstLine message) :
    ofMessage? message = none := by
  rw [← List.isPrefixOf_iff_prefix] at h
  unfold firstLine at h
  simp only [ofMessage?, if_pos h]
  rfl

theorem ofMessage?_eq_some_iff (message : String) (p : Location) : ofMessage? message = some p ↔ p.Heads message := by
  by_cases hopening : opening <+: firstLine message
  · obtain ⟨line, hline⟩ := hopening
    simp only [ofMessage?_of_line hline.symm, Option.bind_eq_some_iff, Option.some.injEq, Prod.exists,
      lastMark?_eq_some_iff, lineNumber?_eq_some_iff, Heads, ← hline, closesLast_append]
    constructor
    · rintro ⟨chunk, ds, hlast, l, hl, rfl⟩
      exact ⟨ds, by simpa using hlast, hl⟩
    · rintro ⟨ds, hlast, hl⟩
      exact ⟨p.chunk.toList, ds, hlast, p.line, hl, by rw [String.ofList_toList]⟩
  · rw [ofMessage?_of_not_opening hopening]
    constructor
    · nofun
    · rintro ⟨ds, hlast, -⟩
      exact absurd ((List.prefix_append _ _).trans hlast.here.before_prefix) hopening

theorem isDigit_of_ascii {c : Char} (h : c.isDigit) : Text.isDigit c := by
  obtain ⟨hlow, hhigh⟩ := Char.isDigit_iff_toNat.mp h
  have hzero : 0x30 ∈ Text.digitZeros := by simp [Text.digitZeros]
  refine Array.any_eq_true'.mpr ⟨0x30, hzero, ?_⟩
  simpa using ⟨hlow, hhigh⟩

theorem digits_toDigits (n : Nat) : Digits (Nat.toDigits 10 n) :=
  ⟨Nat.toDigits_ne_nil, fun d hd => isDigit_of_ascii ((Decimal.denotes_toDigits n).digits d hd)⟩

theorem newline_notMem_opening : '\n' ∉ opening := by decide +kernel

theorem Digits.newline_notMem {ds : List Char} (h : Digits ds) : '\n' ∉ closing ds := by
  have hnewline : Text.isDigit '\n' = false := by decide +kernel
  have hds : '\n' ∉ ds := fun hmem => by simpa [hnewline] using h.2 _ hmem
  simpa [closing] using hds

theorem toList_marked (c : String) (l : Nat) (d : String) :
    (s!"{c}\"]:{l}:{d}" : String).toList = c.toList ++ (closing (Nat.toDigits 10 l) ++ d.toList) := by
  have hmark : ("\"]:" : String).toList = ['"', ']', ':'] := rfl
  have hcolon : (":" : String).toList = [':'] := rfl
  change (c ++ "\"]:" ++ Nat.repr l ++ ":" ++ d).toList = _
  simp only [String.toList_append, Nat.toList_repr, hmark, hcolon, closing, List.append_assoc, List.cons_append,
    List.nil_append]

theorem toList_quoted (c : String) (l : Nat) (d : String) :
    (s!"[string \"{c}\"]:{l}:{d}" : String).toList =
      opening ++ c.toList ++ (closing (Nat.toDigits 10 l) ++ d.toList) := by
  have htext : s!"[string \"{c}\"]:{l}:{d}" = "[string \"" ++ s!"{c}\"]:{l}:{d}" := by
    simp only [String.append_assoc]
    rfl
  rw [htext, String.toList_append, toList_marked, List.append_assoc]
  rfl

/-- A message that opens with a chunk and a line number has them in its first line. -/
theorem firstLine_quoted {c : String} (hc : '\n' ∉ c.toList) (l : Nat) (d : String) :
    firstLine s!"[string \"{c}\"]:{l}:{d}" =
      opening ++ c.toList ++ (closing (Nat.toDigits 10 l) ++ firstLine d) := by
  have hline : ∀ x ∈ opening ++ c.toList ++ closing (Nat.toDigits 10 l), decide (x ≠ '\n') := by
    intro x hx
    rw [decide_eq_true_iff]
    rintro rfl
    rw [List.mem_append, List.mem_append] at hx
    rcases hx with (hx | hx) | hx
    · exact newline_notMem_opening hx
    · exact hc hx
    · exact (digits_toDigits l).newline_notMem hx
  rw [firstLine, toList_quoted, ← List.append_assoc, List.takeWhile_append_of_pos hline, List.append_assoc, firstLine]

section Quoted

variable {c d : String} {l : Nat}

theorem heads_of_unclosed (hc : '\n' ∉ c.toList) (hl : l ≤ 4294967295) (hd : Unclosed (firstLine d)) :
    Heads ⟨c, l⟩ s!"[string \"{c}\"]:{l}:{d}" := by
  refine ⟨Nat.toDigits 10 l, ?_, Decimal.denotes_toDigits l, hl⟩
  rw [firstLine_quoted hc]
  exact closesLast_of_unclosed (digits_toDigits l) hd

/-- A mark in the rest of the first line takes all that stands before it into the chunk. -/
theorem heads_iff_of_closesLast (hc : '\n' ∉ c.toList) {before ds : List Char}
    (hd : ClosesLast (firstLine d) before ds) (p : Location) :
    p.Heads s!"[string \"{c}\"]:{l}:{d}" ↔
      p.chunk = s!"{c}\"]:{l}:{String.ofList before}" ∧ Denotes ds p.line ∧ p.line ≤ 4294967295 := by
  have hlast : ClosesLast (firstLine s!"[string \"{c}\"]:{l}:{d}")
      (opening ++ (s!"{c}\"]:{l}:{String.ofList before}" : String).toList) ds := by
    rw [firstLine_quoted hc, toList_marked, String.toList_ofList, List.append_assoc, closesLast_append,
      closesLast_append, closesLast_append]
    exact hd
  constructor
  · rintro ⟨es, hp, hl⟩
    obtain ⟨hsame, rfl⟩ := hp.unique hlast
    exact ⟨String.toList_inj.mp (List.append_cancel_left hsame), hl⟩
  · rintro ⟨hsame, hl⟩
    exact ⟨ds, by rw [hsame]; exact hlast, hl⟩

theorem not_heads_of_closesLast (hc : '\n' ∉ c.toList) {before ds : List Char}
    (hd : ClosesLast (firstLine d) before ds) : ¬ Heads ⟨c, l⟩ s!"[string \"{c}\"]:{l}:{d}" := by
  rw [heads_iff_of_closesLast hc hd]
  rintro ⟨hchunk, -⟩
  have hlength := congrArg (fun s => s.toList.length) hchunk
  simp only [toList_marked, closing, List.length_append, List.length_cons] at hlength
  omega

end Quoted

/-- An error has the position that the last mark in the first line of its message closes, if the digits of this mark are
a line number, and has none otherwise. So a chunk and a line number in front of a text without a mark are found again,
whatever the chunk looks like. -/
theorem location?_eq_some_iff (e : ExecutionError) :
    (∀ p, e.location? = some p ↔ p.Heads e.message) ∧ ((∀ p : Location, ¬ p.Heads e.message) → e.location? = none) ∧
      ∀ (c detail : String) (l : Nat), '\n' ∉ c.toList → l ≤ 4294967295 → Unclosed (firstLine detail) →
        e.message = s!"[string \"{c}\"]:{l}: {detail}" → e.location? = some ⟨c, l⟩ := by
  have hheads (p : Location) : e.location? = some p ↔ p.Heads e.message := ofMessage?_eq_some_iff e.message p
  refine ⟨hheads, fun hnone => Option.eq_none_iff_forall_ne_some.mpr fun p hp => hnone p ((hheads p).mp hp), ?_⟩
  intro c detail l hc hl hdetail hmessage
  -- the blank in front of the detail is part of what follows the mark
  obtain ⟨rest, hrest⟩ : ∃ rest, rest = " " ++ detail := ⟨_, rfl⟩
  have htext : s!"[string \"{c}\"]:{l}: {detail}" = s!"[string \"{c}\"]:{l}:{rest}" := by
    have hcolon : (": " : String) = ":" ++ " " := rfl
    change _ ++ ": " ++ detail = _ ++ ":" ++ rest
    rw [hrest, hcolon, ← String.append_assoc, ← String.append_assoc]
  have hline : firstLine rest = ' ' :: firstLine detail := by
    rw [hrest, firstLine, String.toList_append]
    rfl
  rw [hheads, hmessage, htext]
  exact heads_of_unclosed hc hl (by rw [hline]; exact hdetail.cons (by decide))

/-- A chunk that looks like the end of a position. -/
theorem location?_eq_some_iff_lookalike :
    '\n' ∉ "a\"]:7:".toList ∧ 1 ≤ 4294967295 ∧ Unclosed (firstLine "boom\n\"]:5:") ∧
      (⟨.runtimeError, "[string \"a\"]:7:\"]:1: boom\n\"]:5:", none⟩ : ExecutionError).location? =
        some ⟨"a\"]:7:", 1⟩ := by
  have hchunk : '\n' ∉ "a\"]:7:".toList := by decide
  have hline : Unclosed (firstLine "boom\n\"]:5:") := (lastMark?_eq_none_iff _).mp (by decide +kernel)
  exact ⟨hchunk, by decide, hline, (location?_eq_some_iff _).2.2 _ _ 1 hchunk (by decide) hline rfl⟩

/-- The rest of a message decides: its first line has no mark, and the position is the one in front, or its last mark
counts instead. -/
theorem location?_of_quoted (e : ExecutionError) {c d : String} {l : Nat} (hc : '\n' ∉ c.toList)
    (hl : l ≤ 4294967295) (hmessage : e.message = s!"[string \"{c}\"]:{l}:{d}") :
    (e.location? = some ⟨c, l⟩ ↔ Unclosed (firstLine d)) ∧
      ∀ before ds, ClosesLast (firstLine d) before ds → ∀ p : Location, e.location? = some p ↔
        p.chunk = s!"{c}\"]:{l}:{String.ofList before}" ∧ Denotes ds p.line ∧ p.line ≤ 4294967295 := by
  have hheads (p : Location) : e.location? = some p ↔ p.Heads s!"[string \"{c}\"]:{l}:{d}" := by
    rw [← hmessage]
    exact ofMessage?_eq_some_iff e.message p
  refine ⟨?_, fun before ds hlast p => (hheads p).trans (heads_iff_of_closesLast hc hlast p)⟩
  rw [hheads]
  constructor
  · intro h
    rcases lastMark?_cases (firstLine d) with ⟨before, ds, -, hlast⟩ | ⟨-, hunclosed⟩
    · exact absurd h (not_heads_of_closesLast hc hlast)
    · exact hunclosed
  · exact heads_of_unclosed hc hl

/-- A script that raises an error again which it has caught from another one: the second position counts. -/
theorem location?_of_quoted_again :
    '\n' ∉ "error(e)".toList ∧ 1 ≤ 4294967295 ∧
      ClosesLast (firstLine " [string \"x()\"]:2: boom") " [string \"x()".toList ['2'] ∧
      (⟨.runtimeError, "[string \"error(e)\"]:1: [string \"x()\"]:2: boom", none⟩ : ExecutionError).location? =
        some ⟨"error(e)\"]:1: [string \"x()", 2⟩ := by
  have hchunk : '\n' ∉ "error(e)".toList := by decide
  have hmark : ClosesLast (firstLine " [string \"x()\"]:2: boom") " [string \"x()".toList ['2'] :=
    (lastMark?_eq_some_iff _ _ _).mp (by decide +kernel)
  have hlocation := (location?_of_quoted ⟨.runtimeError, "[string \"error(e)\"]:1: [string \"x()\"]:2: boom", none⟩
    (d := " [string \"x()\"]:2: boom") (l := 1) hchunk (by decide) rfl).2 _ _ hmark
  exact ⟨hchunk, by decide, hmark, (hlocation _).mpr ⟨rfl, Decimal.denotes_toDigits 2, by decide⟩⟩

/-- The position in front of a message is not the one that is found if the text behind it has a position as well. -/
theorem location?_not_leading :
    ¬ ∀ (e : ExecutionError) (c d : String) (l : Nat), '\n' ∉ c.toList → ¬ "\"]:".toList <:+: c.toList →
      l ≤ 4294967295 → e.message = s!"[string \"{c}\"]:{l}:{d}" → e.location? = some ⟨c, l⟩ := by
  intro h
  have hleading := h ⟨.runtimeError, "[string \"a()\"]:1: [string \"x()\"]:2: boom", none⟩ "a()"
    " [string \"x()\"]:2: boom" 1 (by decide) (by decide) (by decide) rfl
  have hfound : Location.ofMessage? "[string \"a()\"]:1: [string \"x()\"]:2: boom" =
      some ⟨"a()\"]:1: [string \"x()", 2⟩ := by decide +kernel
  exact absurd (hfound.symm.trans hleading) (by decide)

end ScriptHost.Location
