import ScriptHost.Proofs.Expectation
import ScriptHost.Proofs.WrittenDoubles

/-! # What is shown of two calls that differ

A mismatch shows both calls as JSON. Functions, texts, truth values and finite numbers are told apart by what is shown,
but nil and all that is no finite number are shown alike. So a mismatch can be seen unless the calls differ in such
arguments only. -/

namespace ScriptHost

namespace Json

theorem quotedTail_inj {s t : String} {rest rest' : List Char} (h : quotedTail s ++ rest = quotedTail t ++ rest') :
    s = t ∧ rest = rest' := by
  have hread := readString_quotedTail s rest
  rw [h, readString_quotedTail t rest'] at hread
  simp only [Except.ok.injEq, Prod.mk.injEq] at hread
  exact ⟨hread.1.symm, hread.2.symm⟩

theorem doubleText_finite {x : Float} {d : Decimal.Dyadic} (hx : Decimal.read x = .finite d) :
    doubleText x = doubleLayout.shortestText d := by
  rw [doubleText, hx]

theorem doubleText_inj {x y : Float} {d e : Decimal.Dyadic} (hx : Decimal.read x = .finite d)
    (hy : Decimal.read y = .finite e) (h : doubleText x = doubleText y) : d = e := by
  rw [doubleText_finite hx, doubleText_finite hy] at h
  exact Decimal.Layout.shortestText_inj (by decide) hx hy h

theorem head_doubleText {x : Float} {d : Decimal.Dyadic} (hx : Decimal.read x = .finite d) :
    ∃ c cs, (doubleText x).toList = c :: cs ∧ Decimal.IsFigure c := by
  rw [doubleText_finite hx, Decimal.Layout.shortestText, String.toList_ofList]
  split
  · exact ⟨'-', _, rfl, .inr (.inr (.inr (.inl rfl)))⟩
  · obtain ⟨c, cs, hbody, hc⟩ := Decimal.Layout.head_body (l := doubleLayout) d
    exact ⟨c, cs, hbody, .inl hc⟩

end Json

namespace Argument

/-- An argument for which there is no text but that of nil. -/
def Unwritten : Argument → Prop
  | nil => True
  | number x => ∀ d, Decimal.read x ≠ .finite d
  | _ => False

/-- Arguments of which the same is shown. -/
inductive Alike : Argument → Argument → Prop
  | unwritten {a b : Argument} (ha : a.Unwritten) (hb : b.Unwritten) : Alike a b
  | bool (b : Bool) : Alike (bool b) (bool b)
  | number {x y : Float} {d : Decimal.Dyadic} (hx : Decimal.read x = .finite d) (hy : Decimal.read y = .finite d) :
    Alike (number x) (number y)
  | text (s : String) : Alike (text s) (text s)

def shown (a : Argument) : List Char := a.toJson.compact.toList

theorem shown_text (s : String) : (text s).shown = '"' :: Json.quotedTail s := Json.toList_stringText s

theorem shown_unwritten {a : Argument} (h : a.Unwritten) : a.shown = ['n', 'u', 'l', 'l'] := by
  cases a with
  | nil => rfl
  | bool | text => exact h.elim
  | number x =>
    cases hx : Decimal.read x with
    | finite d => exact absurd hx (h d)
    | notANumber | infinite =>
      simp only [shown, toJson, Json.compact, Json.doubleText, hx]
      rfl

/-- The kinds of arguments by what is shown of them, each with the characters with which that begins. -/
inductive Kind : Argument → Char → Prop
  | unwritten {a : Argument} (ha : a.Unwritten) : Kind a 'n'
  | true : Kind (bool true) 't'
  | false : Kind (bool false) 'f'
  | number {x : Float} {d : Decimal.Dyadic} (hx : Decimal.read x = .finite d) {c : Char} (hc : Decimal.IsFigure c) :
    Kind (number x) c
  | text (s : String) : Kind (text s) '"'

theorem exists_kind (a : Argument) : ∃ c cs, a.shown = c :: cs ∧ Kind a c := by
  cases a with
  | nil => exact ⟨'n', _, rfl, .unwritten trivial⟩
  | bool b =>
    cases b with
    | true => exact ⟨'t', _, rfl, .true⟩
    | false => exact ⟨'f', _, rfl, .false⟩
  | text s => exact ⟨'"', _, shown_text s, .text s⟩
  | number x =>
    cases hx : Decimal.read x with
    | finite d =>
      obtain ⟨c, cs, hshown, hc⟩ := Json.head_doubleText hx
      exact ⟨c, cs, hshown, .number hx hc⟩
    | notANumber | infinite =>
      have hunwritten : (number x).Unwritten := by
        intro d hd
        rw [hx] at hd
        cases hd
      exact ⟨'n', _, shown_unwritten hunwritten, .unwritten hunwritten⟩

/-- What is shown tells the arguments apart but for those that have no text. -/
theorem shown_eq_iff (a b : Argument) : a.shown = b.shown ↔ Alike a b := by
  constructor
  · intro h
    obtain ⟨c, cs, ha, hkind⟩ := a.exists_kind
    obtain ⟨c', cs', hb, hkind'⟩ := b.exists_kind
    obtain ⟨rfl, -⟩ := List.cons.inj (ha.symm.trans (h.trans hb))
    cases hkind with
    | unwritten hunwritten =>
      cases hkind' with
      | unwritten hunwritten' => exact .unwritten hunwritten hunwritten'
      | number _ hc => exact absurd hc (by decide)
    | true =>
      cases hkind' with
      | true => exact .bool _
      | number _ hc => exact absurd hc (by decide)
    | false =>
      cases hkind' with
      | false => exact .bool _
      | number _ hc => exact absurd hc (by decide)
    | text s =>
      cases hkind' with
      | text t =>
        rw [shown_text, shown_text, List.cons.injEq] at h
        obtain ⟨rfl, -⟩ := Json.quotedTail_inj (congrArg (· ++ []) h.2)
        exact .text s
      | number _ hc => exact absurd hc (by decide)
    | number hx hc =>
      cases hkind' with
      | number hy =>
        obtain rfl := Json.doubleText_inj hx hy (String.toList_injective h)
        exact .number hx hy
      | unwritten | true | false | text => exact absurd hc (by decide)
  · intro h
    cases h with
    | unwritten ha hb => rw [shown_unwritten ha, shown_unwritten hb]
    | bool | text => rfl
    | number hx hy => simp only [shown, toJson, Json.compact, Json.doubleText_finite hx, Json.doubleText_finite hy]

theorem Alike.unwritten_of_not_same {a b : Argument} (h : Alike a b) (hdiffer : ¬ a.Same b) :
    a.Unwritten ∧ b.Unwritten := by
  cases h with
  | unwritten ha hb => exact ⟨ha, hb⟩
  | bool b => exact absurd (.bool b) hdiffer
  | text s => exact absurd (.text s) hdiffer
  | number hx hy => exact absurd (.number (by rw [hx, hy]; rfl)) hdiffer

/-- What stands behind an argument in a list. -/
def Follows (rest : List Char) : Prop := ∃ c cs, rest = c :: cs ∧ (c = ',' ∨ c = ']')

theorem plain_shown {a : Argument} (h : ∀ s, a ≠ text s) : ∀ c ∈ a.shown, c ≠ ',' ∧ c ≠ ']' := by
  by_cases hunwritten : a.Unwritten
  · rw [shown_unwritten hunwritten]
    simp
  · cases a with
    | nil => exact absurd trivial hunwritten
    | bool b => cases b <;> simp [shown, toJson, Json.compact]
    | text s => exact absurd rfl (h s)
    | number x =>
      cases hx : Decimal.read x with
      | finite d =>
        intro c hc
        rw [shown, toJson, Json.compact, Json.doubleText_finite hx] at hc
        have hfigure := Json.isFigure_of_mem_shortestText hc
        exact ⟨hfigure.ne (by decide) (by decide), hfigure.ne (by decide) (by decide)⟩
      | notANumber | infinite =>
        refine absurd ?_ hunwritten
        intro d hd
        rw [hx] at hd
        cases hd

theorem takeWhile_plain {cs rest : List Char} (hcs : ∀ c ∈ cs, c ≠ ',' ∧ c ≠ ']') (hrest : Follows rest) :
    (cs ++ rest).takeWhile (fun c => c ≠ ',' ∧ c ≠ ']') = cs := by
  obtain ⟨c, tail, rfl, hc⟩ := hrest
  have hstop : ¬ decide (c ≠ ',' ∧ c ≠ ']') = true := by
    rw [decide_eq_true_iff]
    tauto
  rw [List.takeWhile_append_of_pos fun c hc => decide_eq_true (hcs c hc), List.takeWhile_cons_of_neg (p := fun c => decide (c ≠ ',' ∧ c ≠ ']')) hstop,
    List.append_nil]

theorem exists_text_of_head {a : Argument} {cs : List Char} (h : a.shown = '"' :: cs) : ∃ s, a = text s := by
  obtain ⟨c, tail, hshown, hkind⟩ := a.exists_kind
  obtain ⟨rfl, -⟩ := List.cons.inj (hshown.symm.trans h)
  cases hkind with
  | text s => exact ⟨s, rfl⟩
  | number _ hc => exact absurd hc (by decide)

theorem exists_text_of_append {s : String} {b : Argument} {rest rest' : List Char}
    (h : (text s).shown ++ rest = b.shown ++ rest') : ∃ t, b = text t := by
  obtain ⟨c, cs, hb, -⟩ := b.exists_kind
  rw [shown_text, hb] at h
  obtain ⟨rfl, -⟩ := List.cons.inj h
  exact exists_text_of_head hb

/-- What is shown of an argument ends by itself. -/
theorem shown_append {a b : Argument} {rest rest' : List Char} (hrest : Follows rest) (hrest' : Follows rest')
    (h : a.shown ++ rest = b.shown ++ rest') : a.shown = b.shown ∧ rest = rest' := by
  by_cases ha : ∃ s, a = text s
  · obtain ⟨s, rfl⟩ := ha
    obtain ⟨t, rfl⟩ := exists_text_of_append h
    rw [shown_text, shown_text, List.cons_append, List.cons_append, List.cons.injEq] at h
    obtain ⟨rfl, rfl⟩ := Json.quotedTail_inj h.2
    exact ⟨rfl, rfl⟩
  · have hb : ∀ t, b ≠ text t := by
      rintro t rfl
      exact ha (exists_text_of_append h.symm)
    have htexts := congrArg (List.takeWhile fun c => decide (c ≠ ',' ∧ c ≠ ']')) h
    rw [takeWhile_plain (plain_shown (not_exists.mp ha)) hrest, takeWhile_plain (plain_shown hb) hrest'] at htexts
    rw [htexts] at h
    exact ⟨htexts, List.append_cancel_left h⟩

theorem follows_joinedTail (as : List Argument) (rest : List Char) :
    Follows (Json.joinedTail ']' (as.map shown) ++ rest) := by
  cases as with
  | nil => exact ⟨']', rest, rfl, .inr rfl⟩
  | cons a as => exact ⟨',', _, rfl, .inl rfl⟩

theorem joinedTail_inj {as bs : List Argument} {rest rest' : List Char}
    (h : Json.joinedTail ']' (as.map shown) ++ rest = Json.joinedTail ']' (bs.map shown) ++ rest') :
    List.Forall₂ Alike as bs := by
  induction as generalizing bs with
  | nil =>
    cases bs with
    | nil => exact .nil
    | cons b bs => cases h
  | cons a as ih =>
    cases bs with
    | nil => cases h
    | cons b bs =>
      simp only [List.map_cons, Json.joinedTail, List.cons_append, List.cons.injEq, true_and, List.append_assoc] at h
      obtain ⟨hhead, htail⟩ := shown_append (follows_joinedTail as rest) (follows_joinedTail bs rest') h
      exact .cons ((shown_eq_iff a b).mp hhead) (ih htail)

theorem shown_ne_bracket (a : Argument) (cs : List Char) : a.shown ≠ ']' :: cs := by
  intro h
  obtain ⟨c, tail, hshown, hkind⟩ := a.exists_kind
  obtain ⟨rfl, -⟩ := List.cons.inj (hshown.symm.trans h)
  cases hkind with
  | number _ hc => exact absurd hc (by decide)

theorem joined_inj {as bs : List Argument} {rest rest' : List Char}
    (h : Json.joined ']' (as.map shown) ++ rest = Json.joined ']' (bs.map shown) ++ rest') :
    List.Forall₂ Alike as bs := by
  cases as with
  | nil =>
    cases bs with
    | nil => exact .nil
    | cons b bs =>
      obtain ⟨c, cs, hb, -⟩ := b.exists_kind
      simp only [List.map_nil, List.map_cons, Json.joined, hb, List.cons_append, List.cons.injEq] at h
      exact absurd (h.1 ▸ hb) (shown_ne_bracket b _)
  | cons a as =>
    cases bs with
    | nil =>
      obtain ⟨c, cs, ha, -⟩ := a.exists_kind
      simp only [List.map_nil, List.map_cons, Json.joined, ha, List.cons_append, List.cons.injEq] at h
      exact absurd (h.1 ▸ ha) (shown_ne_bracket a _)
    | cons b bs =>
      simp only [List.map_cons, Json.joined, List.append_assoc] at h
      obtain ⟨hhead, htail⟩ := shown_append (follows_joinedTail as rest) (follows_joinedTail bs rest') h
      exact .cons ((shown_eq_iff a b).mp hhead) (joinedTail_inj htail)

end Argument

namespace Case

theorem Call.toList_compact (c : Call) : c.toJson.compact.toList =
    "\x7b\"namespace\":\"".toList ++ (Json.quotedTail c.key.space ++ (",\"name\":\"".toList ++
      (Json.quotedTail c.key.name ++ (",\"args\":[".toList ++
        (Json.joined ']' (c.args.map Argument.shown) ++ ['\x7d']))))) := by
  have hspace : Json.quotedTail "namespace" = "namespace\"".toList := by decide
  have hname : Json.quotedTail "name" = "name\"".toList := by decide
  have hargs : Json.quotedTail "args" = "args\"".toList := by decide
  have hstring (s : String) : (Json.string s).compact.toList = '"' :: Json.quotedTail s := Json.toList_stringText s
  have hshown : (fun v : Json => v.compact.toList) ∘ Argument.toJson = Argument.shown := rfl
  rw [toJson, Json.toList_compact_object]
  simp only [List.map_cons, List.map_nil, Json.joined, Json.joinedTail, Json.memberText, hspace, hname, hargs, hstring,
    Json.toList_compact_array, List.map_map, hshown]
  simp only [String.reduceToList, List.cons_append, List.nil_append]

/-- Of two calls the same is shown if they name one function and the same is shown of their arguments. -/
theorem Call.compact_eq_iff (c d : Call) :
    c.toJson.compact = d.toJson.compact ↔ c.key = d.key ∧ List.Forall₂ Argument.Alike c.args d.args := by
  constructor
  · intro h
    have htexts := congrArg String.toList h
    rw [toList_compact, toList_compact, List.append_right_inj] at htexts
    obtain ⟨hspace, htexts⟩ := Json.quotedTail_inj htexts
    rw [List.append_right_inj] at htexts
    obtain ⟨hname, htexts⟩ := Json.quotedTail_inj htexts
    rw [List.append_right_inj] at htexts
    have hkey : c.key = d.key := by
      rw [Key.mk.injEq]
      exact ⟨hspace, hname⟩
    exact ⟨hkey, Argument.joined_inj htexts⟩
  · rintro ⟨hkey, hargs⟩
    have hshown : c.args.map Argument.shown = d.args.map Argument.shown := by
      rw [← List.forall₂_eq_eq_eq, List.forall₂_map_left_iff, List.forall₂_map_right_iff]
      exact hargs.imp fun a b hab => (Argument.shown_eq_iff a b).mpr hab
    refine String.toList_injective ?_
    rw [toList_compact, toList_compact, hkey, hshown]

section

variable {folder : Folder} {index : Nat} {c d : Call}

theorem gather_ne_call (files : List (String × ByteArray)) (sources : Sources) :
    gather folder files sources ≠ .error (.call index c d) := by
  induction files generalizing sources with
  | nil =>
    intro h
    cases h
  | cons file files ih =>
    rw [gather]
    split
    · exact ih sources
    · split
      · intro h
        cases h
      · exact ih _

theorem readCase_ne_call (path : String) : readCase folder path ≠ .error (.call index c d) := by
  unfold readCase
  simp only [bind, Except.bind]
  cases folder.readText path with
  | error =>
    intro h
    cases h
  | ok text =>
    simp only
    cases TestCase.ofText text with
    | error =>
      intro h
      cases h
    | ok case =>
      simp only
      split <;> exact nofun

theorem readSources_ne_call : readSources folder ≠ .error (.call index c d) := by
  unfold readSources
  simp only [bind, Except.bind]
  cases hgather : gather folder folder.files [] with
  | error error =>
    intro h
    exact gather_ne_call _ _ (hgather.trans h)
  | ok sources =>
    simp only
    split <;> exact nofun

theorem levelOf_ne_call (case : TestCase) : levelOf case ≠ .error (.call index c d) := by
  unfold levelOf
  split
  · exact nofun
  · split <;> exact nofun

theorem runAt_ne_call (level : LogLevel) (sources : Sources) (case : TestCase) (platform : Lua.Platform) :
    (runAt level sources case platform).1 ≠ .error (.call index c d) := by
  unfold runAt
  simp only
  split
  · exact nofun
  · exact nofun

/-- Of all that can go wrong with a case only its verdict tells of a call. -/
theorem run_ne_call (case : TestCase) (platform : Lua.Platform) : (run folder case platform).1 ≠ .error (.call index c d) := by
  unfold run
  simp only [bind, Except.bind, pure, Except.pure]
  cases hsources : readSources folder with
  | error error =>
    rintro ⟨⟩
    exact readSources_ne_call hsources
  | ok sources =>
    cases hlevel : levelOf case with
    | error error =>
      rintro ⟨⟩
      exact levelOf_ne_call case hlevel
    | ok level => exact runAt_ne_call level sources case platform

theorem not_same_of_check {path : String} {platform : Lua.Platform}
    (h : (check folder path platform).1 = .error (.call index c d)) : ¬ c.Same d := by
  cases hread : readCase folder path with
  | error error =>
    simp only [check, hread, Except.error.injEq] at h
    exact absurd (h ▸ hread) (readCase_ne_call path)
  | ok case =>
    cases hrun : run folder case platform with
    | mk result log =>
      cases result with
      | error error =>
        simp only [check, hread, hrun, Except.error.injEq] at h
        exact absurd (congrArg Prod.fst (h ▸ hrun)) (run_ne_call case platform)
      | ok report =>
        obtain ⟨verdict, hcheck, hverdict⟩ := exists_verdict hread hrun
        obtain rfl : verdict = .error (.call index c d) := (congrArg Prod.fst hcheck).symm.trans h
        cases hverdict with
        | call _ _ hdifference => exact hdifference.differ

end

theorem exists_unwritten {as bs : List Argument} (h : List.Forall₂ Argument.Alike as bs)
    (hdiffer : ¬ List.Forall₂ Argument.Same as bs) : ∃ (i : Nat) (a b : Argument),
      as[i]? = some a ∧ bs[i]? = some b ∧ a.Unwritten ∧ b.Unwritten ∧ ¬ a.Same b := by
  induction h with
  | nil => exact absurd .nil hdiffer
  | @cons a b as bs hab _ ih =>
    by_cases hsame : a.Same b
    · have hrest : ¬ List.Forall₂ Argument.Same as bs := fun hrest => hdiffer (.cons hsame hrest)
      obtain ⟨i, a', b', ha, hb, hunwritten⟩ := ih hrest
      exact ⟨i + 1, a', b', ha, hb, hunwritten⟩
    · obtain ⟨ha, hb⟩ := hab.unwritten_of_not_same hsame
      exact ⟨0, a, b, rfl, rfl, ha, hb, hsame⟩

/-- A mismatch that is told can be seen, unless the two calls are of one function and differ only where each of them has
an argument without a text. -/
theorem check_call_shown {folder : Folder} {path : String} {platform : Lua.Platform} {index : Nat} {c d : Call}
    (h : (check folder path platform).1 = .error (.call index c d)) :
    (c.toJson.compact = d.toJson.compact ↔ c.key = d.key ∧ List.Forall₂ Argument.Alike c.args d.args) ∧
      (c.toJson.compact = d.toJson.compact → ∃ (i : Nat) (a b : Argument),
        c.args[i]? = some a ∧ d.args[i]? = some b ∧ a.Unwritten ∧ b.Unwritten ∧ ¬ a.Same b) := by
  refine ⟨c.compact_eq_iff d, ?_⟩
  intro hshown
  obtain ⟨hkey, hargs⟩ := (c.compact_eq_iff d).mp hshown
  exact exists_unwritten hargs fun hsame => not_same_of_check h ⟨hkey, hsame⟩

def tells (p : Nat → Call → Call → Bool) : Except Error Unit → Bool
  | .error (.call index c d) => p index c d
  | _ => false

theorem exists_call_of_tells {p : Nat → Call → Call → Bool} {result : Except Error Unit} (h : tells p result) :
    ∃ index c d, result = .error (.call index c d) ∧ p index c d := by
  unfold tells at h
  split at h
  · exact ⟨_, _, _, rfl, h⟩
  · cases h

def resultOf (case : TestCase) : Except Error Report → Except Error Unit
  | .error error => .error error
  | .ok report =>
    match disagreement? case report with
    | some error => .error error
    | none => .ok ()

theorem check_write (folder : Folder) {path : String} (hpath : Folder.extension? path ≠ some "lua") {case : TestCase}
    (hschema : case.schema = schemaVersion) (hcount : case.executions < 2 ^ 64)
    (hargs : ∀ c ∈ case.expectedCalls, ∀ a ∈ c.args, a.ReadsBack) (platform : Lua.Platform) :
    (check (folder.write path case.toJson.compact.toUTF8) path platform).1 =
      resultOf case (run folder case platform).1 := by
  rw [check, readCase_write folder path hschema hcount hargs]
  simp only [run_write folder _ hpath]
  cases run folder case platform with
  | mk result log =>
    cases result with
    | error error => rfl
    | ok report =>
      simp only [resultOf]
      cases disagreement? case report <;> rfl

def silentCase : TestCase where
  schema := schemaVersion
  functions := [{ key := .plain "f" }]
  expectedCalls := [⟨.plain "f", [.nil]⟩]

def silentFolder : Folder :=
  Folder.write { files := [("main.lua", "java:f(0/0)".toUTF8)] } "testcase.json" silentCase.toJson.compact.toUTF8

theorem tells_silent : tells (fun _ c d => c.toJson.compact == d.toJson.compact)
    (check silentFolder "testcase.json").1 := by
  rw [silentFolder, check_write _ (by decide +kernel) rfl (by decide) (by simp [silentCase, Argument.ReadsBack])]
  decide +kernel

theorem check_call_shown_silent : ∃ (index : Nat) (c d : Call),
    (check silentFolder "testcase.json").1 = .error (.call index c d) ∧
      (c.toJson.compact = d.toJson.compact ↔ c.key = d.key ∧ List.Forall₂ Argument.Alike c.args d.args) ∧
      ∃ (i : Nat) (a b : Argument),
        c.args[i]? = some a ∧ d.args[i]? = some b ∧ a.Unwritten ∧ b.Unwritten ∧ ¬ a.Same b := by
  obtain ⟨index, c, d, hcheck, htexts⟩ := exists_call_of_tells tells_silent
  obtain ⟨hshown, hunwritten⟩ := check_call_shown hcheck
  exact ⟨index, c, d, hcheck, hshown, hunwritten (beq_iff_eq.mp htexts)⟩

/-- Both calls are shown with null. -/
theorem check_call_hidden : ∃ (index : Nat) (c d : Call),
    (check silentFolder "testcase.json").1 = .error (.call index c d) ∧ c.toJson.compact = d.toJson.compact := by
  obtain ⟨index, c, d, hcheck, htexts⟩ := exists_call_of_tells tells_silent
  exact ⟨index, c, d, hcheck, beq_iff_eq.mp htexts⟩

end Case

end ScriptHost
