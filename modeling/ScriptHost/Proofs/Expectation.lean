import Mathlib.Data.List.Forall2
import Mathlib.Data.List.Infix
import ScriptHost.Proofs.CaseFile
import ScriptHost.Proofs.Doubles

/-! # Holding a report against a case

A report is as expected if its outcome is one that the case admits and its calls are the expected calls, one by one.
Otherwise exactly one difference is told: that of the outcome before that of the number of calls, and that before the
first call which differs. -/

namespace ScriptHost

namespace Argument

/-- Values that count as the same. A number that is none is not the same as anything. -/
inductive Same : Argument → Argument → Prop
  | nil : Same nil nil
  | bool (b : Bool) : Same (bool b) (bool b)
  | number {x y : Float} (h : (Decimal.read x).SameNumber (Decimal.read y)) : Same (number x) (number y)
  | text (s : String) : Same (text s) (text s)

theorem beq_iff_same (a b : Argument) : (a == b) = true ↔ Same a b := by
  change beq a b = true ↔ Same a b
  constructor
  · intro h
    cases a <;> cases b <;> simp only [beq, Bool.false_eq_true, beq_iff_eq] at h
    · exact .nil
    · exact h ▸ .bool _
    · exact .number ((Decimal.beq_iff _ _).mp h)
    · exact h ▸ .text _
  · rintro (_ | b | h | s)
    · rfl
    · exact beq_self_eq_true b
    · exact (Decimal.beq_iff _ _).mpr h
    · exact beq_self_eq_true s

theorem beq_list_iff_same (as bs : List Argument) : (as == bs) = true ↔ List.Forall₂ Same as bs := by
  induction as generalizing bs with
  | nil => cases bs <;> simp
  | cons a as ih =>
    cases bs with
    | nil => simp
    | cons b bs => rw [List.cons_beq_cons, Bool.and_eq_true, beq_iff_same, ih, List.forall₂_cons]

end Argument

namespace Case

/-- Calls of the same function with the same arguments. -/
structure Call.Same (c d : Call) : Prop where
  key : c.key = d.key
  args : List.Forall₂ Argument.Same c.args d.args

theorem Call.beq_iff_same (c d : Call) : (c == d) = true ↔ c.Same d := by
  have hparts : (c == d) = (c.key == d.key && c.args == d.args) := rfl
  rw [hparts, Bool.and_eq_true, beq_iff_eq, Argument.beq_list_iff_same]
  exact ⟨fun h => ⟨h.1, h.2⟩, fun h => ⟨h.key, h.args⟩⟩

theorem occursIn_iff (part cs : List Char) : occursIn part cs = true ↔ part <:+: cs := by
  induction cs with
  | nil => simp [occursIn]
  | cons c cs ih => rw [occursIn, Bool.or_eq_true, ih, List.isPrefixOf_iff_prefix, List.infix_cons_iff]

/-- What an outcome has to be: its code is given, and of its message nothing, all, or a part. -/
structure Outcome.Describes (expected actual : Outcome) : Prop where
  code : actual.code = expected.code
  message : ∀ m, expected.message = some m → actual.message.getD "" = m
  fragment : ∀ f, expected.fragment = some f → f.toList <:+: (actual.message.getD "").toList

theorem Outcome.admits_iff (expected actual : Outcome) :
    expected.admits actual.code (actual.message.getD "") = true ↔ expected.Describes actual := by
  simp only [admits, Bool.and_eq_true, beq_iff_eq, Option.all_eq_true, occursIn_iff]
  constructor
  · rintro ⟨⟨hcode, hmessage⟩, hfragment⟩
    exact ⟨hcode.symm, fun m hm => (hmessage m hm).symm, hfragment⟩
  · intro h
    exact ⟨⟨h.code.symm, fun m hm => (h.message m hm).symm⟩, h.fragment⟩

/-- The place where two lists of calls part, with the calls that stand there. -/
structure FirstDifference (cs ds : List Call) (index : Nat) (c d : Call) : Prop where
  left : cs[index]? = some c
  right : ds[index]? = some d
  differ : ¬ c.Same d
  earlier : ∀ j < index, ∀ c' d' : Call, cs[j]? = some c' → ds[j]? = some d' → c'.Same d'

theorem FirstDifference.cons {c d c' d' : Call} {cs ds : List Call} {index : Nat} (hsame : c'.Same d')
    (h : FirstDifference cs ds index c d) : FirstDifference (c' :: cs) (d' :: ds) (index + 1) c d where
  left := h.left
  right := h.right
  differ := h.differ
  earlier j hj a b ha hb := by
    cases j with
    | zero =>
      cases ha
      cases hb
      exact hsame
    | succ j => exact h.earlier j (Nat.lt_of_succ_lt_succ hj) a b ha hb

theorem FirstDifference.index_unique {cs ds : List Call} {i j : Nat} {c d c' d' : Call}
    (hi : FirstDifference cs ds i c d) (hj : FirstDifference cs ds j c' d') : i = j := by
  rcases Nat.lt_trichotomy i j with hlt | heq | hlt
  · exact absurd (hj.earlier i hlt c d hi.left hi.right) hi.differ
  · exact heq
  · exact absurd (hi.earlier j hlt c' d' hj.left hj.right) hj.differ

theorem firstMismatch_cases {cs ds : List Call} (hlength : ds.length = cs.length) (start : Nat) :
    (firstMismatch start cs ds = none ∧ List.Forall₂ Call.Same cs ds) ∨
      ∃ index c d, firstMismatch start cs ds = some (.call (start + index) c d) ∧ FirstDifference cs ds index c d := by
  induction cs generalizing ds start with
  | nil =>
    rw [List.length_eq_zero_iff.mp hlength]
    exact Or.inl ⟨rfl, .nil⟩
  | cons c cs ih =>
    obtain ⟨d, ds, rfl⟩ := List.exists_cons_of_length_eq_add_one hlength
    by_cases hsame : c.Same d
    · have hnext : firstMismatch start (c :: cs) (d :: ds) = firstMismatch (start + 1) cs ds := by
        rw [firstMismatch, if_pos ((Call.beq_iff_same c d).mpr hsame)]
      rw [hnext]
      rcases ih (Nat.succ.inj hlength) (start + 1) with ⟨hnone, hrest⟩ | ⟨index, c', d', hsome, hdifference⟩
      · exact Or.inl ⟨hnone, .cons hsame hrest⟩
      · refine Or.inr ⟨index + 1, c', d', ?_, hdifference.cons hsame⟩
        rw [hsome, Nat.add_right_comm, Nat.add_assoc]
    · refine Or.inr ⟨0, c, d, ?_, rfl, rfl, hsame, fun j hj => absurd hj (Nat.not_lt_zero j)⟩
      rw [firstMismatch, if_neg (mt (Call.beq_iff_same c d).mp hsame)]
      rfl

/-- What is told of a report, by the first thing that is not as expected. -/
inductive Verdict (case : TestCase) (report : Report) : Except Error Unit → Prop
  | passes (houtcome : case.expectedOutcome.Describes report.outcome)
    (hcalls : List.Forall₂ Call.Same case.expectedCalls report.calls) : Verdict case report (.ok ())
  | outcome (houtcome : ¬ case.expectedOutcome.Describes report.outcome) :
    Verdict case report (.error (.outcome case.expectedOutcome report.outcome))
  | callCount (houtcome : case.expectedOutcome.Describes report.outcome)
    (hlength : report.calls.length ≠ case.expectedCalls.length) :
    Verdict case report (.error (.callCount case.expectedCalls.length report.calls))
  | call {index : Nat} {c d : Call} (houtcome : case.expectedOutcome.Describes report.outcome)
    (hlength : report.calls.length = case.expectedCalls.length)
    (hdifference : FirstDifference case.expectedCalls report.calls index c d) :
    Verdict case report (.error (.call index c d))

theorem verdict_ok_iff (case : TestCase) (report : Report) :
    Verdict case report (.ok ()) ↔ case.expectedOutcome.Describes report.outcome ∧
      List.Forall₂ Call.Same case.expectedCalls report.calls := by
  constructor
  · rintro ⟨houtcome, hcalls⟩
    exact ⟨houtcome, hcalls⟩
  · rintro ⟨houtcome, hcalls⟩
    exact .passes houtcome hcalls

theorem FirstDifference.not_forall {cs ds : List Call} {index : Nat} {c d : Call}
    (h : FirstDifference cs ds index c d) : ¬ List.Forall₂ Call.Same cs ds := by
  intro hsame
  obtain ⟨hexpected, hc⟩ := List.getElem?_eq_some_iff.mp h.left
  obtain ⟨hactual, hd⟩ := List.getElem?_eq_some_iff.mp h.right
  have hat := hsame.get hexpected hactual
  rw [List.get_eq_getElem, List.get_eq_getElem, hc, hd] at hat
  exact h.differ hat

theorem Verdict.unique {case : TestCase} {report : Report} {v w : Except Error Unit} (hv : Verdict case report v)
    (hw : Verdict case report w) : v = w := by
  cases hv with
  | passes houtcome hcalls =>
    cases hw with
    | passes => rfl
    | outcome hnot => exact absurd houtcome hnot
    | callCount _ hlength => exact absurd hcalls.length_eq.symm hlength
    | call _ _ hdifference => exact absurd hcalls hdifference.not_forall
  | outcome hnot =>
    cases hw with
    | outcome => rfl
    | passes houtcome | callCount houtcome | call houtcome => exact absurd houtcome hnot
  | callCount houtcome hlength =>
    cases hw with
    | callCount => rfl
    | passes _ hcalls => exact absurd hcalls.length_eq.symm hlength
    | outcome hnot => exact absurd houtcome hnot
    | call _ hlength' => exact absurd hlength' hlength
  | call houtcome hlength hdifference =>
    cases hw with
    | passes _ hcalls => exact absurd hcalls hdifference.not_forall
    | outcome hnot => exact absurd houtcome hnot
    | callCount _ hlength' => exact absurd hlength hlength'
    | call _ _ hdifference' =>
      obtain rfl := hdifference.index_unique hdifference'
      have hc := hdifference.left.symm.trans hdifference'.left
      have hd := hdifference.right.symm.trans hdifference'.right
      cases hc
      cases hd
      rfl

/-- The difference that is told is the verdict. -/
theorem verdict_disagreement (case : TestCase) (report : Report) :
    Verdict case report (match disagreement? case report with | some error => .error error | none => .ok ()) := by
  unfold disagreement?
  by_cases houtcome : case.expectedOutcome.Describes report.outcome
  · rw [(Outcome.admits_iff _ _).mpr houtcome]
    by_cases hlength : report.calls.length = case.expectedCalls.length
    · rcases firstMismatch_cases hlength 0 with ⟨hnone, hcalls⟩ | ⟨index, c, d, hsome, hdifference⟩
      · simp only [Bool.not_true, Bool.false_eq_true, if_false, hlength, ne_eq, not_true, hnone]
        exact .passes houtcome hcalls
      · simp only [Bool.not_true, Bool.false_eq_true, if_false, hlength, ne_eq, not_true, hsome, Nat.zero_add]
        exact .call houtcome hlength hdifference
    · simp only [Bool.not_true, Bool.false_eq_true, if_false, ne_eq, hlength, not_false_eq_true, if_true]
      exact .callCount houtcome hlength
  · rw [Bool.eq_false_iff.mpr (mt (Outcome.admits_iff _ _).mp houtcome)]
    exact .outcome houtcome

variable {platform : Lua.Platform}

theorem exists_verdict {folder : Folder} {path : String} {case : TestCase} {report : Report} {log : List LogEvent}
    (hread : readCase folder path = .ok case) (hrun : run folder case platform = (.ok report, log)) :
    ∃ verdict, check folder path platform = (verdict, log) ∧ Verdict case report verdict := by
  refine ⟨_, ?_, verdict_disagreement case report⟩
  simp only [check, hread, hrun]
  cases disagreement? case report <;> rfl

/-- A case that can be read and run passes exactly if its outcome is as described and the calls are the expected ones,
one by one; whatever it ends with is the verdict on its report, which is the only one. -/
theorem check_verdict {folder : Folder} {path : String} {case : TestCase} {report : Report} {log : List LogEvent}
    (hread : readCase folder path = .ok case) (hrun : run folder case platform = (.ok report, log)) :
    ((check folder path platform).1 = .ok () ↔ case.expectedOutcome.Describes report.outcome ∧
        List.Forall₂ Call.Same case.expectedCalls report.calls) ∧
      (∀ verdict, (check folder path platform).1 = verdict ↔ Verdict case report verdict) ∧
      (check folder path platform).2 = log := by
  obtain ⟨verdict, hcheck, hverdict⟩ := exists_verdict hread hrun
  have hiff (other : Except Error Unit) : verdict = other ↔ Verdict case report other := by
    constructor
    · rintro rfl
      exact hverdict
    · exact hverdict.unique
  rw [hcheck]
  exact ⟨(hiff (.ok ())).trans (verdict_ok_iff case report), hiff, rfl⟩

-- The second call of the script below has an argument that is no number, which no case can expect.

def dividingFolder : Folder where
  files := [("main.lua", "app:note(true) app:note(0/0)".toUTF8)]

def dividingCase : TestCase where
  schema := schemaVersion
  functions := [{ key := ⟨"app", "note"⟩ }]
  expectedCalls := [⟨⟨"app", "note"⟩, [.bool true]⟩, ⟨⟨"app", "note"⟩, [.nil]⟩]

/-- The case fails, though the calls are as many as it expects. -/
theorem check_verdict_dividing :
    let folder := dividingFolder.write "case.json" dividingCase.toJson.compact.toUTF8
    ∃ report log, readCase folder "case.json" = .ok dividingCase ∧ run folder dividingCase = (.ok report, log) ∧
      ((check folder "case.json").1 = .ok () ↔ dividingCase.expectedOutcome.Describes report.outcome ∧
        List.Forall₂ Call.Same dividingCase.expectedCalls report.calls) ∧
      (∀ verdict, (check folder "case.json").1 = verdict ↔ Verdict dividingCase report verdict) ∧
      (check folder "case.json").2 = log ∧
      report.calls.length = dividingCase.expectedCalls.length ∧ (check folder "case.json").1 ≠ .ok () := by
  have hpath : Folder.extension? "case.json" ≠ some "lua" := by decide +kernel
  have hread : readCase (dividingFolder.write "case.json" dividingCase.toJson.compact.toUTF8) "case.json" =
      .ok dividingCase :=
    readCase_write dividingFolder "case.json" rfl (by decide) (by simp [dividingCase, Argument.ReadsBack])
  have hran : (run dividingFolder dividingCase).1.toOption.any fun report =>
      report.calls.length == dividingCase.expectedCalls.length && (disagreement? dividingCase report).isSome := by
    decide +kernel
  cases hrun : run dividingFolder dividingCase with
  | mk result log =>
    cases result with
    | error error => simp [hrun, Except.toOption] at hran
    | ok report =>
      simp only [hrun, Except.toOption, Option.any_some, Bool.and_eq_true, beq_iff_eq] at hran
      obtain ⟨error, herror⟩ := Option.isSome_iff_exists.mp hran.2
      have hwritten := (run_write dividingFolder dividingCase.toJson.compact.toUTF8 hpath dividingCase {}).trans hrun
      obtain ⟨hpasses, hverdict, hlog⟩ := check_verdict hread hwritten
      have htold := verdict_disagreement dividingCase report
      rw [herror] at htold
      have hfails : (check (dividingFolder.write "case.json" dividingCase.toJson.compact.toUTF8) "case.json").1 ≠ .ok () := by
        rw [(hverdict _).mpr htold]
        exact nofun
      exact ⟨report, log, hread, hwritten, hpasses, hverdict, hlog, hran.1, hfails⟩

end Case

end ScriptHost
