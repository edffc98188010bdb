import ScriptHost.Proofs.CaseRun
import ScriptHost.Proofs.Expectation

/-! # Recorded runs pass

A report that is turned into the expectation of its own case is met again. The run does not look at what a case expects,
so it is the same run; and a report describes itself, because its numbers are numbers and its outcome names no part of a
message. -/

namespace ScriptHost

theorem Argument.Same.of_readsBack {a : Argument} (h : a.ReadsBack) : Same a a := by
  cases a with
  | nil => exact .nil
  | bool b => exact .bool b
  | text s => exact .text s
  | number x =>
    obtain ⟨d, hread⟩ := Json.ReadsBack.finite h
    exact .number (by rw [hread]; rfl)

namespace Case

/-- A case that expects what a report says. -/
def TestCase.recorded (case : TestCase) (report : Report) : TestCase :=
  { case with expectedCalls := report.calls, expectedOutcome := report.outcome }

variable {platform : Lua.Platform}

theorem run_recorded (folder : Folder) (case : TestCase) (report : Report) :
    run folder (case.recorded report) platform = run folder case platform := rfl

theorem fragment_of_run {folder : Folder} {case : TestCase} {report : Report} {log : List LogEvent}
    (h : run folder case platform = (.ok report, log)) : report.outcome.fragment = none := by
  unfold run at h
  split at h
  · cases h
  · next sources level _ =>
    rw [runAt_eq] at h
    cases h
    unfold outcomeOf
    split <;> rfl

theorem Outcome.describes_self {o : Outcome} (h : o.fragment = none) : o.Describes o where
  code := rfl
  message m hm := by rw [hm]; rfl
  fragment f hf := by rw [h] at hf; cases hf

theorem verdict_recorded {folder : Folder} {case : TestCase} {report : Report} {log : List LogEvent}
    (hrun : run folder case platform = (.ok report, log)) (hargs : ∀ c ∈ report.calls, ∀ a ∈ c.args, a.ReadsBack) :
    Verdict (case.recorded report) report (.ok ()) := by
  have hcalls : List.Forall₂ Call.Same report.calls report.calls := by
    refine List.forall₂_same.mpr fun c hc => ⟨rfl, List.forall₂_same.mpr fun a ha => ?_⟩
    exact .of_readsBack (hargs c hc a ha)
  exact .passes (Outcome.describes_self (fragment_of_run hrun)) hcalls

/-- A run is recorded in its own case, which is written among the sources of the run. That case passes. -/
theorem check_recorded {folder : Folder} {path : String} {case : TestCase} {report : Report} {log : List LogEvent}
    (hschema : case.schema = schemaVersion) (hcount : case.executions < 2 ^ 64)
    (hrun : run folder case platform = (.ok report, log)) (hargs : ∀ c ∈ report.calls, ∀ a ∈ c.args, a.ReadsBack)
    (hpath : Folder.extension? path ≠ some "lua") :
    check (folder.write path (case.recorded report).toJson.compact.toUTF8) path platform = (.ok (), log) := by
  have hread := readCase_write folder path (t := case.recorded report) hschema hcount hargs
  have hrerun : run (folder.write path (case.recorded report).toJson.compact.toUTF8) (case.recorded report) platform =
      (.ok report, log) := by
    rw [run_write folder _ hpath, run_recorded, hrun]
  obtain ⟨verdict, hcheck, hverdict⟩ := exists_verdict hread hrerun
  rw [hcheck, hverdict.unique (verdict_recorded hrun hargs)]

-- The script below hands over a value of every kind and then fails.

def failingFolder : Folder where
  files := [("main.lua", "app:note(0.1, nil, '0.1', true) error('not \"now\"', 0)".toUTF8)]

def failingCase : TestCase := { schema := schemaVersion, functions := [{ key := ⟨"app", "note"⟩ }] }

theorem check_recorded_failing :
    ∃ report log, run failingFolder failingCase = (.ok report, log) ∧ failingCase.executions < 2 ^ 64 ∧
      (∀ c ∈ report.calls, ∀ a ∈ c.args, a.ReadsBack) ∧ Folder.extension? "case.json" ≠ some "lua" ∧
      check (failingFolder.write "case.json" (failingCase.recorded report).toJson.compact.toUTF8) "case.json" =
        (.ok (), log) ∧
      report.calls.map (·.args.length) = [4] ∧
      report.outcome = { code := .runtimeError, message := some "not \"now\"" } := by
  have hpath : Folder.extension? "case.json" ≠ some "lua" := by decide +kernel
  have hran : (run failingFolder failingCase).1.toOption.any fun report =>
      decide (∀ c ∈ report.calls, ∀ a ∈ c.args, a.ReadsBack) && report.calls.map (·.args.length) == [4] &&
        report.outcome == { code := .runtimeError, message := some "not \"now\"" } := by
    decide +kernel
  cases hrun : run failingFolder failingCase with
  | mk result log =>
    cases result with
    | error error => simp [hrun, Except.toOption] at hran
    | ok report =>
      simp only [hrun, Except.toOption, Option.any_some, Bool.and_eq_true, decide_eq_true_eq, beq_iff_eq] at hran
      obtain ⟨⟨hargs, hlengths⟩, houtcome⟩ := hran
      have hpasses := check_recorded rfl (by decide) hrun hargs hpath
      exact ⟨report, log, rfl, by decide, hargs, hpath, hpasses, hlengths, houtcome⟩

end Case

end ScriptHost
