import ScriptHost.Case.Sources

/-! # Running a case

The helper scripts run once each, in the order of their paths, then the main script as often as the case says, up to the
first failure. What the run did is then held against what the case expects. -/

namespace ScriptHost.Case

structure Report where
  calls : List Call
  outcome : Outcome
  executions : Nat

def recorder : Host FunctionSpec (Array Call) where
  call spec args calls :=
    let answer :=
      match spec.error with
      | some error => .error error
      | none => .ok spec.result
    (answer, calls.push ⟨spec.key, args⟩)

abbrev CaseEngine := Engine FunctionSpec (Array Call)

def runHelpers : Sources → CaseEngine → Except ExecutionError Unit × CaseEngine
  | [], e => (.ok (), e)
  | (path, script) :: rest, e =>
    if path == mainScript then runHelpers rest e
    else
      match e.executeScript recorder script with
      | (.ok (), e) => runHelpers rest e
      | (.error error, e) => (.error error, e)

def prepare (sources : Sources) (e : CaseEngine) : Except ExecutionError Unit × CaseEngine :=
  match runHelpers sources e with
  | (.error error, e) => (.error error, e)
  | (.ok (), e) =>
    match sources.find? (·.1 == mainScript) with
    | some (_, script) => e.load script
    | none => (.ok (), e)

def repeatRun : Nat → Nat → CaseEngine → (Except ExecutionError Unit × Nat) × CaseEngine
  | 0, done, e => ((.ok (), done), e)
  | times + 1, done, e =>
    match e.execute recorder with
    | (.ok (), e) => repeatRun times (done + 1) e
    | (.error error, e) => ((.error error, done + 1), e)

def outcomeOf : Except ExecutionError Unit → Outcome
  | .ok () => {}
  | .error error => { code := error.code, message := some error.message }

def levelOf (case : TestCase) : Except Error LogLevel :=
  match case.logLevel with
  | none => .ok .off
  | some word =>
    match LogLevel.parse? word with
    | some level => .ok level
    | none => .error (.logLevel word)

def runAt (level : LogLevel) (sources : Sources) (case : TestCase) (platform : Lua.Platform := {}) :
    Except Error Report × List LogEvent :=
  let setup : Engine.Setup FunctionSpec :=
    { options := { logLevel := level }, functions := case.functions.map fun spec => (spec.key, spec), platform }
  match Engine.ofSetup recorder setup #[] with
  | (.error error, e) => (.error (.engine error), e.session.log.toList)
  | (.ok (), e) =>
    let ((result, executions), e) :=
      match prepare sources e with
      | (.ok (), e) => repeatRun case.executions 0 e
      | (.error error, e) => ((.error error, 0), e)
    let outcome := outcomeOf result
    let e := e.close recorder
    (.ok ⟨e.session.host.toList, outcome, executions⟩, e.session.log.toList)

def run (folder : Folder) (case : TestCase) (platform : Lua.Platform := {}) : Except Error Report × List LogEvent :=
  match (do return (← readSources folder, ← levelOf case) : Except Error (Sources × LogLevel)) with
  | .error error => (.error error, [])
  | .ok (sources, level) => runAt level sources case platform

def firstMismatch : Nat → List Call → List Call → Option Error
  | index, expected :: es, actual :: as =>
    if expected == actual then firstMismatch (index + 1) es as else some (.call index expected actual)
  | _, _, _ => none

def disagreement? (case : TestCase) (report : Report) : Option Error :=
  if !case.expectedOutcome.admits report.outcome.code (report.outcome.message.getD "") then
    some (.outcome case.expectedOutcome report.outcome)
  else if report.calls.length ≠ case.expectedCalls.length then
    some (.callCount case.expectedCalls.length report.calls)
  else firstMismatch 0 case.expectedCalls report.calls

def check (folder : Folder) (path : String) (platform : Lua.Platform := {}) : Except Error Unit × List LogEvent :=
  match readCase folder path with
  | .error error => (.error error, [])
  | .ok case =>
    match run folder case platform with
    | (.error error, log) => (.error error, log)
    | (.ok report, log) =>
      match disagreement? case report with
      | some error => (.error error, log)
      | none => (.ok (), log)

end ScriptHost.Case
