import ScriptHost.Proofs.LastError
import ScriptHost.Proofs.Provenance

/-! # The codes that an engine answers with

An operation answers only with some of the codes. A report of a run goes by the message handler, unless the object that
escaped is one of the host; but all of those stand for errors of the dispatcher, which are guest faults. -/

namespace ScriptHost

open Lua (Value GuestError Machine Interpreter Chunk Watched lastEscape)

variable {α σ : Type}

namespace Dispatch

theorem code_of_run_error {host : Host α σ} {s t : Session α σ} {frame : List Value} {error : GuestError}
    (h : run host s frame = (.error error, t)) : error.toExecutionError.code = .runtimeError := by
  rcases run_error_cases h with ⟨message, rfl, -⟩ | ⟨f, rfl, -⟩
  · rfl
  · rfl

end Dispatch

namespace Engine

theorem code_of_mem_raised (host : Host α σ) (fuel : Nat) (s : Session α σ) (m : Machine) :
    ∀ p ∈ raised host fuel s m, p.2.toExecutionError.code = .runtimeError := by
  refine drive_induction (P := fun _ _ rs => ∀ p ∈ rs, p.2.toExecutionError.code = .runtimeError)
    (fun h => h) (fun h _ => h) (fun h hrun p hp => ?_) fuel s m [] (fun p hp => nomatch hp)
  rcases List.mem_append.mp hp with hp | hp
  · exact h p hp
  · rw [List.mem_singleton.mp hp]
    exact Dispatch.code_of_run_error hrun

theorem code_of_mem_raisedAt (host : Host α σ) (fuel : Nat) (e : Engine α σ) (op : Operation α) :
    ∀ p ∈ op.raisedAt host fuel e, p.2.toExecutionError.code = .runtimeError := by
  intro p hp
  unfold Operation.raisedAt at hp
  split at hp
  · exact code_of_mem_raised host fuel _ _ p hp
  · cases hp

theorem Event.codeOf_toResult (r : ExecutionError) : codeOf r.toResult = r.code := by
  by_cases hcode : r.code = .ok
  · rw [hcode]
    simp [ExecutionError.toResult, hcode, ReturnCode.isOk, codeOf]
  · rw [ExecutionError.toResult_of_ne hcode]
    rfl

def Attributed (e : Engine α σ) : Prop :=
  ∃ rs, Backed e.interpreter.vault.errors rs ∧ ∀ p ∈ rs, p.2.toExecutionError.code = .runtimeError

namespace Attributed

variable {e : Engine α σ}

theorem create (options : EngineOptions) (world : σ) (platform : Lua.Platform) :
    Attributed (create options world platform : Engine α σ) := by
  refine ⟨[], ?_, fun p hp => nomatch hp⟩
  rw [errors_create]
  exact .empty

theorem apply (h : Attributed e) (host : Host α σ) (op : Operation α) : Attributed (op.apply host e) := by
  obtain ⟨rs, hbacked, hrs⟩ := h
  refine ⟨rs ++ op.raisedAt host stepLimit e, hbacked.apply op, fun p hp => ?_⟩
  rcases List.mem_append.mp hp with hp | hp
  · exact hrs p hp
  · exact code_of_mem_raisedAt host stepLimit e op p hp

theorem object (h : Attributed e) {r : Nat} {error : GuestError} (hr : e.interpreter.vault.errors[r]? = some error) :
    error.toExecutionError.code = .runtimeError := by
  obtain ⟨rs, hbacked, hrs⟩ := h
  obtain ⟨traceback, cause, rfl, -⟩ := hbacked.layered r error hr
  -- the layer of the call does not show in the report
  have hmem : (Value.error r, cause) ∈ rs := (hbacked.objects _ _).mpr ⟨r, traceback, rfl, hr⟩
  rw [GuestError.toExecutionError_callback]
  exact hrs _ hmem

end Attributed

end Engine

/-- The codes of a run, by whether it succeeded and whether the message handler was called. -/
inductive RunCode (succeeded handled : Prop) : ReturnCode → Prop
  | ok (hsucceeded : succeeded) : RunCode succeeded handled .ok
  | runtimeError (hfailed : ¬ succeeded) : RunCode succeeded handled .runtimeError
  | memoryError (hfailed : ¬ succeeded) (hmissed : ¬ handled) : RunCode succeeded handled .memoryError
  | internalError (hfailed : ¬ succeeded) (hmissed : ¬ handled) : RunCode succeeded handled .internalError

namespace RunCode

variable {succeeded handled : Prop} {code : ReturnCode}

theorem ok_iff (h : RunCode succeeded handled code) : code = .ok ↔ succeeded := by
  cases h with
  | ok hsucceeded => exact ⟨fun _ => hsucceeded, fun _ => rfl⟩
  | runtimeError hfailed | memoryError hfailed | internalError hfailed =>
    exact ⟨(fun hok => nomatch hok), fun hsucceeded => absurd hsucceeded hfailed⟩

theorem not_handled (h : RunCode succeeded handled code) (hcode : code = .internalError) : ¬ handled := by
  subst hcode
  cases h with
  | internalError _ hmissed => exact hmissed

theorem mem (h : RunCode succeeded handled code) :
    code ∈ [ReturnCode.ok, .runtimeError, .memoryError, .internalError] := by
  cases h <;> decide

end RunCode

theorem RunOutcome.record_runCode {errors : Nat → Option GuestError}
    (herrors : ∀ r error, errors r = some error → error.toExecutionError.code = .runtimeError) {succeeded : Prop}
    (hfailed : ¬ succeeded) (handled : Bool) (v : Value) :
    RunCode succeeded (handled = true) (record errors false handled v).code := by
  -- what does not stand for an error of the host is told by the handler, and by the message if that was missed
  have hplain (message : String) : RunCode succeeded (handled = true)
      (if handled then .runtimeError else if message = handlerFailure then .internalError else .memoryError) := by
    cases handled with
    | true => exact .runtimeError hfailed
    | false =>
      by_cases hmessage : message = handlerFailure
      · rw [if_neg Bool.false_ne_true, if_pos hmessage]
        exact .internalError hfailed Bool.false_ne_true
      · rw [if_neg Bool.false_ne_true, if_neg hmessage]
        exact .memoryError hfailed Bool.false_ne_true
  cases v with
  | error r =>
    cases herror : errors r with
    | none =>
      simp only [record, Bool.false_eq_true, if_false, herror, ExecutionError.code_ofRaw]
      exact hplain _
    | some error =>
      simp only [record, Bool.false_eq_true, if_false, herror, herrors r error herror]
      exact .runtimeError hfailed
  | _ =>
    simp only [record, Bool.false_eq_true, if_false, ExecutionError.code_ofRaw]
    exact hplain _

namespace Engine

theorem endingOf_handled (m : Machine) : (Interpreter.endingOf m).handled = m.trapped := by
  unfold Interpreter.endingOf
  split <;> rfl

/-- A machine ends well if it is done and no error escaped. -/
theorem endingOf_ok_iff {last : Option Lua.Raised} {m : Machine} (h : Watched last m) :
    (Interpreter.endingOf m).ok = true ↔ (∃ outcome, m.control = .done outcome) ∧ last = none := by
  unfold Interpreter.endingOf
  cases hcontrol : m.control with
  | done outcome =>
    obtain ⟨vs, rfl, htold⟩ := h.stage.told hcontrol
    rcases htold with ⟨rfl, rest, rfl⟩ | ⟨r, rfl, rfl⟩
    · simp
    · simp
  | _ => simp

/-- A run from a start comes to its end, and no error escapes in it. -/
def Finishes (host : Host α σ) (s : Session α σ) (m : Machine) : Prop :=
  (∃ outcome, (drive host stepLimit s m).2.control = .done outcome) ∧ lastEscape (trace host stepLimit s m) = none

def Handles (host : Host α σ) (s : Session α σ) (m : Machine) : Prop := ∃ m' ∈ trace host stepLimit s m, m'.springs

theorem recordOf_runCode {m : Machine} {last : Option Lua.Raised} (h : Watched last m)
    (herrors : ∀ (r : Nat) (error : GuestError), m.vault.errors[r]? = some error →
      error.toExecutionError.code = .runtimeError) :
    RunCode ((∃ outcome, m.control = .done outcome) ∧ last = none) (m.trapped = true) (recordOf m).code := by
  unfold recordOf
  simp only [endingOf_handled]
  cases hok : (Interpreter.endingOf m).ok with
  | true =>
    have hcode : (RunOutcome.record (fun r => m.vault.errors[r]?) true m.trapped (Interpreter.endingOf m).object).code =
        .ok := ExecutionError.code_ofRaw .ok ""
    rw [hcode]
    exact .ok ((endingOf_ok_iff h).mp hok)
  | false =>
    have hfailed := (endingOf_ok_iff h).not.mp (ne_true_of_eq_false hok)
    exact RunOutcome.record_runCode herrors hfailed m.trapped _

theorem Attributed.runCode {e : Engine α σ} (h : Attributed e) (host : Host α σ) {s : Session α σ} {m : Machine}
    (hstart : e.start? = some (s, m)) :
    RunCode (Finishes host s m) (Handles host s m) (Event.codeOf (e.execute host).1) := by
  obtain ⟨c, hc, hfrom⟩ := Option.map_eq_some_iff.mp hstart
  cases hfrom
  have herrors : ∀ (r : Nat) (error : GuestError), (ended host e c).vault.errors[r]? = some error →
      error.toExecutionError.code = .runtimeError := by
    intro r error hr
    rw [← vault_execute host hc] at hr
    exact (h.apply host .execute).object hr
  have hcode := recordOf_runCode (ended_watched host e c) herrors
  rw [ended_trapped, List.any_eq_true] at hcode
  rw [execute_answer host hc, Event.codeOf_toResult]
  exact hcode

namespace Operation

def runs : Operation α → Bool
  | execute | executeScript _ => true
  | _ => false

/-- The codes that an operation may fail with. -/
def codes : Operation α → List ReturnCode
  | load _ => [.syntaxError, .runtimeError, .memoryError]
  | execute => [.runtimeError, .memoryError, .internalError]
  | executeScript _ => [.syntaxError, .runtimeError, .memoryError, .internalError]
  | invoke .. => [.runtimeError, .memoryError]
  | register .. | setLogLevel _ => []

end Operation

variable {host : Host α σ} {e : Engine α σ} {error : ExecutionError}

theorem code_of_load_error {script : String} (h : (e.load script).1 = .error error) :
    error.code ∈ [ReturnCode.syntaxError, .runtimeError, .memoryError] := by
  unfold load at h
  simp only at h
  split at h
  · cases h
  · next cause hcause =>
    cases h
    have hcode := cause.reported_root.code
    simpa using hcode

theorem code_of_invoke_error {key : Key} {args : List Argument} (h : (e.invoke host key args).1 = .error error) :
    error.code ∈ [ReturnCode.runtimeError, .memoryError] := by
  have hruntime (hcode : error.code = .runtimeError) : error.code ∈ [ReturnCode.runtimeError, .memoryError] := by
    simp [hcode]
  unfold invoke at h
  simp only at h
  split at h
  · cases h
    decide
  · obtain ⟨⟨answer, t⟩, hrun⟩ : ∃ r, Dispatch.run host e.session (frame key args) = r := ⟨_, rfl⟩
    simp only [hrun] at h
    cases answer with
    | error cause =>
      cases h
      exact hruntime (Dispatch.code_of_run_error hrun)
    | ok v =>
      simp only at h
      split at h
      · cases h
      · cases h
        exact hruntime rfl

theorem Attributed.code_of_execute_error (h : Attributed e) (herror : (e.execute host).1 = .error error) :
    error.code ∈ [ReturnCode.runtimeError, .memoryError, .internalError] := by
  cases hstart : e.start? with
  | none =>
    rw [execute_without_script host (Option.map_eq_none_iff.mp hstart)] at herror
    cases herror
    decide
  | some start =>
    have hmem := (h.runCode host hstart).mem
    have hfails := execute_error_code host e herror
    rw [herror] at hmem
    simpa [Event.codeOf, hfails] using hmem

/-- What an operation answers, and what that says about the run that it makes. -/
structure Concludes (host : Host α σ) (e : Engine α σ) (op : Operation α) : Prop where
  code : ∀ error, op.returned? host e = some error → error.code ∈ op.codes
  /-- It succeeds if there is a run and the run finishes without an uncaught error. -/
  success : op.runs → (op.returned? host e = none ↔ ∃ s m, op.start? e = some (s, m) ∧ Finishes host s m)
  /-- Only a run whose message handler is not called gives an internal error. -/
  internal : ∀ error, op.returned? host e = some error → error.code = .internalError →
    ∃ s m, op.start? e = some (s, m) ∧ ¬ Handles host s m

theorem Concludes.of_not_runs {op : Operation α} (hruns : op.runs = false) (hinternal : .internalError ∉ op.codes)
    (hcode : ∀ error, op.returned? host e = some error → error.code ∈ op.codes) : Concludes host e op where
  code := hcode
  success htrue := absurd htrue (ne_true_of_eq_false hruns)
  internal error herror heq := by
    have hmem := hcode error herror
    rw [heq] at hmem
    exact absurd hmem hinternal

theorem Attributed.concludes_execute (h : Attributed e) (host : Host α σ) : Concludes host e .execute := by
  have hcodes (error : ExecutionError) (herror : (Operation.execute : Operation α).returned? host e = some error) :=
    h.code_of_execute_error (eq_error_of_errorOf herror)
  cases hstart : e.start? with
  | none =>
    have hnone := execute_without_script host (Option.map_eq_none_iff.mp hstart)
    refine ⟨hcodes, fun _ => ?_, fun error herror hinternal => ?_⟩
    · simp [Operation.returned?, Operation.start?, hstart, hnone, errorOf]
    · simp only [Operation.returned?, hnone, errorOf, Option.some.injEq] at herror
      subst herror
      cases hinternal
  | some start =>
    have hcode := h.runCode host hstart
    refine ⟨hcodes, fun _ => ?_, fun error herror hinternal => ⟨_, _, hstart, ?_⟩⟩
    · simp only [Operation.returned?, Operation.start?, hstart, Option.some.injEq]
      constructor
      · intro hnone
        rw [eq_ok_of_errorOf hnone] at hcode
        exact ⟨_, _, rfl, hcode.ok_iff.mp rfl⟩
      · rintro ⟨s, m, rfl, hfinishes⟩
        have hok := hcode.ok_iff.mpr hfinishes
        cases hanswer : (e.execute host).1 with
        | ok => rfl
        | error error =>
          rw [hanswer] at hok
          exact absurd hok (execute_error_code host e hanswer)
    · have hanswer := eq_error_of_errorOf herror
      rw [hanswer] at hcode
      exact hcode.not_handled hinternal

theorem Attributed.concludes_executeScript (h : Attributed e) (host : Host α σ) (script : String) :
    Concludes host e (.executeScript script) := by
  have hloaded : Concludes host (e.load script).2 .execute := (h.apply host (.load script)).concludes_execute host
  cases hload : (e.load script).1 with
  -- a script that does not load is not run, and has no code of a run
  | error cause =>
    have hcode := code_of_load_error hload
    have hstart := Operation.start?_executeScript_of_load_error hload
    have hreturned : (Operation.executeScript script).returned? host e = some cause := by
      simp only [Operation.returned?, executeScript_of_load_error host hload, hload, errorOf]
    refine ⟨fun error herror => ?_, fun _ => ?_, fun error herror hinternal => ?_⟩
    · rw [hreturned, Option.some.injEq] at herror
      subst herror
      revert hcode
      simp only [Operation.codes, List.mem_cons, List.not_mem_nil, or_false]
      tauto
    · simp [hreturned, hstart]
    · rw [hreturned, Option.some.injEq] at herror
      subst herror
      simp [hinternal] at hcode
  | ok =>
    have hreturned : (Operation.executeScript script).returned? host e =
        (Operation.execute : Operation α).returned? host (e.load script).2 := by
      simp only [Operation.returned?, executeScript_of_load_ok host hload]
    have hstart := Operation.start?_executeScript_of_load_ok hload
    refine ⟨fun error herror => ?_, fun _ => ?_, fun error herror hinternal => ?_⟩
    · rw [hreturned] at herror
      exact List.mem_cons_of_mem _ (hloaded.code error herror)
    · rw [hreturned, hstart]
      exact hloaded.success rfl
    · rw [hreturned] at herror
      rw [hstart]
      exact hloaded.internal error herror hinternal

theorem Attributed.concludes (h : Attributed e) (host : Host α σ) (op : Operation α) : Concludes host e op := by
  cases op with
  | execute => exact h.concludes_execute host
  | executeScript script => exact h.concludes_executeScript host script
  | load script =>
    exact .of_not_runs rfl (by simp [Operation.codes]) fun _ herror => code_of_load_error (eq_error_of_errorOf herror)
  | invoke key args =>
    exact .of_not_runs rfl (by simp [Operation.codes]) fun _ herror =>
      code_of_invoke_error (eq_error_of_errorOf herror)
  | register key handle => exact .of_not_runs rfl (by simp [Operation.codes]) fun _ herror => nomatch herror
  | setLogLevel word => exact .of_not_runs rfl (by simp [Operation.codes]) fun _ herror => nomatch herror

def runCodes : List ReturnCode := [.ok, .runtimeError, .memoryError, .internalError]

/-- An engine whose objects are all of the dispatcher, and whose state is none of the codes that no run has. -/
structure Sober (e : Engine α σ) : Prop where
  attributed : Attributed e
  state : ∀ code, e.state = .executed code → code ∈ runCodes

namespace Sober

theorem create (options : EngineOptions) (world : σ) (platform : Lua.Platform) :
    Sober (Engine.create options world platform : Engine α σ) :=
  ⟨.create options world platform, fun _ hcode => nomatch hcode⟩

theorem state_execute (h : Sober e) (host : Host α σ) {code : ReturnCode}
    (hcode : (e.execute host).2.state = .executed code) : code ∈ runCodes := by
  cases hstart : e.start? with
  | none =>
    rw [execute_without_script host (Option.map_eq_none_iff.mp hstart)] at hcode
    exact h.state code hcode
  | some start =>
    obtain ⟨c, hc, -⟩ := Option.map_eq_some_iff.mp hstart
    have hkept : (e.execute host).2.state = .executed (Event.codeOf (e.execute host).1) :=
      congrArg (fun kept => kept.2.2) (kept_execute host hc)
    rw [hkept, EngineState.executed.injEq] at hcode
    subst hcode
    exact (h.attributed.runCode host hstart).mem

theorem load (h : Sober e) (host : Host α σ) (script : String) : Sober (e.load script).2 := by
  refine ⟨h.attributed.apply host (.load script), fun code hcode => ?_⟩
  rcases load_cases e script with ⟨error, -, hkept⟩ | ⟨chunk, -, -, hkept⟩
  · have hstate : (e.load script).2.state = e.state := congrArg (fun kept => kept.2.2) hkept
    exact h.state code (hstate ▸ hcode)
  · have hstate : (e.load script).2.state = .loaded := congrArg (fun kept => kept.2.2) hkept
    rw [hstate] at hcode
    cases hcode

theorem of_kept (h : Sober e) (host : Host α σ) {op : Operation α} (hkept : (op.apply host e).kept = e.kept) :
    Sober (op.apply host e) := by
  have hstate : (op.apply host e).state = e.state := congrArg (fun kept => kept.2.2) hkept
  exact ⟨h.attributed.apply host op, fun code hcode => h.state code (hstate ▸ hcode)⟩

theorem apply (h : Sober e) (host : Host α σ) (op : Operation α) : Sober (op.apply host e) := by
  cases op with
  | load script => exact h.load host script
  | execute => exact ⟨h.attributed.apply host .execute, fun code hcode => h.state_execute host hcode⟩
  | executeScript script =>
    refine ⟨h.attributed.apply host (.executeScript script), fun code hcode => ?_⟩
    have hloaded := h.load host script
    simp only [Operation.apply] at hcode
    cases hload : (e.load script).1 with
    | error error =>
      rw [executeScript_of_load_error host hload] at hcode
      exact hloaded.state code hcode
    | ok =>
      rw [executeScript_of_load_ok host hload] at hcode
      exact hloaded.state_execute host hcode
  | invoke key args => exact h.of_kept host (kept_invoke host e key args)
  | register key handle => exact h.of_kept host (kept_register e key handle)
  | setLogLevel word => exact h.of_kept host (kept_setLogLevel e word)

theorem after (h : Sober e) (host : Host α σ) (ops : List (Operation α)) : Sober (Engine.after host ops e) := by
  induction ops generalizing e with
  | nil => exact h
  | cons op ops ih => exact ih (h.apply host op)

end Sober

/-- After any operations on a new engine, the state is none of the codes that no run has, and neither does an operation
fail with a code that is not its own: none fails with the code of success or of a yield. A run succeeds if it finishes
without an uncaught error, and only one that its message handler missed gives an internal error. -/
theorem codes_after_create (host : Host α σ) (options : EngineOptions) (world : σ) (platform : Lua.Platform)
    (ops : List (Operation α)) :
    let e := after host ops (create options world platform)
    (∀ code, e.state = .executed code → code ∈ runCodes) ∧ ∀ op, Concludes host e op := by
  intro e
  have hsober : Sober e := (Sober.create options world platform).after host ops
  exact ⟨hsober.state, hsober.attributed.concludes host⟩

end Engine

end ScriptHost
