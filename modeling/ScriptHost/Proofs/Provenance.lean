import ScriptHost.Proofs.Layers
import ScriptHost.Proofs.Raised
import ScriptHost.Proofs.Verdict

/-! # Where a reported failure comes from

A script can catch the error of a failed call, keep its object over runs, and raise it again in the place of any other
error. What a run reports goes by the object that escapes in the end. An object stands for one error of the dispatcher
for ever, so the report is of the very call whose object it is. -/

namespace ScriptHost

open Lua (Value GuestError Machine Interpreter Chunk Bytes)

variable {α σ : Type}

/-- The error objects stand for the errors that the dispatcher raised, each for one, and nothing else has any. -/
structure Backed (errors : Array GuestError) (rs : List (Value × GuestError)) : Prop where
  objects : ∀ v error, (v, error) ∈ rs ↔ ∃ r traceback, v = .error r ∧ errors[r]? = some (.callback traceback error)
  /-- The error of an object has the layer of its call, and no other. -/
  layered : ∀ (r : Nat) (layer : GuestError), errors[r]? = some layer →
    ∃ (traceback : String) (error : GuestError), layer = .callback traceback error ∧ error.root = error

namespace Backed

variable {errors : Array GuestError} {rs : List (Value × GuestError)}

theorem empty : Backed #[] [] := ⟨fun v error => by simp, fun r layer h => by simp at h⟩

theorem push (h : Backed errors rs) (traceback : String) {error : GuestError} (hbare : error.root = error) :
    Backed (errors.push (.callback traceback error)) (rs ++ [(.error errors.size, error)]) where
  objects v error' := by
    rw [List.mem_append, List.mem_singleton, Prod.mk.injEq, h.objects]
    constructor
    · rintro (⟨r, traceback', rfl, hr⟩ | ⟨rfl, rfl⟩)
      · refine ⟨r, traceback', rfl, ?_⟩
        have hlt : r < errors.size := (Array.getElem?_eq_some_iff.mp hr).1
        rw [Array.getElem?_push, if_neg (Nat.ne_of_lt hlt), hr]
      · exact ⟨errors.size, traceback, rfl, by rw [Array.getElem?_push, if_pos rfl]⟩
    · rintro ⟨r, traceback', rfl, hr⟩
      rw [Array.getElem?_push] at hr
      split at hr
      · next hsize =>
        cases hr
        exact Or.inr ⟨congrArg _ hsize, rfl⟩
      · exact Or.inl ⟨r, traceback', rfl, hr⟩
  layered r layer hr := by
    rw [Array.getElem?_push] at hr
    split at hr
    · cases hr
      exact ⟨traceback, error, rfl, hbare⟩
    · exact h.layered r layer hr

theorem unique (h : Backed errors rs) {v : Value} {error error' : GuestError} (hv : (v, error) ∈ rs)
    (hv' : (v, error') ∈ rs) : error = error' := by
  obtain ⟨r, _, rfl, hr⟩ := (h.objects _ _).mp hv
  obtain ⟨r', _, hr', hlayer⟩ := (h.objects _ _).mp hv'
  cases hr'
  cases hr.symm.trans hlayer
  rfl

theorem drive {host : Host α σ} (fuel : Nat) {s : Session α σ} {m : Machine} (h : Backed m.vault.errors rs) :
    Backed (Engine.drive host fuel s m).2.vault.errors (rs ++ Engine.raised host fuel s m) := by
  refine Engine.drive_induction (P := fun _ m rs => Backed m.vault.errors rs) (fun {_ m _} h => ?_) (fun h _ => h)
    (fun h hrun => h.push _ ?_) fuel s m rs h
  · rw [m.step_errors]
    exact h
  · rcases Dispatch.run_error_cases hrun with ⟨_, rfl, -⟩ | ⟨_, rfl, -⟩ <;> rfl

end Backed

namespace Lua.Interpreter

theorem start_errors (i : Interpreter) (c : Chunk) : (i.start c).vault.errors = i.vault.errors :=
  congrArg Vault.errors (Machine.enterScript_vault ..)

end Lua.Interpreter

namespace Engine

theorem errors_register (e : Engine α σ) (key : Key) (handle : α) :
    (e.register key handle).2.interpreter.vault.errors = e.interpreter.vault.errors := by
  obtain ⟨heap, closures, hframe⟩ := e.register_frame key handle
  rw [hframe]

theorem interpreter_invoke (host : Host α σ) (e : Engine α σ) (key : Key) (args : List Argument) :
    (e.invoke host key args).2.interpreter = e.interpreter := by
  rw [invoke_frame]

theorem interpreter_setLogLevel (e : Engine α σ) (word : String) : (e.setLogLevel word).interpreter = e.interpreter := by
  unfold setLogLevel
  split <;> rfl

theorem errors_create (options : EngineOptions) (world : σ) (platform : Lua.Platform) :
    (create options world platform : Engine α σ).interpreter.vault.errors = #[] := by
  obtain ⟨heap, closures, limit, hframe⟩ := create_frame (α := α) options world platform
  rw [hframe]
  rfl

end Engine

namespace Backed

open Engine (Operation stepLimit raisedOf create)

variable {rs : List (Value × GuestError)} {host : Host α σ} {e : Engine α σ}

theorem execute (h : Backed e.interpreter.vault.errors rs) :
    Backed (e.execute host).2.interpreter.vault.errors
      (rs ++ (Operation.execute : Operation α).raisedAt host stepLimit e) := by
  cases hcompiled : e.compiled with
  | none =>
    rw [Engine.execute_without_script host hcompiled]
    simp only [Operation.raisedAt, Operation.start?, Engine.start?_of_not_compiled hcompiled, List.append_nil]
    exact h
  | some c =>
    rw [Engine.execute_of_compiled host hcompiled, Engine.run_eq, Engine.vault_conclude]
    simp only [Operation.raisedAt, Operation.start?, Engine.start?_of_compiled hcompiled]
    refine drive stepLimit ?_
    rw [Interpreter.start_errors]
    exact h

/-- One operation adds an object for each error that the dispatcher raises. -/
theorem apply (h : Backed e.interpreter.vault.errors rs) (op : Operation α) :
    Backed (op.apply host e).interpreter.vault.errors (rs ++ op.raisedAt host stepLimit e) := by
  let errors (i : Interpreter) := i.vault.errors
  have hstill {e' : Engine α σ} (herrors : e'.interpreter.vault.errors = e.interpreter.vault.errors) :
      Backed e'.interpreter.vault.errors (rs ++ []) := by
    rw [herrors, List.append_nil]
    exact h
  cases op with
  | load script => exact hstill (congrArg Lua.Vault.errors (e.vault_load script))
  | execute => exact h.execute
  | executeScript script =>
    have hloaded := congrArg Lua.Vault.errors (e.vault_load script)
    cases hload : (e.load script).1 with
    | error error =>
      simp only [Operation.apply, Operation.raisedAt, Engine.executeScript_of_load_error host hload,
        Operation.start?_executeScript_of_load_error hload]
      exact hstill hloaded
    | ok =>
      simp only [Operation.apply, Operation.raisedAt, Engine.executeScript_of_load_ok host hload,
        Operation.start?_executeScript_of_load_ok hload]
      exact (hloaded ▸ h : Backed (e.load script).2.interpreter.vault.errors rs).execute
  | invoke key args => exact hstill (congrArg errors (e.interpreter_invoke host key args))
  | register key handle => exact hstill (e.errors_register key handle)
  | setLogLevel word => exact hstill (congrArg errors (e.interpreter_setLogLevel word))

theorem after (ops : List (Operation α)) (h : Backed e.interpreter.vault.errors rs) :
    Backed (Engine.after host ops e).interpreter.vault.errors (rs ++ raisedOf host ops e) := by
  induction ops generalizing e rs with
  | nil =>
    rw [raisedOf, List.append_nil]
    exact h
  | cons op ops ih =>
    rw [raisedOf, ← List.append_assoc]
    exact ih (h.apply op)

theorem create (host : Host α σ) (options : EngineOptions) (world : σ) (platform : Lua.Platform)
    (ops : List (Operation α)) :
    Backed (Engine.after host ops (create options world platform)).interpreter.vault.errors
      (raisedOf host ops (create options world platform)) := by
  have hnew : Backed (Engine.create options world platform : Engine α σ).interpreter.vault.errors [] := by
    rw [Engine.errors_create]
    exact .empty
  exact hnew.after ops

end Backed

namespace ExecutionError

@[simp] theorem failure_ofRaw (code : Int) (diagnostic : String) : (ofRaw code diagnostic).failure = none := by
  unfold ofRaw
  split <;> rfl

end ExecutionError

namespace Lua.GuestError

theorem toExecutionError_of_root {error : GuestError} {f : CallFailure} (h : error.root = .failure f) :
    error.toExecutionError = .ofFailure f := toExecutionError_of_failure (callFailure?_eq_some_iff.mpr h)

theorem failure_toExecutionError {error : GuestError} {f : CallFailure} :
    error.toExecutionError.failure = some f ↔ error.root = .failure f := by
  have hreported := error.reported_root
  generalize error.root = root, error.toExecutionError = record at hreported ⊢
  cases hreported <;> simp [ExecutionError.ofFailure]

end Lua.GuestError

namespace RunOutcome

/-- A record of failure carries a failed call just if the object that escaped stands for it. -/
theorem record_failure (errors : Nat → Option GuestError) (handled : Bool) (v : Value) (f : CallFailure) :
    (record errors false handled v).failure = some f ↔
      ∃ r error, v = .error r ∧ errors r = some error ∧ error.root = .failure f := by
  cases v with
  | error r =>
    cases herror : errors r with
    | none => simp [record, herror]
    | some error => simp [record, herror, GuestError.failure_toExecutionError]
  | _ => simp [record]

/-- A record that carries a failed call is the record of this call. -/
theorem record_eq_ofFailure {errors : Nat → Option GuestError} {handled : Bool} {v : Value} {f : CallFailure}
    (h : (record errors false handled v).failure = some f) : record errors false handled v = .ofFailure f := by
  obtain ⟨r, error, rfl, herror, hroot⟩ := (record_failure errors handled v f).mp h
  have hrecord : record errors false handled (.error r) = error.toExecutionError := by simp [record, herror]
  rw [hrecord, GuestError.toExecutionError_of_root hroot]

/-- The record of a string that escaped is a guest fault with this string for its message. -/
theorem record_string (errors : Nat → Option GuestError) (handled : Bool) (b : Bytes) :
    (record errors false handled (.str b)).failure = none ∧
      (record errors false handled (.str b)).message = Text.Utf8.decodeLenient b :=
  ⟨by simp [record], by simp [record, ExecutionError.ofRaw, guestMessage]⟩

end RunOutcome

namespace Engine

def escaped? (host : Host α σ) (e : Engine α σ) : Option Value := e.compiled.bind fun c => (ended host e c).uncaught?

theorem escaped?_of_compiled (host : Host α σ) {e : Engine α σ} {c : Chunk} (hc : e.compiled = some c) :
    e.escaped? host = (ended host e c).uncaught? := by
  rw [escaped?, hc, Option.bind_some]

theorem recordOf_of_not_done {m : Machine} (h : ¬ ∃ outcome, m.control = .done outcome) :
    m.uncaught? = none ∧ (recordOf m).failure = none := by
  unfold Machine.uncaught? recordOf Interpreter.endingOf
  cases hcontrol : m.control with
  | done outcome => exact absurd ⟨outcome, hcontrol⟩ h
  | _ => exact ⟨rfl, by simp [RunOutcome.record]⟩

theorem vault_execute (host : Host α σ) {e : Engine α σ} {c : Chunk} (hc : e.compiled = some c) :
    (e.execute host).2.interpreter.vault = (ended host e c).vault := by
  rw [execute_of_compiled host hc, run_eq, vault_conclude]
  rfl

/-- A run that returns an error has either no escaped object and no failed call to report, or the record of the object. -/
theorem execute_error_cases (host : Host α σ) {e : Engine α σ} {error : ExecutionError}
    (h : (e.execute host).1 = .error error) :
    (e.escaped? host = none ∧ error.failure = none) ∨
      ∃ v handled, e.escaped? host = some v ∧
        error = RunOutcome.record (fun r => (e.execute host).2.interpreter.vault.errors[r]?) false handled v := by
  cases hc : e.compiled with
  | none =>
    rw [execute_without_script host hc] at h
    cases h
    exact Or.inl ⟨by rw [escaped?, hc, Option.bind_none], rfl⟩
  | some c =>
    rw [escaped?_of_compiled host hc, vault_execute host hc]
    have hrecord := h
    rw [execute_answer host hc] at hrecord
    obtain ⟨rfl, -⟩ := ExecutionError.toResult_eq_error hrecord
    by_cases hdone : ∃ outcome, (ended host e c).control = .done outcome
    · obtain ⟨outcome, hdone⟩ := hdone
      obtain ⟨v, hv⟩ := uncaught_of_error host hc h hdone
      exact Or.inr ⟨v, _, hv, recordOf_of_uncaught hv⟩
    · exact Or.inl (recordOf_of_not_done hdone)

/-- A run that fails reports a failed call just if the object that escapes stands for it, whether it escapes at once or
was kept, by this run or an earlier one, and raised again. The report is then the text of the call, whatever else failed
in between. A string that escapes is reported as it is. -/
theorem execute_failure_iff (host : Host α σ) (options : EngineOptions) (world : σ) (platform : Lua.Platform)
    (ops : List (Operation α))
    {e : Engine α σ} (he : e = after host ops (create options world platform)) {error : ExecutionError}
    (herror : (e.execute host).1 = .error error) :
    let rs := raisedOf host (ops ++ [.execute]) (create options world platform)
    (∀ f, error.failure = some f ↔ ∃ v, e.escaped? host = some v ∧ (v, .failure f) ∈ rs) ∧
      (∀ f, error.failure = some f → error.code = .runtimeError ∧ error.message = f.message) ∧
      (∀ v raised raised', (v, raised) ∈ rs → (v, raised') ∈ rs → raised = raised') ∧
      ∀ b, e.escaped? host = some (.str b) → error.failure = none ∧ error.message = Text.Utf8.decodeLenient b := by
  intro rs
  have hbacked : Backed (e.execute host).2.interpreter.vault.errors rs := by
    have hafter := Backed.create host options world platform (ops ++ [.execute])
    rwa [after, List.foldl_append, List.foldl_cons, List.foldl_nil, ← after, ← he] at hafter
  refine ⟨fun f => ?_, fun f hf => ?_, fun v raised raised' => hbacked.unique, fun b hb => ?_⟩
  · rcases execute_error_cases host herror with ⟨hnone, hfailure⟩ | ⟨v, handled, hv, rfl⟩
    · simp [hnone, hfailure]
    · rw [RunOutcome.record_failure, hv]
      constructor
      · rintro ⟨r, layer, rfl, hr, hroot⟩
        -- the root of the error is the error itself, not one that it wraps
        obtain ⟨traceback, raised, rfl, hbare⟩ := hbacked.layered r layer hr
        have hraised : raised = .failure f := hbare.symm.trans hroot
        exact ⟨_, rfl, (hbacked.objects _ _).mpr ⟨r, traceback, rfl, hraised ▸ hr⟩⟩
      · rintro ⟨_, ⟨⟩, hmem⟩
        obtain ⟨r, _, rfl, hr⟩ := (hbacked.objects _ _).mp hmem
        exact ⟨r, _, rfl, hr, rfl⟩
  · rcases execute_error_cases host herror with ⟨-, hfailure⟩ | ⟨v, handled, -, rfl⟩
    · rw [hfailure] at hf
      cases hf
    · rw [RunOutcome.record_eq_ofFailure hf]
      exact ⟨rfl, rfl⟩
  · rcases execute_error_cases host herror with ⟨hnone, -⟩ | ⟨v, handled, hv, rfl⟩
    · rw [hnone] at hb
      cases hb
    · cases hb.symm.trans hv
      exact RunOutcome.record_string ..

-- The functions of the host below fail, each with an error of its own.

def denying : Host HostError Unit := ⟨fun error _ _ => (.error error, ())⟩

def denied : CallFailure := .hostFunction ⟨"app", "deny"⟩ ⟨"DENIED", "not today"⟩

/-- The first script keeps the object of a failed call, and the second raises it after another call has failed. -/
def keptOver : List (Operation HostError) :=
  [.register ⟨"app", "deny"⟩ ⟨"DENIED", "not today"⟩,
    .executeScript "_, kept = pcall(function() app:deny() end)",
    .load "pcall(function() app:missing() end) error(kept)"]

/-- The call of the first script is reported. -/
theorem execute_failure_iff_keptOver :
    let e := after denying keptOver (create {} ())
    ∃ error v, (e.execute denying).1 = .error error ∧ error.failure = some denied ∧ e.escaped? denying = some v ∧
      (v, .failure denied) ∈ raisedOf denying (keptOver ++ [.execute]) (create {} ()) := by
  intro e
  have hfailure : (errorOf (e.execute denying).1).bind ExecutionError.failure = some denied := by decide +kernel
  obtain ⟨error, herror, hdenied⟩ := Option.bind_eq_some_iff.mp hfailure
  have hanswer := eq_error_of_errorOf herror
  obtain ⟨v, hescaped, hraised⟩ := ((execute_failure_iff denying {} () {} keptOver rfl hanswer).1 denied).mp hdenied
  exact ⟨error, v, hanswer, hdenied, hescaped, hraised⟩

end Engine

end ScriptHost
