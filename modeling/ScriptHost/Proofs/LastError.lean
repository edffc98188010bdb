import ScriptHost.Proofs.Raised

/-! # The last error

The dispatcher writes the last error in the middle of runs, and the engine writes it after operations. The two are held
here against one list of failure events: whatever scripts do with the errors that they catch, the last error is the
message of the last event, between operations and at every point of a run. -/

namespace ScriptHost

open Lua (Value GuestError Machine)

variable {α σ : Type}

/-- A failed call that the dispatcher reported, or an error that an operation returned. -/
inductive FailureEvent where
  | dispatched (f : CallFailure)
  | returned (error : ExecutionError)

namespace FailureEvent

def message : FailureEvent → String
  | dispatched f => f.message
  | returned error => error.message

def last? (evs : List FailureEvent) : Option String := evs.getLast?.map message

theorem last?_append (evs evs' : List FailureEvent) : last? (evs ++ evs') = (last? evs').or (last? evs) := by
  unfold last?
  rw [List.getLast?_append]
  cases evs'.getLast? <;> rfl

theorem last?_append_singleton (evs : List FailureEvent) (ev : FailureEvent) :
    last? (evs ++ [ev]) = some ev.message := by
  simp [last?]

theorem last?_eq_none_iff {evs : List FailureEvent} : last? evs = none ↔ evs = [] := by
  simp [last?]

/-- The failed calls among the errors that the dispatcher gave. A call whose head is no text is none. -/
def ofErrors (errors : List GuestError) : List FailureEvent := (errors.filterMap GuestError.callFailure?).map dispatched

theorem ofErrors_append (errors errors' : List GuestError) :
    ofErrors (errors ++ errors') = ofErrors errors ++ ofErrors errors' := by
  simp [ofErrors]

@[simp] theorem ofErrors_runtime (message : String) : ofErrors [.runtime message] = [] := rfl

@[simp] theorem ofErrors_failure (f : CallFailure) : ofErrors [.failure f] = [dispatched f] := rfl

end FailureEvent

namespace Engine

open FailureEvent (last? last?_append last?_append_singleton ofErrors ofErrors_append)

namespace Operation

def returned? (host : Host α σ) (e : Engine α σ) : Operation α → Option ExecutionError
  | load script => errorOf (e.load script).1
  | execute => errorOf (e.execute host).1
  | executeScript script => errorOf (e.executeScript host script).1
  | invoke key args => errorOf (e.invoke host key args).1
  | register .. | setLogLevel _ => none

def dispatchedAt (host : Host α σ) (moves : Nat) (e : Engine α σ) (op : Operation α) : List FailureEvent :=
  ofErrors ((op.raisedAt host moves e).map Prod.snd)

def dispatched (host : Host α σ) (e : Engine α σ) : Operation α → List FailureEvent
  | invoke key args =>
    if e.interpreter.heap.hasRoom e.interpreter.limit (frameSize key args) then
      ofErrors (errorOf (Dispatch.run host e.session (frame key args)).1).toList
    else []
  | op => op.dispatchedAt host stepLimit e

def failures (host : Host α σ) (e : Engine α σ) (op : Operation α) : List FailureEvent :=
  op.dispatched host e ++ ((op.returned? host e).map FailureEvent.returned).toList

end Operation

def failuresOf (host : Host α σ) : List (Operation α) → Engine α σ → List FailureEvent
  | [], _ => []
  | op :: ops, e => op.failures host e ++ failuresOf host ops (op.apply host e)

@[simp] theorem lastError_emit (e : Engine α σ) (severity : Severity) (message : Unit → String) :
    (e.emit severity message).lastError = e.lastError :=
  congrArg Bridge.lastError (Session.emit_bridge ..)

@[simp] theorem lastError_fail (e : Engine α σ) (operation : String) (error : ExecutionError) :
    (e.fail operation error).lastError = some error.message := rfl

theorem drive_lastError (host : Host α σ) (fuel : Nat) (s : Session α σ) (m : Machine) :
    (drive host fuel s m).1.bridge.lastError =
      (last? (ofErrors ((raised host fuel s m).map Prod.snd))).or s.bridge.lastError := by
  -- the predicate compares with the session at the start, so that the list of errors is all that grows
  refine drive_induction
    (P := fun s' _ rs => s'.bridge.lastError = (last? (ofErrors (rs.map Prod.snd))).or s.bridge.lastError)
    (fun h => h) (fun h hrun => ?_) (fun h hrun => ?_) fuel s m [] rfl
  · rw [Dispatch.bridge_of_run_ok hrun]
    exact h
  · rcases Dispatch.run_error_cases hrun with ⟨_, rfl, rfl⟩ | ⟨f, rfl, hbridge⟩
    · simpa [ofErrors_append] using h
    · simp [ofErrors_append, last?_append_singleton, hbridge, FailureEvent.message]

theorem conclude_lastError (e : Engine α σ) (session : Session α σ) (m : Machine) :
    (e.conclude session m).2.lastError =
      ((errorOf (e.conclude session m).1).map ExecutionError.message).or session.bridge.lastError := by
  unfold conclude
  simp only
  split <;> rfl

theorem load_lastError (e : Engine α σ) (script : String) :
    (e.load script).2.lastError = ((errorOf (e.load script).1).map ExecutionError.message).or e.lastError := by
  unfold load
  simp only
  split
  · exact lastError_emit ..
  · rfl

theorem register_lastError (e : Engine α σ) (key : Key) (handle : α) :
    (e.register key handle).2.lastError = e.lastError := by
  unfold register
  simp only
  split
  · exact lastError_emit ..
  · split
    · exact (lastError_emit ..).trans (lastError_emit ..)
    · exact lastError_emit ..

theorem setLogLevel_lastError (e : Engine α σ) (word : String) : (e.setLogLevel word).lastError = e.lastError := by
  unfold setLogLevel
  split
  · rfl
  · exact lastError_emit ..

theorem invoke_lastError (host : Host α σ) (e : Engine α σ) (key : Key) (args : List Argument) :
    (e.invoke host key args).2.lastError =
      ((errorOf (e.invoke host key args).1).map ExecutionError.message).or e.lastError := by
  unfold invoke
  simp only
  split
  · rfl
  · rcases Dispatch.run_cases host e.session (frame key args) with
      ⟨v, t, hrun, hbridge⟩ | ⟨message, hrun⟩ | ⟨f, t, hrun, -⟩ <;> simp only [hrun]
    · split
      · exact congrArg Bridge.lastError hbridge
      · rfl
    · rfl
    · rfl

theorem invoke_dispatched_of_ok (host : Host α σ) {e : Engine α σ} {key : Key} {args : List Argument} {n : Int32}
    (h : (e.invoke host key args).1 = .ok n) : (Operation.invoke key args).dispatched host e = [] := by
  by_cases hroom : e.interpreter.heap.hasRoom e.interpreter.limit (frameSize key args) = true
  · simp only [Operation.dispatched, if_pos hroom]
    cases hanswer : (Dispatch.run host e.session (frame key args)).1 with
    | ok v => rfl
    | error error => simp [invoke, hroom, hanswer] at h
  · simp only [Operation.dispatched, if_neg hroom]

/-- A run of the loaded chunk leaves as last error the error that it returns, or else that of its last failed call. -/
theorem execute_lastError (host : Host α σ) (e : Engine α σ) :
    (e.execute host).2.lastError = ((errorOf (e.execute host).1).map ExecutionError.message).or
      ((last? ((Operation.execute : Operation α).dispatchedAt host stepLimit e)).or e.lastError) := by
  cases hcompiled : e.compiled with
  | none =>
    rw [execute_without_script host hcompiled]
    rfl
  | some c =>
    have hannounce : e.announce.session.bridge.lastError = e.lastError := lastError_emit ..
    rw [execute_of_compiled host hcompiled, run_eq, conclude_lastError, drive_lastError, hannounce]
    simp only [Operation.dispatchedAt, Operation.raisedAt, Operation.start?, start?_of_compiled hcompiled]
    rfl

theorem last?_failures (host : Host α σ) (e : Engine α σ) (op : Operation α) :
    last? (op.failures host e) =
      ((op.returned? host e).map ExecutionError.message).or (last? (op.dispatched host e)) := by
  rw [Operation.failures, last?_append]
  cases op.returned? host e <;> rfl

/-- An operation leaves the message of the last of its failure events, if there is one. -/
theorem apply_lastError (host : Host α σ) (e : Engine α σ) (op : Operation α) :
    (op.apply host e).lastError = (last? (op.failures host e)).or e.lastError := by
  rw [last?_failures, Option.or_assoc]
  cases op with
  | load script => exact load_lastError e script
  | execute => exact execute_lastError host e
  | executeScript script =>
    have hloaded := load_lastError e script
    cases hload : (e.load script).1 with
    | error error =>
      simp only [Operation.apply, Operation.returned?, Operation.dispatched, Operation.dispatchedAt, Operation.raisedAt,
        executeScript_of_load_error host hload, Operation.start?_executeScript_of_load_error hload]
      exact hloaded
    | ok =>
      rw [hload] at hloaded
      simp only [Operation.apply, Operation.returned?, Operation.dispatched, Operation.dispatchedAt, Operation.raisedAt,
        executeScript_of_load_ok host hload, Operation.start?_executeScript_of_load_ok hload]
      rw [← show (e.load script).2.lastError = e.lastError from hloaded]
      exact execute_lastError host _
  | invoke key args =>
    have hinvoke := invoke_lastError host e key args
    cases hanswer : (e.invoke host key args).1 with
    | error error =>
      simp only [Operation.apply, Operation.returned?, hinvoke, hanswer]
      rfl
    | ok n =>
      simp only [Operation.apply, Operation.returned?, hinvoke, hanswer, invoke_dispatched_of_ok host hanswer]
      rfl
  | register key handle => exact register_lastError e key handle
  | setLogLevel word => exact setLogLevel_lastError e word

theorem after_lastError (host : Host α σ) (ops : List (Operation α)) (e : Engine α σ) :
    (after host ops e).lastError = (last? (failuresOf host ops e)).or e.lastError := by
  induction ops generalizing e with
  | nil => rfl
  | cons op ops ih =>
    have hrest : (after host (op :: ops) e).lastError = _ := ih (op.apply host e)
    rw [hrest, apply_lastError, failuresOf, last?_append, Option.or_assoc]

/-- At a point of the run that an operation makes, the last error is that of the last failed call before the point. -/
theorem sessionAt_lastError (host : Host α σ) (moves : Nat) (e : Engine α σ) (op : Operation α) :
    (op.sessionAt host moves e).bridge.lastError = (last? (op.dispatchedAt host moves e)).or e.lastError := by
  have hstarted {s : Session α σ} {m : Machine} (h : op.start? e = some (s, m)) :
      s.bridge.lastError = e.lastError := by
    obtain ⟨e', -, hfrom, rfl, -⟩ := Operation.start?_from h
    refine (lastError_emit ..).trans ?_
    rcases hfrom with rfl | ⟨script, hload⟩
    · rfl
    · have hloaded := load_lastError e script
      rw [hload] at hloaded
      exact hloaded
  simp only [Operation.sessionAt, Operation.dispatchedAt, Operation.raisedAt]
  split
  · next s m hstart => rw [drive_lastError, hstarted hstart]
  · rfl

/-- How an operation and a call leave the last error. An operation that fails leaves the message of its error, and one
that succeeds changes nothing but by failed calls of its run; a call whose head is no text changes nothing. -/
structure Remembers (host : Host α σ) (e : Engine α σ) : Prop where
  failed : ∀ (op : Operation α) (error : ExecutionError), op.returned? host e = some error →
    (op.apply host e).lastError = some error.message
  succeeded : ∀ (op : Operation α), op.returned? host e = none →
    (op.apply host e).lastError = (last? (op.dispatched host e)).or e.lastError
  headless : ∀ (s : Session α σ) (frame : List Value), ¬ Dispatch.Headed frame →
    ∃ message, Dispatch.run host s frame = (.error (.runtime message), s)

theorem remembers (host : Host α σ) (e : Engine α σ) : Remembers host e where
  failed op error h := by
    rw [apply_lastError, last?_failures, h]
    rfl
  succeeded op h := by
    rw [apply_lastError, last?_failures, h]
    rfl
  headless s _ h := Dispatch.run_of_not_headed host s h

/-- After any operations on a new engine, and at every point of the run that comes next, the last error is the message of
the last failure event, and there is none if there was no event. -/
theorem lastError_after_create (host : Host α σ) (options : EngineOptions) (world : σ) (platform : Lua.Platform)
    (ops : List (Operation α)) :
    let e := after host ops (create options world platform)
    let evs := failuresOf host ops (create options world platform)
    e.lastError = last? evs ∧ (e.lastError = none ↔ evs = []) ∧
      (∀ (op : Operation α) (moves : Nat),
        (op.sessionAt host moves e).bridge.lastError = last? (evs ++ op.dispatchedAt host moves e)) ∧
      Remembers host e := by
  intro e evs
  have hlast : e.lastError = last? evs := by
    have hnew : (create options world platform : Engine α σ).lastError = none := lastError_emit ..
    have hafter := after_lastError host ops (create options world platform)
    rwa [hnew, Option.or_none] at hafter
  refine ⟨hlast, ?_, fun op moves => ?_, remembers host e⟩
  · rw [hlast, FailureEvent.last?_eq_none_iff]
  · rw [sessionAt_lastError, last?_append, hlast]

end Engine

end ScriptHost
