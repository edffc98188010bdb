import ScriptHost.Engine
import ScriptHost.Proofs.Lifecycle
import ScriptHost.Proofs.Machine.Escape

/-! # The code that a run is told to have failed with

The kind of the last error that escaped is what a failed run should be reported with. The report goes by whether the trap
was ever sprung in the run, which tells the kinds apart as long as nothing else sprung it before. -/

namespace ScriptHost

open Lua (Value GuestError Machine Raised Watched Interpreter Chunk)

variable {α σ : Type}

namespace Lua

def Raised.code : Raised → ReturnCode
  | ordinary _ => .runtimeError
  | memory => .memoryError
  | handler => .internalError

def Value.isPlain : Value → Bool
  | error _ => false
  | _ => true

def Machine.uncaught? (m : Machine) : Option Value :=
  match m.control with
  | .done (.ok [.bool false, v]) => some v
  | _ => none

theorem Machine.control_of_uncaught {m : Machine} {v : Value} (h : m.uncaught? = some v) :
    m.control = .done (.ok [.bool false, v]) := by
  unfold uncaught? at h
  split at h
  · next hcontrol =>
    cases h
    exact hcontrol
  · cases h

/-- The last error that escaped in a run. -/
def lastEscape (ms : List Machine) : Option Raised := (ms.filterMap Machine.escaping?).getLast?

theorem lastEscape_cons (m : Machine) (ms : List Machine) : lastEscape (m :: ms) = (lastEscape ms).or m.escaping? := by
  unfold lastEscape
  cases he : m.escaping? with
  | none => simp [he]
  | some r =>
    rw [List.filterMap_cons_some he, List.getLast?_cons]
    cases (ms.filterMap Machine.escaping?).getLast? <;> rfl

end Lua

theorem ExecutionError.code_ofRaw (c : ReturnCode) (diagnostic : String) : (ofRaw c.raw diagnostic).code = c := by
  simp [ofRaw]

namespace Engine

open Lua (lastEscape lastEscape_cons)

def trace (host : Host α σ) : Nat → Session α σ → Machine → List Machine
  | 0, _, _ => []
  | fuel + 1, s, m =>
    match m.control with
    | .done _ => []
    | .host frame c k => m :: trace host fuel (Dispatch.run host s frame).2 (m.hostAnswer (Dispatch.run host s frame).1 c k)
    | _ => m :: trace host fuel s m.step

/-- A run that is not done goes on from a next machine, which a step or an answer of the host leads to. -/
theorem trace_cons (host : Host α σ) (fuel : Nat) (s : Session α σ) (m : Machine) (hdone : ∀ o, m.control ≠ .done o) :
    ∃ s' m', trace host (fuel + 1) s m = m :: trace host fuel s' m' ∧ drive host (fuel + 1) s m = drive host fuel s' m' ∧
      m'.trapped = (m.trapped || m.springs) ∧ ∀ {last}, Watched last m → Watched (m.escaping?.or last) m' := by
  cases hc : m.control with
  | done outcome => exact absurd hc (hdone outcome)
  | host frame c k =>
    refine ⟨(Dispatch.run host s frame).2, m.hostAnswer (Dispatch.run host s frame).1 c k, ?_, ?_, ?_, ?_⟩
    · simp only [trace, hc]
    · simp only [drive, hc]
    · have hsprings : m.springs = false := by simp [Machine.springs, hc]
      rw [hsprings, Bool.or_false]
      exact m.hostAnswer_trapped (Dispatch.run host s frame).1 c k
    · intro last h
      have hescaping : m.escaping? = none := by simp [Machine.escaping?, hc]
      rw [hescaping, Option.none_or]
      exact h.hostAnswer hc _
  | _ =>
    refine ⟨s, m.step, ?_, ?_, m.step_trapped, fun h => h.step⟩
    · simp only [trace, hc]
    · simp only [drive, hc]

theorem trace_done (host : Host α σ) (fuel : Nat) (s : Session α σ) {m : Machine} {o : Except Raised (List Value)}
    (hdone : m.control = .done o) : trace host fuel s m = [] ∧ drive host fuel s m = (s, m) := by
  cases fuel with
  | zero => exact ⟨rfl, rfl⟩
  | succ fuel => simp [trace, drive, hdone]

/-- Along a run the stage is kept up with the errors that escape. -/
theorem drive_watched (host : Host α σ) (fuel : Nat) {s : Session α σ} {m : Machine} {last : Option Raised}
    (h : Watched last m) : Watched ((lastEscape (trace host fuel s m)).or last) (drive host fuel s m).2 := by
  induction fuel generalizing s m last with
  | zero => exact h
  | succ fuel ih =>
    by_cases hdone : ∃ o, m.control = .done o
    · obtain ⟨o, ho⟩ := hdone
      obtain ⟨htrace, hdrive⟩ := trace_done host (fuel + 1) s ho
      rw [htrace, hdrive]
      exact h
    · obtain ⟨s', m', htrace, hdrive, -, hnext⟩ := trace_cons host fuel s m (not_exists.mp hdone)
      rw [htrace, hdrive, lastEscape_cons, Option.or_assoc]
      exact ih (hnext h)

theorem drive_trapped (host : Host α σ) (fuel : Nat) {s : Session α σ} {m : Machine} :
    (drive host fuel s m).2.trapped = (m.trapped || (trace host fuel s m).any Machine.springs) := by
  induction fuel generalizing s m with
  | zero => simp [drive, trace]
  | succ fuel ih =>
    by_cases hdone : ∃ o, m.control = .done o
    · obtain ⟨o, ho⟩ := hdone
      obtain ⟨htrace, hdrive⟩ := trace_done host (fuel + 1) s ho
      rw [htrace, hdrive]
      simp
    · obtain ⟨s', m', htrace, hdrive, htrapped, -⟩ := trace_cons host fuel s m (not_exists.mp hdone)
      rw [htrace, hdrive, ih, htrapped, List.any_cons, Bool.or_assoc]

theorem record_plain (errors : Nat → Option GuestError) (handled : Bool) {v : Value} (hplain : v.isPlain) :
    (RunOutcome.record errors false handled v).code =
      if handled then .runtimeError
      else if RunOutcome.guestMessage v = RunOutcome.handlerFailure then .internalError else .memoryError := by
  cases v with
  | error r => simp [Value.isPlain] at hplain
  | _ => simp only [RunOutcome.record, Bool.false_eq_true, if_false, ExecutionError.code_ofRaw]

theorem recordOf_of_uncaught {m : Machine} {v : Value} (h : m.uncaught? = some v) :
    recordOf m = RunOutcome.record (fun r => m.vault.errors[r]?) false m.trapped v := by
  simp only [recordOf, Interpreter.endingOf, Machine.control_of_uncaught h, List.headD_cons]

/-- A run that was not handled is told by its message, which only memory errors and handler failures have. -/
theorem recordOf_code {m : Machine} {r : Raised} (huncaught : m.uncaught? = some r.object) (hplain : r.object.isPlain)
    (hmet : ∀ v, r = .ordinary v → m.trapped = true) :
    (recordOf m).code = if m.trapped then .runtimeError else r.code := by
  rw [recordOf_of_uncaught huncaught, record_plain _ _ hplain]
  by_cases htrapped : m.trapped = true
  · rw [if_pos htrapped, if_pos htrapped]
  · rw [if_neg htrapped, if_neg htrapped]
    cases r with
    | ordinary v => exact absurd (hmet v rfl) htrapped
    -- the texts of the other two kinds are fixed, and the report knows only one of them
    | memory => decide +kernel
    | handler => decide +kernel

def visited (host : Host α σ) (e : Engine α σ) (c : Chunk) : List Machine :=
  trace host stepLimit e.announce.session (e.interpreter.start c)

def ended (host : Host α σ) (e : Engine α σ) (c : Chunk) : Machine :=
  (drive host stepLimit e.announce.session (e.interpreter.start c)).2

theorem ended_watched (host : Host α σ) (e : Engine α σ) (c : Chunk) :
    Watched (lastEscape (visited host e c)) (ended host e c) := by
  have hwatched := drive_watched host stepLimit (s := e.announce.session) (e.interpreter.start_watched c)
  rw [Option.or_none] at hwatched
  exact hwatched

theorem ended_trapped (host : Host α σ) (e : Engine α σ) (c : Chunk) :
    (ended host e c).trapped = (visited host e c).any Machine.springs := by
  have hstart : (e.interpreter.start c).trapped = false := congrArg Prod.snd (Machine.enterScript_marks ..)
  rw [ended, drive_trapped, hstart, Bool.false_or]
  rfl

theorem execute_answer (host : Host α σ) {e : Engine α σ} {c : Chunk} (hc : e.compiled = some c) :
    (e.execute host).1 = (recordOf (ended host e c)).toResult := by
  rw [execute_of_compiled host hc, run_eq, conclude_answer]
  rfl

/-- A run that comes to its end and fails has an uncaught error. -/
theorem uncaught_of_error (host : Host α σ) {e : Engine α σ} {c : Chunk} (hc : e.compiled = some c)
    {error : ExecutionError} (herror : (e.execute host).1 = .error error) {outcome : Except Raised (List Value)}
    (hdone : (ended host e c).control = .done outcome) : ∃ v, (ended host e c).uncaught? = some v := by
  obtain ⟨vs, rfl, htold⟩ := (ended_watched host e c).stage.told hdone
  rcases htold with ⟨-, rest, rfl⟩ | ⟨r, -, rfl⟩
  · rw [execute_answer host hc] at herror
    have hok : recordOf (ended host e c) = .ofRaw ReturnCode.ok.raw "" := by
      simp [recordOf, Interpreter.endingOf, hdone, RunOutcome.record]
    rw [hok] at herror
    cases herror
  · exact ⟨r.object, by simp only [Machine.uncaught?, hdone]⟩

/-- The object of an uncaught error is that of the last error that escaped. -/
theorem lastEscape_of_uncaught (host : Host α σ) {e : Engine α σ} {c : Chunk} {v : Value}
    (hv : (ended host e c).uncaught? = some v) :
    ∃ r, lastEscape (visited host e c) = some r ∧ r.object = v ∧
      ∀ w, r = .ordinary w → (ended host e c).trapped = true := by
  have hwatched := ended_watched host e c
  obtain ⟨vs, hvs, htold⟩ := hwatched.stage.told (Machine.control_of_uncaught hv)
  cases hvs
  rcases htold with ⟨-, rest, htrue⟩ | ⟨r, hlast, hfalse⟩
  · cases htrue
  · cases hfalse
    refine ⟨r, hlast, rfl, fun w hw => ?_⟩
    subst hw
    exact hwatched.met w hlast

/-- A run that fails with an object of the script's own has failed by the last error that escaped. The kind of that error
is reported if it is an ordinary one or if the trap was not sprung in the run, and only then. -/
theorem execute_code_iff (host : Host α σ) {e : Engine α σ} {c : Chunk} (hc : e.compiled = some c) {v : Value}
    (hv : (ended host e c).uncaught? = some v) (hplain : v.isPlain) :
    ∃ r error, lastEscape (visited host e c) = some r ∧ r.object = v ∧ (e.execute host).1 = .error error ∧
      (error.code = r.code ↔ (∃ w, r = .ordinary w) ∨ ∀ m ∈ visited host e c, ¬ m.springs) := by
  obtain ⟨r, hlast, rfl, hmet⟩ := lastEscape_of_uncaught host hv
  have hcode := recordOf_code hv hplain hmet
  have hfails : (recordOf (ended host e c)).code ≠ .ok := by
    rw [hcode]
    split
    · decide
    · cases r <;> simp [Raised.code]
  have hexecute : (e.execute host).1 = .error (recordOf (ended host e c)) := by
    rw [execute_answer host hc]
    exact ExecutionError.toResult_of_ne hfails
  refine ⟨r, recordOf (ended host e c), hlast, rfl, hexecute, ?_⟩
  -- what the report goes by is whether the trap was sprung anywhere on the way
  have hquiet : (ended host e c).trapped = false ↔ ∀ m ∈ visited host e c, ¬ m.springs := by
    simp [ended_trapped]
  rw [← hquiet, hcode]
  cases htrapped : (ended host e c).trapped with
  | false => simp
  | true =>
    cases r with
    | ordinary w => simp [Raised.code]
    | memory => simp [Raised.code]
    | handler => simp [Raised.code]

-- The two runs below are of scripts that fail by an error of memory, on a host without functions.

def idle : Host Empty Unit := ⟨fun handle => nomatch handle⟩

def loadedWith (script : String) : Engine Empty Unit := ((create {} () : Engine Empty Unit).load script).2

def caughtBefore : Engine Empty Unit := loadedWith "pcall(error, 'x') error('not enough memory', 0)"

/-- An error that a protected call catches does not meet the trap. -/
theorem execute_code_iff_caughtBefore :
    ∃ c v r error, caughtBefore.compiled = some c ∧ (ended idle caughtBefore c).uncaught? = some v ∧
      lastEscape (visited idle caughtBefore c) = some r ∧ r.object = v ∧ (caughtBefore.execute idle).1 = .error error ∧
      (error.code = r.code ↔ (∃ w, r = .ordinary w) ∨ ∀ m ∈ visited idle caughtBefore c, ¬ m.springs) := by
  have hc : caughtBefore.compiled.isSome := by decide +kernel
  have hv : (ended idle caughtBefore (caughtBefore.compiled.get hc)).uncaught?.isSome := by
    decide +kernel +revert
  have hplain : ((ended idle caughtBefore (caughtBefore.compiled.get hc)).uncaught?.get hv).isPlain := by
    decide +kernel +revert
  obtain ⟨r, error, hlast, hobject, herror, hcode⟩ :=
    execute_code_iff idle (Option.some_get hc).symm (Option.some_get hv).symm hplain
  exact ⟨_, _, r, error, (Option.some_get hc).symm, (Option.some_get hv).symm, hlast, hobject, herror, hcode⟩

def swallowedBefore : Engine Empty Unit :=
  loadedWith "load(function() error('x') end) error('not enough memory', 0)"

/-- An error that `load` swallows springs the trap, and the error of memory after it is reported as an ordinary one. -/
theorem execute_code_swallowedBefore :
    (swallowedBefore.compiled.bind fun c => lastEscape (visited idle swallowedBefore c)).map Raised.code =
        some .memoryError ∧
      (swallowedBefore.compiled.bind fun c => (ended idle swallowedBefore c).uncaught?).any Value.isPlain ∧
      Event.codeOf (swallowedBefore.execute idle).1 = .runtimeError := by
  decide +kernel

end Engine

end ScriptHost
