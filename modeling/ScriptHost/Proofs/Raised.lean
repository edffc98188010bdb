import ScriptHost.Proofs.Dispatch
import ScriptHost.Proofs.Lifecycle

/-! # The errors that the dispatcher raises

A call from a script that fails is raised in the script as an error with a new object. What becomes of the object is up to
the script; here only the errors are listed, in the order of the calls, over a run and over the life of an engine. -/

namespace ScriptHost

open Lua (Value GuestError Machine Chunk)

variable {α σ : Type}

namespace Dispatch

theorem invoke_bridge (host : Host α σ) (s : Session α σ) (key : Key) (args : List Argument) :
    (invoke host s key args).2.bridge = s.bridge := by
  unfold invoke
  split
  · rfl
  · simp only
    split
    · exact Session.emit_bridge ..
    · rfl

theorem callKey_bridge (host : Host α σ) (s : Session α σ) (key : Key) (trailing : List Value) :
    (callKey host s key trailing).2.bridge = s.bridge := by
  unfold callKey
  simp only
  split
  · exact Session.emit_bridge ..
  · rw [invoke_bridge, reportArguments_bridge, Session.emit_bridge]

/-- Whether the head of a call spells a key. -/
def Headed (frame : List Value) : Prop := ∃ key : Key, Spells frame[0]? key.space ∧ Spells frame[1]? key.name

/-- A call without a proper head is refused, and nothing else happens. -/
theorem run_of_not_headed (host : Host α σ) (s : Session α σ) {frame : List Value} (h : ¬ Headed frame) :
    ∃ message, run host s frame = (.error (.runtime message), s) := by
  rcases target_cases frame with ⟨key, -, hspace, hname⟩ | ⟨htarget, -⟩ | ⟨_, htarget, -⟩
  · exact absurd ⟨key, hspace, hname⟩ h
  · simp only [run, htarget]
    exact ⟨_, rfl⟩
  · simp only [run, htarget]
    exact ⟨_, rfl⟩

/-- A call is answered, or its head is refused and nothing happens, or it fails and the failure becomes the last error. -/
theorem run_cases (host : Host α σ) (s : Session α σ) (frame : List Value) :
    (∃ v t, run host s frame = (.ok v, t) ∧ t.bridge = s.bridge) ∨
      (∃ message, run host s frame = (.error (.runtime message), s)) ∨
      ∃ f t, run host s frame = (.error (.failure f), t) ∧ t.bridge = { s.bridge with lastError := some f.message } := by
  cases htarget : target frame with
  | error error =>
    have hheadless : ¬ Headed frame := fun ⟨key, hspace, hname⟩ => by
      simp [target, headText_of_spells hspace, headText_of_spells hname, bind, Except.bind] at htarget
    exact Or.inr (Or.inl (run_of_not_headed host s hheadless))
  | ok key =>
    obtain ⟨⟨answer, t⟩, hcall⟩ : ∃ r, callKey host s key (frame.drop 2) = r := ⟨_, rfl⟩
    have hbridge : t.bridge = s.bridge := by
      have hkey := callKey_bridge host s key (frame.drop 2)
      rwa [hcall] at hkey
    simp only [run, htarget, hcall]
    cases answer with
    | ok n => exact Or.inl ⟨_, _, rfl, hbridge⟩
    | error f => exact Or.inr (Or.inr ⟨f, _, rfl, by rw [Session.failCall_bridge, hbridge]⟩)

section Answer

variable {host : Host α σ} {s t : Session α σ} {frame : List Value}

theorem bridge_of_run_ok {v : Value} (h : run host s frame = (.ok v, t)) : t.bridge = s.bridge := by
  rcases run_cases host s frame with ⟨_, _, hcase, hbridge⟩ | ⟨_, hcase⟩ | ⟨_, _, hcase, -⟩
  · obtain ⟨-, rfl⟩ := Prod.mk.inj (h.symm.trans hcase)
    exact hbridge
  · cases congrArg Prod.fst (h.symm.trans hcase)
  · cases congrArg Prod.fst (h.symm.trans hcase)

theorem run_error_cases {error : GuestError} (h : run host s frame = (.error error, t)) :
    (∃ message, error = .runtime message ∧ t = s) ∨
      ∃ f, error = .failure f ∧ t.bridge = { s.bridge with lastError := some f.message } := by
  rcases run_cases host s frame with ⟨_, _, hcase, -⟩ | ⟨message, hcase⟩ | ⟨f, _, hcase, hbridge⟩
  · cases congrArg Prod.fst (h.symm.trans hcase)
  · obtain ⟨herror, rfl⟩ := Prod.mk.inj (h.symm.trans hcase)
    exact Or.inl ⟨message, Except.error.inj herror, rfl⟩
  · obtain ⟨herror, rfl⟩ := Prod.mk.inj (h.symm.trans hcase)
    exact Or.inr ⟨f, Except.error.inj herror, hbridge⟩

end Answer

end Dispatch

namespace Lua

def Machine.raising? (m : Machine) : Option Value :=
  match m.control with
  | .task (.raise e _) => some e.object
  | _ => none

end Lua

namespace Engine

/-- The errors that the dispatcher raises in a run, each with the object that stands for it. -/
def raised (host : Host α σ) : Nat → Session α σ → Machine → List (Value × GuestError)
  | 0, _, _ => []
  | fuel + 1, s, m =>
    match m.control with
    | .done _ => []
    | .host frame c k =>
      let (answer, s) := Dispatch.run host s frame
      let m := m.hostAnswer answer c k
      match answer with
      | .ok _ => raised host fuel s m
      | .error error => (m.raising?.getD .nil, error) :: raised host fuel s m
    | _ => raised host fuel s m.step

/-- What holds of the session, the machine and the errors raised so far holds in the end of a run, if steps keep it and
answers of the dispatcher keep it. -/
theorem drive_induction {host : Host α σ} {P : Session α σ → Machine → List (Value × GuestError) → Prop}
    (hstep : ∀ {s m rs}, P s m rs → P s m.step rs)
    (hanswered : ∀ {s m rs frame c k v t}, P s m rs → Dispatch.run host s frame = (.ok v, t) →
      P t (m.hostAnswer (.ok v) c k) rs)
    (hraised : ∀ {s m rs frame c k error t}, P s m rs → Dispatch.run host s frame = (.error error, t) →
      P t (m.hostAnswer (.error error) c k) (rs ++ [(.error m.vault.errors.size, error)]))
    (fuel : Nat) (s : Session α σ) (m : Machine) (rs : List (Value × GuestError)) (h : P s m rs) :
    P (drive host fuel s m).1 (drive host fuel s m).2 (rs ++ raised host fuel s m) := by
  induction fuel generalizing s m rs with
  | zero =>
    rw [raised, List.append_nil]
    exact h
  | succ fuel ih =>
    unfold drive raised
    cases m.control with
    | done outcome =>
      rw [List.append_nil]
      exact h
    | host frame c k =>
      obtain ⟨⟨answer, t⟩, hrun⟩ : ∃ r, Dispatch.run host s frame = r := ⟨_, rfl⟩
      simp only [hrun]
      cases answer with
      | ok v => exact ih _ _ _ (hanswered h hrun)
      | error error =>
        -- the new error comes after those raised so far and before those of the rest
        have hnext := ih _ _ _ (hraised (c := c) (k := k) h hrun)
        rwa [List.append_assoc, List.singleton_append] at hnext
    | _ => exact ih _ _ _ (hstep h)

def errorOf {ε β : Type} : Except ε β → Option ε
  | .error error => some error
  | .ok _ => none

theorem eq_error_of_errorOf {ε β : Type} {r : Except ε β} {error : ε} (h : errorOf r = some error) :
    r = .error error := by
  cases r with
  | error _ => rw [Option.some.inj h]
  | ok _ => cases h

theorem eq_ok_of_errorOf {ε : Type} {r : Except ε Unit} (h : errorOf r = none) : r = .ok () := by
  cases r with
  | error _ => cases h
  | ok _ => rfl

def start? (e : Engine α σ) : Option (Session α σ × Machine) :=
  e.compiled.map fun c => (e.announce.session, e.interpreter.start c)

theorem start?_of_compiled {e : Engine α σ} {c : Chunk} (h : e.compiled = some c) :
    e.start? = some (e.announce.session, e.interpreter.start c) := by
  rw [start?, h, Option.map_some]

theorem start?_of_not_compiled {e : Engine α σ} (h : e.compiled = none) : e.start? = none := by
  rw [start?, h, Option.map_none]

namespace Operation

def start? (e : Engine α σ) : Operation α → Option (Session α σ × Machine)
  | execute => e.start?
  | executeScript script =>
    match e.load script with
    | (.ok (), e) => e.start?
    | (.error _, _) => none
  | _ => none

theorem start?_executeScript_of_load_error {e : Engine α σ} {script : String} {error : ExecutionError}
    (h : (e.load script).1 = .error error) : (executeScript script).start? e = none := by
  have hload : e.load script = (.error error, (e.load script).2) := Prod.ext h rfl
  rw [start?, hload]

theorem start?_executeScript_of_load_ok {e : Engine α σ} {script : String} (h : (e.load script).1 = .ok ()) :
    (executeScript script).start? e = (e.load script).2.start? := by
  have hload : e.load script = (.ok (), (e.load script).2) := Prod.ext h rfl
  rw [start?, hload]

/-- A run starts from the engine as an operation finds it, or as a load has left it. -/
theorem start?_from {e : Engine α σ} {op : Operation α} {s : Session α σ} {m : Machine} (h : op.start? e = some (s, m)) :
    ∃ e' c, (e' = e ∨ ∃ script, e.load script = (.ok (), e')) ∧ s = e'.announce.session ∧
      m = e'.interpreter.start c := by
  have hannounced {e' : Engine α σ} (h : e'.start? = some (s, m)) :
      ∃ c, s = e'.announce.session ∧ m = e'.interpreter.start c := by
    obtain ⟨c, -, hstart⟩ := Option.map_eq_some_iff.mp h
    cases hstart
    exact ⟨c, rfl, rfl⟩
  cases op with
  | execute =>
    obtain ⟨c, hstart⟩ := hannounced h
    exact ⟨e, c, .inl rfl, hstart⟩
  | executeScript script =>
    cases hload : (e.load script).1 with
    | error error =>
      rw [start?_executeScript_of_load_error hload] at h
      cases h
    | ok =>
      rw [start?_executeScript_of_load_ok hload] at h
      obtain ⟨c, hstart⟩ := hannounced h
      exact ⟨_, c, .inr ⟨script, Prod.ext hload rfl⟩, hstart⟩
  | _ => cases h

/-- The session of an engine at a point of the run that an operation makes, by the moves that were made; if there is no
run, before the operation. -/
def sessionAt (host : Host α σ) (moves : Nat) (e : Engine α σ) (op : Operation α) : Session α σ :=
  match op.start? e with
  | some (s, m) => (drive host moves s m).1
  | none => e.session

/-- The errors that the dispatcher raises up to a point of the run that an operation makes. -/
def raisedAt (host : Host α σ) (moves : Nat) (e : Engine α σ) (op : Operation α) : List (Value × GuestError) :=
  match op.start? e with
  | some (s, m) => raised host moves s m
  | none => []

end Operation

/-- The errors that the dispatcher raised in the runs of a series of operations. -/
def raisedOf (host : Host α σ) : List (Operation α) → Engine α σ → List (Value × GuestError)
  | [], _ => []
  | op :: ops, e => op.raisedAt host stepLimit e ++ raisedOf host ops (op.apply host e)

end Engine

end ScriptHost
