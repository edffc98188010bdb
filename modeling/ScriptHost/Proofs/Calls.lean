import ScriptHost.Proofs.LastError
import ScriptHost.Proofs.Registration

/-! # The calls of host functions

Which host functions are called, and on what, can be read off the machine: a call is made where the machine asks the
host and the list of values spells a registered key and arguments that can cross the border. The calls are listed here
over a run, over operations and over the end of an engine, and a host that keeps notes of its calls has noted just
these. -/

namespace ScriptHost

open Lua (Value GuestError Interpreter Machine Chunk)

variable {α σ γ : Type}

/-- A call of a host function: the key that it was called by, the handle of the key, and the arguments. -/
structure HostCall (α : Type) where
  key : Key
  handle : α
  args : List Argument

def HostCall.noted (note : α → List Argument → γ) (c : HostCall α) : γ := note c.handle c.args

/-- A host that keeps a note of each of its calls, in their order. -/
def Host.Notes (host : Host α σ) (notes : σ → List γ) (note : α → List Argument → γ) : Prop :=
  ∀ handle args state, notes (host.call handle args state).2 = notes state ++ [note handle args]

namespace Dispatch

def callWith? (registry : Registry α) (key : Key) (args : List Argument) : Option (HostCall α) :=
  (registry.resolve key).map fun handle => ⟨key, handle, args⟩

def callOf? (registry : Registry α) (key : Key) (trailing : List Value) : Option (HostCall α) :=
  match Marshal.toArguments trailing with
  | .ok args => callWith? registry key args
  | .error _ => none

def request? (registry : Registry α) (frame : List Value) : Option (HostCall α) :=
  match target frame with
  | .ok key => callOf? registry key (frame.drop 2)
  | .error _ => none

variable {host : Host α σ} {notes : σ → List γ} {note : α → List Argument → γ}

theorem invoke_notes (h : host.Notes notes note) (s : Session α σ) (key : Key) (args : List Argument) :
    notes (invoke host s key args).2.host =
      notes s.host ++ (callWith? s.bridge.registry key args).toList.map (HostCall.noted note) := by
  unfold invoke callWith?
  cases s.bridge.registry.resolve key with
  | none => simp
  | some handle =>
    have hnoted := h handle args s.host
    obtain ⟨⟨answer, after⟩, hcall⟩ : ∃ r, host.call handle args s.host = r := ⟨_, rfl⟩
    rw [hcall] at hnoted
    simp only [hcall]
    cases answer with
    | ok n => simpa [HostCall.noted] using hnoted
    | error error => simpa [HostCall.noted] using hnoted

theorem callKey_notes (h : host.Notes notes note) (s : Session α σ) (key : Key) (trailing : List Value) :
    notes (callKey host s key trailing).2.host =
      notes s.host ++ (callOf? s.bridge.registry key trailing).toList.map (HostCall.noted note) := by
  unfold callKey callOf?
  cases Marshal.toArguments trailing with
  | error error => simp
  | ok args => simp [invoke_notes h]

theorem run_notes (h : host.Notes notes note) (s : Session α σ) (frame : List Value) :
    notes (run host s frame).2.host =
      notes s.host ++ (request? s.bridge.registry frame).toList.map (HostCall.noted note) := by
  unfold run request?
  cases target frame with
  | error error => simp
  | ok key =>
    have hcalled := callKey_notes h s key (frame.drop 2)
    obtain ⟨⟨answer, t⟩, hcall⟩ : ∃ r, callKey host s key (frame.drop 2) = r := ⟨_, rfl⟩
    rw [hcall] at hcalled
    simp only [hcall]
    cases answer with
    | ok n => exact hcalled
    | error f => simpa using hcalled

end Dispatch

namespace Engine

def called (host : Host α σ) : Nat → Session α σ → Machine → List (HostCall α)
  | 0, _, _ => []
  | fuel + 1, s, m =>
    match m.control with
    | .done _ => []
    | .host frame c k =>
      let (answer, t) := Dispatch.run host s frame
      (Dispatch.request? s.bridge.registry frame).toList ++ called host fuel t (m.hostAnswer answer c k)
    | _ => called host fuel s m.step

namespace Operation

def calls (host : Host α σ) (e : Engine α σ) (op : Operation α) : List (HostCall α) :=
  match op with
  | invoke key args =>
    if e.interpreter.heap.hasRoom e.interpreter.limit (frameSize key args) then
      (Dispatch.request? e.session.bridge.registry (frame key args)).toList
    else []
  | op =>
    match op.start? e with
    | some (s, m) => called host stepLimit s m
    | none => []

end Operation

def callsOf (host : Host α σ) : List (Operation α) → Engine α σ → List (HostCall α)
  | [], _ => []
  | op :: ops, e => op.calls host e ++ callsOf host ops (op.apply host e)

def finalCalls (host : Host α σ) : List Nat → Engine α σ → List (HostCall α)
  | [], _ => []
  | table :: rest, e =>
    let m := e.interpreter.startFinalizer table
    called host stepLimit e.session m ++ finalCalls host rest { e with
      session := (drive host stepLimit e.session m).1
      interpreter := e.interpreter.takeBack (drive host stepLimit e.session m).2 }

/-- The calls that the end of an engine brings. -/
def closingCalls (host : Host α σ) (e : Engine α σ) : List (HostCall α) :=
  finalCalls host e.interpreter.heap.finalizable (e.emit .info fun _ => "destroyed")

theorem resolve_of_request {registry : Registry α} {frame : List Value} {c : HostCall α}
    (h : Dispatch.request? registry frame = some c) : registry.resolve c.key = some c.handle := by
  unfold Dispatch.request? Dispatch.callOf? Dispatch.callWith? at h
  split at h
  · split at h
    · obtain ⟨handle, hresolve, rfl⟩ := Option.map_eq_some_iff.mp h
      exact hresolve
    · cases h
  · cases h

theorem resolve_of_mem_called (host : Host α σ) (fuel : Nat) {s : Session α σ} {m : Machine} {c : HostCall α}
    (h : c ∈ called host fuel s m) : s.bridge.registry.resolve c.key = some c.handle := by
  induction fuel generalizing s m with
  | zero => cases h
  | succ fuel ih =>
    unfold called at h
    cases hcontrol : m.control with
    | done outcome => simp [hcontrol] at h
    | host frame caller k =>
      simp only [hcontrol] at h
      rcases List.mem_append.mp h with h | h
      · exact resolve_of_request (Option.mem_toList.mp h)
      · have hresolve := ih h
        rwa [Dispatch.run_registry] at hresolve
    | task t => exact ih (by simpa only [hcontrol] using h)
    | native caller r => exact ih (by simpa only [hcontrol] using h)
    | unwind e => exact ih (by simpa only [hcontrol] using h)

namespace Operation

theorem start?_registry {e : Engine α σ} {op : Operation α} {s : Session α σ} {m : Machine}
    (h : op.start? e = some (s, m)) : s.bridge.registry = e.registry := by
  obtain ⟨e', -, hfrom, rfl, -⟩ := start?_from h
  refine (registry_emit ..).trans ?_
  rcases hfrom with rfl | ⟨script, hload⟩
  · rfl
  · have hloaded := registry_load e script
    rwa [hload] at hloaded

end Operation

theorem resolve_of_mem_calls {host : Host α σ} {e : Engine α σ} {op : Operation α} {c : HostCall α}
    (h : c ∈ op.calls host e) : e.registry.resolve c.key = some c.handle := by
  unfold Operation.calls at h
  split at h
  · split at h
    · exact resolve_of_request (Option.mem_toList.mp h)
    · cases h
  · split at h
    · next s m hstart =>
      rw [← Operation.start?_registry hstart]
      exact resolve_of_mem_called host stepLimit h
    · cases h

/-- Between registrations every call is one of the handle that its key is registered with. -/
theorem resolve_of_mem_callsOf {host : Host α σ} {ops : List (Operation α)} (hops : ∀ op ∈ ops, op.registration? = none)
    {e : Engine α σ} {c : HostCall α} (h : c ∈ callsOf host ops e) : e.registry.resolve c.key = some c.handle := by
  induction ops generalizing e with
  | nil => cases h
  | cons op ops ih =>
    rcases List.mem_append.mp h with h | h
    · exact resolve_of_mem_calls h
    · have hresolve := ih (fun op hop => hops op (List.mem_cons_of_mem _ hop)) h
      rwa [registry_apply, hops op List.mem_cons_self] at hresolve

theorem resolve_of_mem_closingCalls {host : Host α σ} {e : Engine α σ} {c : HostCall α}
    (h : c ∈ closingCalls host e) : e.registry.resolve c.key = some c.handle := by
  have hfinal (tables : List Nat) (e : Engine α σ) (h : c ∈ finalCalls host tables e) :
      e.registry.resolve c.key = some c.handle := by
    induction tables generalizing e with
    | nil => cases h
    | cons table rest ih =>
      rcases List.mem_append.mp h with h | h
      · exact resolve_of_mem_called host stepLimit h
      · have hresolve := ih _ h
        rwa [registry, drive_registry] at hresolve
  have hresolve := hfinal _ _ h
  rwa [registry_emit] at hresolve

section Notes

variable {host : Host α σ} {notes : σ → List γ} {note : α → List Argument → γ}

theorem drive_notes (h : host.Notes notes note) (fuel : Nat) (s : Session α σ) (m : Machine) :
    notes (drive host fuel s m).1.host =
      notes s.host ++ (called host fuel s m).map (HostCall.noted note) := by
  induction fuel generalizing s m with
  | zero => simp [drive, called]
  | succ fuel ih =>
    unfold drive called
    cases m.control with
    | done outcome => simp
    | host frame c k =>
      have hrun := Dispatch.run_notes h s frame
      simp only [ih, hrun, List.map_append, List.append_assoc]
    | _ => exact ih s m.step

@[simp] theorem host_emit (e : Engine α σ) (severity : Severity) (message : Unit → String) :
    (e.emit severity message).session.host = e.session.host := Session.emit_host ..

theorem host_fail (e : Engine α σ) (operation : String) (error : ExecutionError) :
    (e.fail operation error).session.host = e.session.host := host_emit ..

theorem host_load (e : Engine α σ) (script : String) : (e.load script).2.session.host = e.session.host := by
  unfold load
  simp only
  split
  · exact host_emit ..
  · exact (host_fail ..).trans (host_emit ..)

theorem host_conclude (e : Engine α σ) (session : Session α σ) (m : Machine) :
    (e.conclude session m).2.session.host = session.host := by
  unfold conclude
  simp only
  split
  · rfl
  · exact host_fail ..

theorem host_register (e : Engine α σ) (key : Key) (handle : α) :
    (e.register key handle).2.session.host = e.session.host := by
  unfold register
  simp only
  split
  · exact host_emit ..
  · split
    · exact (host_emit ..).trans (host_emit ..)
    · exact host_emit ..

theorem host_registerAll (functions : List (Key × α)) (e : Engine α σ) :
    (registerAll functions e).2.session.host = e.session.host := by
  induction functions generalizing e with
  | nil => rfl
  | cons p rest ih =>
    have hregister := host_register e p.1 p.2
    unfold registerAll
    split
    · next hok =>
      rw [hok] at hregister
      exact (ih _).trans hregister
    · next herror =>
      rw [herror] at hregister
      exact hregister

theorem execute_notes (h : host.Notes notes note) (e : Engine α σ) :
    notes (e.execute host).2.session.host =
      notes e.session.host ++ ((Operation.execute : Operation α).calls host e).map (HostCall.noted note) := by
  cases hcompiled : e.compiled with
  | none =>
    rw [execute_without_script host hcompiled, host_fail]
    simp [Operation.calls, Operation.start?, start?_of_not_compiled hcompiled]
  | some c =>
    have hannounce : e.announce.session.host = e.session.host := host_emit ..
    rw [execute_of_compiled host hcompiled, run_eq, host_conclude, drive_notes h, hannounce]
    simp only [Operation.calls, Operation.start?, start?_of_compiled hcompiled]
    rfl

theorem executeScript_notes (h : host.Notes notes note) (e : Engine α σ) (script : String) :
    notes (e.executeScript host script).2.session.host =
      notes e.session.host ++ ((Operation.executeScript script).calls host e).map (HostCall.noted note) := by
  rw [← host_load e script]
  cases hload : (e.load script).1 with
  | error error =>
    simp [executeScript_of_load_error host hload, Operation.calls, Operation.start?_executeScript_of_load_error hload]
  | ok =>
    simp only [executeScript_of_load_ok host hload, Operation.calls, Operation.start?_executeScript_of_load_ok hload]
    exact execute_notes h _

theorem invoke_notes (h : host.Notes notes note) (e : Engine α σ) (key : Key) (args : List Argument) :
    notes (e.invoke host key args).2.session.host =
      notes e.session.host ++ ((Operation.invoke key args).calls host e).map (HostCall.noted note) := by
  by_cases hroom : e.interpreter.heap.hasRoom e.interpreter.limit (frameSize key args) = true
  · have hrun := Dispatch.run_notes h e.session (frame key args)
    obtain ⟨⟨answer, t⟩, hanswer⟩ : ∃ r, Dispatch.run host e.session (frame key args) = r := ⟨_, rfl⟩
    simp only [Operation.calls, hroom, invoke, hanswer, Bool.not_true, Bool.false_eq_true, if_false, if_true]
    rw [hanswer] at hrun
    cases answer with
    | error error => simpa [host_fail] using hrun
    | ok v =>
      simp only
      split
      · exact hrun
      · simpa [host_fail] using hrun
  · simp [Operation.calls, hroom, invoke, host_fail]

/-- What the host notes of an operation are the calls of the operation. -/
theorem apply_notes (h : host.Notes notes note) (e : Engine α σ) (op : Operation α) :
    notes (op.apply host e).session.host =
      notes e.session.host ++ (op.calls host e).map (HostCall.noted note) := by
  cases op with
  | load script => simp [Operation.apply, Operation.calls, Operation.start?, host_load]
  | execute => exact execute_notes h e
  | executeScript script => exact executeScript_notes h e script
  | invoke key args => exact invoke_notes h e key args
  | register key handle => simp [Operation.apply, Operation.calls, Operation.start?, host_register]
  | setLogLevel word =>
    simp only [Operation.apply, Operation.calls, Operation.start?, setLogLevel]
    split <;> simp

theorem after_notes (h : host.Notes notes note) (ops : List (Operation α)) (e : Engine α σ) :
    notes (after host ops e).session.host =
      notes e.session.host ++ (callsOf host ops e).map (HostCall.noted note) := by
  induction ops generalizing e with
  | nil => simp [after, callsOf]
  | cons op ops ih =>
    have hrest : notes (after host (op :: ops) e).session.host = _ := ih (op.apply host e)
    rw [hrest, apply_notes h, callsOf, List.map_append, List.append_assoc]

theorem close_notes (h : host.Notes notes note) (e : Engine α σ) :
    notes (e.close host).session.host =
      notes e.session.host ++ (closingCalls host e).map (HostCall.noted note) := by
  have hfinal (tables : List Nat) (e : Engine α σ) : notes (finalize host tables e).session.host =
      notes e.session.host ++ (finalCalls host tables e).map (HostCall.noted note) := by
    induction tables generalizing e with
    | nil => simp [finalize, finalCalls]
    | cons table rest ih => simp only [finalize, finalCalls, ih, drive_notes h, List.map_append, List.append_assoc]
  have hclose : e.close host =
      finalize host e.interpreter.heap.finalizable (e.emit .info fun _ => "destroyed") := rfl
  rw [hclose, hfinal, host_emit]
  rfl

end Notes

end Engine

end ScriptHost
