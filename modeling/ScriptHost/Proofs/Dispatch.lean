import ScriptHost.Dispatch
import ScriptHost.Proofs.Marshal
import ScriptHost.Proofs.Registry

/-! # How a call from a script ends

A call passes five checks, and the first that fails decides. The ending is described by a relation with one rule for each
check and one for a call that passes all of them; the host is watched through a host that keeps the calls it gets. Log
events depend on the level, but nothing that is said here does. -/

namespace ScriptHost

open Lua (Value GuestError bytes)
open Marshal (Carries Crosses FirstRefused refusal)

variable {α σ : Type}

/-- A host that also keeps the calls it gets, oldest first. -/
def Host.recording (host : Host α σ) : Host α (σ × List (α × List Argument)) where
  call handle args := fun (state, calls) =>
    let (answer, after) := host.call handle args state
    (answer, after, calls ++ [(handle, args)])

namespace Session

@[simp] theorem emit_bridge (s : Session α σ) (severity : Severity) (message : Unit → String) :
    (s.emit severity message).bridge = s.bridge := by
  unfold emit
  split <;> rfl

@[simp] theorem emit_host (s : Session α σ) (severity : Severity) (message : Unit → String) :
    (s.emit severity message).host = s.host := by
  unfold emit
  split <;> rfl

@[simp] theorem failCall_bridge (s : Session α σ) (f : CallFailure) :
    (s.failCall f).bridge = { s.bridge with lastError := some f.message } := by
  simp [failCall, remember]

@[simp] theorem failCall_host (s : Session α σ) (f : CallFailure) : (s.failCall f).host = s.host := by
  simp [failCall, remember]

end Session

namespace Dispatch

@[simp] theorem reportArguments_bridge (s : Session α σ) (position : Nat) (args : List Argument) :
    (reportArguments s position args).bridge = s.bridge := by
  induction args generalizing s position with
  | nil => rfl
  | cons a as ih => simp [reportArguments, ih]

@[simp] theorem reportArguments_host (s : Session α σ) (position : Nat) (args : List Argument) :
    (reportArguments s position args).host = s.host := by
  induction args generalizing s position with
  | nil => rfl
  | cons a as ih => simp [reportArguments, ih]

/-- A value at the head of a call that spells a text. -/
def Spells (v : Option Value) (s : String) : Prop := v = some (.str (bytes s))

/-- What a script is told about a head that spells no text. -/
def headRefusal (v : Option Value) (what : String) : String :=
  match v with
  | some (.str _) => what ++ " must be a valid UTF-8 string"
  | some v => what ++ " must be a string, got " ++ v.kindName
  | none => what ++ " must be a string, got no value"

theorem headText_of_spells {v : Option Value} {s : String} (h : Spells v s) (what : String) :
    headText v what = .ok s := by
  subst h
  have hs : Text.Utf8.decode? (bytes s) = some s := (Text.Utf8.decode?_eq_some_iff _ s).mpr rfl
  simp [headText, hs]

theorem headText_of_not_spells {v : Option Value} (h : ∀ s, ¬ Spells v s) (what : String) :
    headText v what = .error (.runtime (headRefusal v what)) := by
  cases v with
  | none => rfl
  | some v =>
    cases v with
    | str b =>
      have hb : Text.Utf8.decode? b = none := Option.eq_none_iff_forall_ne_some.mpr fun s hs =>
        h s (congrArg (some ∘ Value.str) ((Text.Utf8.decode?_eq_some_iff b s).mp hs))
      simp [headText, hb, headRefusal]
    | _ => rfl

/-- The ways a call ends: for a head that spells no text, in a failure of the call, or with the result of the host. -/
inductive Ending where
  | refused (message : String)
  | failed (f : CallFailure)
  | returned (n : Int32)

namespace Ending

def ofAnswer : Except CallFailure Int32 → Ending
  | .ok n => .returned n
  | .error f => .failed f

/-- What the script gets from a call: an error, or the result as a whole number of the guest. -/
inductive Answers : Ending → Except GuestError Value → Prop
  | refused (message : String) : Answers (.refused message) (.error (.runtime message))
  | failed (f : CallFailure) : Answers (.failed f) (.error (.failure f))
  | returned {n : Int32} {k : Int64} (h : k.toInt = n.toInt) : Answers (.returned n) (.ok (.int k))

/-- The last error after a call, from the one before it. -/
def lastError (before : Option String) : Ending → Option String
  | .failed f => some f.message
  | _ => before

end Ending

/-- How a call ends, which host functions are called on the way, and the state of the host after them. Each rule but the
last is for the first check that fails. -/
inductive Ends (host : Host α σ) (regs : List (Key × α)) (state : σ) :
    List Value → Ending → List (α × List Argument) → σ → Prop
  | space {frame : List Value} (hspace : ∀ s, ¬ Spells frame[0]? s) :
    Ends host regs state frame (.refused (headRefusal frame[0]? "namespace")) [] state
  | name {frame : List Value} {space : String} (hspace : Spells frame[0]? space) (hname : ∀ s, ¬ Spells frame[1]? s) :
    Ends host regs state frame (.refused (headRefusal frame[1]? "function name")) [] state
  | argument {frame : List Value} {key : Key} {i : Nat} {v : Value} (hspace : Spells frame[0]? key.space)
    (hname : Spells frame[1]? key.name) (hfirst : FirstRefused (frame.drop 2) i v) :
    Ends host regs state frame (.failed (.marshal (refusal v (i + 1)))) [] state
  | unknown {frame : List Value} {key : Key} (hspace : Spells frame[0]? key.space) (hname : Spells frame[1]? key.name)
    (hargs : ∀ v ∈ frame.drop 2, Crosses v) (hnone : ∀ p ∈ regs, p.1 ≠ key) :
    Ends host regs state frame (.failed (.functionNotFound key)) [] state
  | host {frame : List Value} {key : Key} {args : List Argument} {handle : α} {e : HostError} {after : σ}
    (hspace : Spells frame[0]? key.space) (hname : Spells frame[1]? key.name)
    (hargs : List.Forall₂ Carries (frame.drop 2) args) (hlast : Registry.Last regs key handle)
    (hcall : host.call handle args state = (.error e, after)) :
    Ends host regs state frame (.failed (.hostFunction key e)) [(handle, args)] after
  | success {frame : List Value} {key : Key} {args : List Argument} {handle : α} {n : Int32} {after : σ}
    (hspace : Spells frame[0]? key.space) (hname : Spells frame[1]? key.name)
    (hargs : List.Forall₂ Carries (frame.drop 2) args) (hlast : Registry.Last regs key handle)
    (hcall : host.call handle args state = (.ok n, after)) :
    Ends host regs state frame (.returned n) [(handle, args)] after

/-- The head of a call names a key, or the first part that spells no text is to blame. -/
theorem target_cases (frame : List Value) :
    (∃ key, target frame = .ok key ∧ Spells frame[0]? key.space ∧ Spells frame[1]? key.name) ∨
      (target frame = .error (.runtime (headRefusal frame[0]? "namespace")) ∧ ∀ s, ¬ Spells frame[0]? s) ∨
      ∃ space, target frame = .error (.runtime (headRefusal frame[1]? "function name")) ∧
        Spells frame[0]? space ∧ ∀ s, ¬ Spells frame[1]? s := by
  by_cases hspace : ∃ s, Spells frame[0]? s
  · obtain ⟨space, hspace⟩ := hspace
    by_cases hname : ∃ s, Spells frame[1]? s
    · obtain ⟨name, hname⟩ := hname
      refine Or.inl ⟨⟨space, name⟩, ?_, hspace, hname⟩
      simp only [target, headText_of_spells hspace, headText_of_spells hname]
      rfl
    · have hname : ∀ s, ¬ Spells frame[1]? s := fun s hs => hname ⟨s, hs⟩
      refine Or.inr (Or.inr ⟨space, ?_, hspace, hname⟩)
      simp only [target, headText_of_spells hspace, headText_of_not_spells hname]
      rfl
  · have hspace : ∀ s, ¬ Spells frame[0]? s := fun s hs => hspace ⟨s, hs⟩
    refine Or.inr (Or.inl ⟨?_, hspace⟩)
    simp only [target, headText_of_not_spells hspace]
    rfl

theorem invoke_ends (host : Host α σ) (regs : List (Key × α)) {s : Session α (σ × List (α × List Argument))} {state : σ}
    (hregs : s.bridge.registry = .ofList regs) (hstate : s.host = (state, [])) {frame : List Value} {key : Key}
    {args : List Argument} (hspace : Spells frame[0]? key.space) (hname : Spells frame[1]? key.name)
    (hargs : List.Forall₂ Carries (frame.drop 2) args) :
    ∃ answer t, invoke host.recording s key args = (answer, t) ∧ t.bridge = s.bridge ∧
      Ends host regs state frame (.ofAnswer answer) t.host.2 t.host.1 := by
  rcases Registry.resolve_ofList regs key with ⟨handle, hresolve, hlast⟩ | ⟨hresolve, hnone⟩
  · obtain ⟨⟨answer, after⟩, hcall⟩ : ∃ r, host.call handle args state = r := ⟨_, rfl⟩
    have hrecord : host.recording.call handle args s.host = (answer, after, [(handle, args)]) := by
      simp [Host.recording, hstate, hcall]
    simp only [invoke, hregs, hresolve, hrecord]
    cases answer with
    | ok n =>
      refine ⟨_, _, rfl, Session.emit_bridge .., ?_⟩
      rw [Session.emit_host]
      exact .success hspace hname hargs hlast hcall
    | error e => exact ⟨_, _, rfl, rfl, .host hspace hname hargs hlast hcall⟩
  · have hcross : ∀ v ∈ frame.drop 2, Crosses v := Marshal.crosses_of_carries hargs
    simp only [invoke, hregs, hresolve]
    refine ⟨_, _, rfl, rfl, ?_⟩
    rw [hstate]
    exact .unknown hspace hname hcross hnone

theorem callKey_ends (host : Host α σ) (regs : List (Key × α)) {s : Session α (σ × List (α × List Argument))}
    {state : σ} (hregs : s.bridge.registry = .ofList regs) (hstate : s.host = (state, [])) {frame : List Value}
    {key : Key} (hspace : Spells frame[0]? key.space) (hname : Spells frame[1]? key.name) :
    ∃ answer t, callKey host.recording s key (frame.drop 2) = (answer, t) ∧ t.bridge = s.bridge ∧
      Ends host regs state frame (.ofAnswer answer) t.host.2 t.host.1 := by
  rcases Marshal.toArgumentsFrom_cases (frame.drop 2) 1 with ⟨args, hargs, hall⟩ | ⟨i, v, hfirst, hargs⟩
  · simp only [callKey, Marshal.toArguments, hargs]
    have hregs' : (reportArguments (s.emit .trace fun _ =>
        s!"call frame: function={key.text}\n{Marshal.dump (frame.drop 2)}") 1 args).bridge.registry = .ofList regs := by
      simpa using hregs
    obtain ⟨answer, t, hinvoke, hbridge, hends⟩ := invoke_ends host regs hregs' (by simpa using hstate) hspace hname hall
    exact ⟨answer, t, hinvoke, by simpa using hbridge, hends⟩
  · simp only [callKey, Marshal.toArguments, hargs, Nat.add_comm 1 i]
    refine ⟨_, _, rfl, Session.emit_bridge .., ?_⟩
    rw [Session.emit_host, hstate]
    exact .argument hspace hname hfirst

/-- A call ends as its first failing check says, for every bridge, every host and every list of values: the host gets
the calls of that ending and no others, the script gets its answer, and of the bridge only the last error may change. -/
theorem run_ends (host : Host α σ) (regs : List (Key × α)) (lastError : Option String) (logLevel : LogLevel) (state : σ)
    (log : Array LogEvent) (frame : List Value) :
    ∃ ending calls after, Ends host regs state frame ending calls after ∧
      let s : Session α (σ × List (α × List Argument)) :=
        { bridge := ⟨.ofList regs, lastError, logLevel⟩, host := (state, []), log }
      ending.Answers (run host.recording s frame).1 ∧
        (run host.recording s frame).2.host = (after, calls) ∧
        (run host.recording s frame).2.bridge = ⟨.ofList regs, ending.lastError lastError, logLevel⟩ := by
  rcases target_cases frame with ⟨key, htarget, hspace, hname⟩ | ⟨htarget, hspace⟩ | ⟨space, htarget, hspace, hname⟩
  · obtain ⟨answer, t, hcall, hbridge, hends⟩ := callKey_ends host regs
      (s := ⟨⟨.ofList regs, lastError, logLevel⟩, (state, []), log⟩) rfl rfl hspace hname
    refine ⟨_, _, _, hends, ?_⟩
    simp only [run, htarget, hcall]
    cases answer with
    | ok n => exact ⟨.returned (Int32.toInt_toInt64 n), rfl, hbridge⟩
    | error f => exact ⟨.failed f, Session.failCall_host .., by simp [hbridge, Ending.ofAnswer, Ending.lastError]⟩
  · refine ⟨_, _, _, .space hspace, ?_⟩
    simp only [run, htarget]
    exact ⟨.refused _, trivial, rfl⟩
  · refine ⟨_, _, _, .name hspace hname, ?_⟩
    simp only [run, htarget]
    exact ⟨.refused _, trivial, rfl⟩

end Dispatch

end ScriptHost
