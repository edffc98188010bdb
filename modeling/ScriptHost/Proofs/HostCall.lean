import ScriptHost.Engine
import ScriptHost.Proofs.Dispatch

/-! # Calls from the host

A call from the host takes the way that calls from scripts take: its arguments become guest values and then arguments
again, and the result becomes a guest value and then a result again. Nothing is lost on the way and nothing is refused,
so the call is a direct call of the handle that is registered. -/

namespace ScriptHost

open Lua (Value GuestError)
open Marshal (Carries)

variable {α σ : Type}

namespace Marshal

theorem carries_ofArgument (a : Argument) : Carries (ofArgument a) a := by
  cases a with
  | nil => exact .nil
  | bool b => exact .bool b
  | number x => exact .float x
  | text s => exact .text s

theorem carries_map_ofArgument (args : List Argument) : List.Forall₂ Carries (args.map ofArgument) args := by
  induction args with
  | nil => exact .nil
  | cons a as ih => exact .cons (carries_ofArgument a) ih

theorem toArgumentsFrom_of_carries {vs : List Value} {args : List Argument} (h : List.Forall₂ Carries vs args)
    (position : Nat) : toArgumentsFrom position vs = .ok args := by
  induction h generalizing position with
  | nil => rfl
  | cons hv _ ih =>
    simp only [toArgumentsFrom, toArgument_of_carries hv, ih]
    rfl

theorem toResult_ofResult (n : Int32) : toResult (ofResult n) = .ok n := by
  -- the guest has whole numbers of 64 bits, so the way back has to check the range
  have hrange : -(2 ^ 31) ≤ n.toInt ∧ n.toInt < 2 ^ 31 := ⟨n.le_toInt, n.toInt_lt⟩
  have hresult : result? n.toInt64.toInt = some n := by
    simp only [Int32.toInt_toInt64, result?, if_pos hrange, Int32.ofInt_toInt]
  simp only [ofResult, toResult, resultOf?, hresult]

end Marshal

namespace Dispatch

/-- A direct call of the handle that a key is registered with. -/
def direct (host : Host α σ) (registry : Registry α) (key : Key) (args : List Argument) (state : σ) :
    Except CallFailure Int32 × σ :=
  match registry.resolve key with
  | none => (.error (.functionNotFound key), state)
  | some handle =>
    match host.call handle args state with
    | (.ok n, after) => (.ok n, after)
    | (.error e, after) => (.error (.hostFunction key e), after)

theorem direct_ne_marshal (host : Host α σ) (registry : Registry α) (key : Key) (args : List Argument) (state : σ)
    (m : MarshalError) : (direct host registry key args state).1 ≠ .error (.marshal m) := by
  unfold direct
  split
  · simp
  · split <;> simp

theorem invoke_direct (host : Host α σ) (s : Session α σ) (key : Key) (args : List Argument) :
    ∃ t, invoke host s key args = ((direct host s.bridge.registry key args s.host).1, t) ∧
      t.host = (direct host s.bridge.registry key args s.host).2 ∧ t.bridge = s.bridge := by
  unfold invoke direct
  cases s.bridge.registry.resolve key with
  | none => exact ⟨s, rfl, rfl, rfl⟩
  | some handle =>
    obtain ⟨⟨answer, after⟩, hcall⟩ : ∃ r, host.call handle args s.host = r := ⟨_, rfl⟩
    simp only [hcall]
    cases answer with
    | ok n => exact ⟨_, rfl, Session.emit_host .., Session.emit_bridge ..⟩
    | error e => exact ⟨_, rfl, rfl, rfl⟩

theorem callKey_direct (host : Host α σ) (s : Session α σ) (key : Key) {vs : List Value} {args : List Argument}
    (hargs : List.Forall₂ Carries vs args) :
    ∃ t, callKey host s key vs = ((direct host s.bridge.registry key args s.host).1, t) ∧
      t.host = (direct host s.bridge.registry key args s.host).2 ∧ t.bridge = s.bridge := by
  simp only [callKey, Marshal.toArguments, Marshal.toArgumentsFrom_of_carries hargs]
  obtain ⟨t, hinvoke, hhost, hbridge⟩ := invoke_direct host (reportArguments (s.emit .trace fun _ =>
    s!"call frame: function={key.text}\n{Marshal.dump vs}") 1 args) key args
  simp only [reportArguments_bridge, reportArguments_host, Session.emit_bridge, Session.emit_host] at hinvoke hhost hbridge
  exact ⟨t, hinvoke, hhost, hbridge⟩

theorem target_of_texts (key : Key) (vs : List Value) :
    target (.ofText key.space :: .ofText key.name :: vs) = .ok key := by
  have hspells (s : String) (what : String) : headText (some (.ofText s)) what = .ok s := headText_of_spells rfl what
  simp only [target, List.getElem?_cons_zero, List.getElem?_cons_succ, hspells]
  rfl

theorem run_of_direct_ok (host : Host α σ) (s : Session α σ) (key : Key) {vs : List Value} {args : List Argument}
    (hargs : List.Forall₂ Carries vs args) {n : Int32} {after : σ}
    (hdirect : direct host s.bridge.registry key args s.host = (.ok n, after)) :
    ∃ t, run host s (.ofText key.space :: .ofText key.name :: vs) = (.ok (Marshal.ofResult n), t) ∧
      t.host = after ∧ t.bridge = s.bridge := by
  obtain ⟨t, hcall, hhost, hbridge⟩ := callKey_direct host s key hargs
  rw [hdirect] at hcall hhost
  refine ⟨t, ?_, hhost, hbridge⟩
  simp only [run, target_of_texts, List.drop_succ_cons, List.drop_zero, hcall]

theorem run_of_direct_error (host : Host α σ) (s : Session α σ) (key : Key) {vs : List Value} {args : List Argument}
    (hargs : List.Forall₂ Carries vs args) {f : CallFailure} {after : σ}
    (hdirect : direct host s.bridge.registry key args s.host = (.error f, after)) :
    ∃ t, run host s (.ofText key.space :: .ofText key.name :: vs) = (.error (.failure f), t) ∧
      t.host = after ∧ t.bridge = { s.bridge with lastError := some f.message } := by
  obtain ⟨t, hcall, hhost, hbridge⟩ := callKey_direct host s key hargs
  rw [hdirect] at hcall hhost
  refine ⟨t.failCall f, ?_, by rw [Session.failCall_host, hhost], by rw [Session.failCall_bridge, hbridge]⟩
  simp only [run, target_of_texts, List.drop_succ_cons, List.drop_zero, hcall]

end Dispatch

namespace Engine

open Dispatch (direct)

theorem invoke_of_direct_ok (host : Host α σ) {e : Engine α σ} {key : Key} {args : List Argument}
    (hroom : e.interpreter.heap.hasRoom e.interpreter.limit (frameSize key args)) {n : Int32} {after : σ}
    (hdirect : direct host e.session.bridge.registry key args e.session.host = (.ok n, after)) :
    (e.invoke host key args).1 = .ok n ∧ (e.invoke host key args).2.session.host = after ∧
      (e.invoke host key args).2.session.bridge = e.session.bridge := by
  obtain ⟨t, hrun, hhost, hbridge⟩ :=
    Dispatch.run_of_direct_ok host e.session key (Marshal.carries_map_ofArgument args) hdirect
  have hinvoke : e.invoke host key args = (.ok n, { e with session := t }) := by
    simp only [invoke, hroom, frame, hrun, Marshal.toResult_ofResult, Bool.not_true, Bool.false_eq_true, if_false]
  rw [hinvoke]
  exact ⟨rfl, hhost, hbridge⟩

theorem invoke_of_direct_error (host : Host α σ) {e : Engine α σ} {key : Key} {args : List Argument}
    (hroom : e.interpreter.heap.hasRoom e.interpreter.limit (frameSize key args)) {f : CallFailure} {after : σ}
    (hdirect : direct host e.session.bridge.registry key args e.session.host = (.error f, after)) :
    (e.invoke host key args).1 = .error (.ofFailure f) ∧ (e.invoke host key args).2.session.host = after ∧
      (e.invoke host key args).2.session.bridge = { e.session.bridge with lastError := some f.message } := by
  obtain ⟨t, hrun, hhost, hbridge⟩ :=
    Dispatch.run_of_direct_error host e.session key (Marshal.carries_map_ofArgument args) hdirect
  have hinvoke : e.invoke host key args =
      (.error (.ofFailure f), fail { e with session := t } "invoke()" (.ofFailure f)) := by
    simp only [invoke, hroom, frame, hrun, Bool.not_true, Bool.false_eq_true, if_false]
    rfl
  rw [hinvoke]
  refine ⟨rfl, ?_, ?_⟩
  · simpa [fail, emit, Session.remember] using hhost
  · simp [fail, emit, Session.remember, ExecutionError.ofFailure, hbridge]

/-- A call from the host is the direct call. -/
theorem invoke_eq_direct (host : Host α σ) {e : Engine α σ} {key : Key} {args : List Argument}
    (hroom : e.interpreter.heap.hasRoom e.interpreter.limit (frameSize key args)) :
    ((e.invoke host key args).1, (e.invoke host key args).2.session.host) =
      ((direct host e.session.bridge.registry key args e.session.host).1.mapError .ofFailure,
        (direct host e.session.bridge.registry key args e.session.host).2) := by
  obtain ⟨⟨answer, after⟩, hdirect⟩ : ∃ r, direct host e.session.bridge.registry key args e.session.host = r := ⟨_, rfl⟩
  rw [hdirect]
  cases answer with
  | ok n =>
    obtain ⟨hanswer, hhost, -⟩ := invoke_of_direct_ok host hroom hdirect
    exact Prod.ext hanswer hhost
  | error f =>
    obtain ⟨hanswer, hhost, -⟩ := invoke_of_direct_error host hroom hdirect
    exact Prod.ext hanswer hhost

/-- Without a limit on memory a call from the host calls the handle that the key is registered with, exactly once and on
the very arguments of the call, and answers what the handle answers. If there is no such handle none is called. The
arguments and the result always cross the border. -/
theorem invoke_calls_handle (host : Host α σ) (e : Engine α (σ × List (α × List Argument)))
    (hlimit : e.interpreter.limit = none) (key : Key) (args : List Argument) :
    ((e.invoke host.recording key args).1, (e.invoke host.recording key args).2.session.host) =
        (match e.session.bridge.registry.resolve key with
        | some handle =>
          match host.call handle args e.session.host.1 with
          | (.ok n, after) => (.ok n, after, e.session.host.2 ++ [(handle, args)])
          | (.error error, after) =>
            (.error (.ofFailure (.hostFunction key error)), after, e.session.host.2 ++ [(handle, args)])
        | none => (.error (.ofFailure (.functionNotFound key)), e.session.host)) ∧
      Marshal.toArguments (args.map Marshal.ofArgument) = .ok args ∧
      (∀ n, Marshal.toResult (Marshal.ofResult n) = .ok n) ∧
      ∀ m, (e.invoke host.recording key args).1 ≠ .error (.ofFailure (.marshal m)) := by
  have hroom : e.interpreter.heap.hasRoom e.interpreter.limit (frameSize key args) := by
    simp [hlimit, Lua.Heap.hasRoom]
  have hcross := Marshal.toArgumentsFrom_of_carries (Marshal.carries_map_ofArgument args) 1
  have hdirect := invoke_eq_direct host.recording hroom
  refine ⟨?_, hcross, Marshal.toResult_ofResult, fun m hm => ?_⟩
  · rw [hdirect, direct]
    cases e.session.bridge.registry.resolve key with
    | none => rfl
    | some handle =>
      obtain ⟨⟨answer, after⟩, hcall⟩ : ∃ r, host.call handle args e.session.host.1 = r := ⟨_, rfl⟩
      simp only [Host.recording, hcall]
      cases answer <;> rfl
  · have hanswer := (congrArg Prod.fst hdirect).symm.trans hm
    cases hfailure : (direct host.recording e.session.bridge.registry key args e.session.host).1 with
    | ok n =>
      rw [hfailure] at hanswer
      cases hanswer
    | error f =>
      rw [hfailure] at hanswer
      have hmarshal : some f = some (.marshal m) := congrArg ExecutionError.failure (Except.error.inj hanswer)
      rw [Option.some.inj hmarshal] at hfailure
      exact Dispatch.direct_ne_marshal _ _ _ _ _ m hfailure

-- The host below has whole numbers for handles, each of which stands for the function that returns it.

def numerals : Host Int32 Unit := ⟨fun n _ _ => (.ok n, ())⟩

def numeralEngine : Engine Int32 (Unit × List (Int32 × List Argument)) :=
  ((create {} ((), []) : Engine Int32 _).register ⟨"app", "least"⟩ Int32.minValue).2

/-- The least result and a text with a zero byte come through. -/
theorem invoke_calls_handle_least :
    numeralEngine.interpreter.limit = none ∧
      ((numeralEngine.invoke numerals.recording ⟨"app", "least"⟩ [.nil, .text "a\x00b"]).1,
          (numeralEngine.invoke numerals.recording ⟨"app", "least"⟩ [.nil, .text "a\x00b"]).2.session.host) =
        (.ok Int32.minValue, (), [(Int32.minValue, [.nil, .text "a\x00b"])]) := by
  have hlimit : numeralEngine.interpreter.limit = none := by decide +kernel
  have hresolve : numeralEngine.session.bridge.registry.resolve ⟨"app", "least"⟩ = some Int32.minValue := by
    decide +kernel
  have hnone : numeralEngine.session.host.2 = [] := List.isEmpty_iff.mp (by decide +kernel)
  have hcalls := (invoke_calls_handle numerals numeralEngine hlimit ⟨"app", "least"⟩ [.nil, .text "a\x00b"]).1
  rw [hresolve, hnone] at hcalls
  exact ⟨hlimit, hcalls⟩

end Engine

end ScriptHost
