import ScriptHost.Lua.GuestError

/-! # Errors in layers

An error has a layer for every call of the host that it passed through. What it is reported as is a matter of the
innermost error alone, although the report is read off by taking one layer away after the other. -/

namespace ScriptHost.Lua.GuestError

def layered (traces : List String) (e : GuestError) : GuestError := traces.foldr callback e

/-- What an error that is no layer is reported as. -/
inductive Reported : GuestError → ExecutionError → Prop
  | failure (f : CallFailure) : Reported (.failure f) (.ofFailure f)
  | syntaxError (message : String) : Reported (.syntaxError message) ⟨.syntaxError, message, none⟩
  | runtime (message : String) : Reported (.runtime message) ⟨.runtimeError, message, none⟩
  | memory (message : String) : Reported (.memory message) ⟨.memoryError, message, none⟩
  | host (e : HostError) : Reported (.host e) ⟨.runtimeError, e.text, none⟩
  | other (text : String) : Reported (.other text) ⟨.runtimeError, text, none⟩

theorem Reported.code {e : GuestError} {error : ExecutionError} (h : Reported e error) :
    error.code = .syntaxError ∨ error.code = .runtimeError ∨ error.code = .memoryError := by
  cases h with
  | syntaxError message => exact Or.inl rfl
  | memory message => exact Or.inr (Or.inr rfl)
  | _ => exact Or.inr (Or.inl rfl)

/-- An error is reported as its root is. -/
theorem reported_root (e : GuestError) : Reported e.root e.toExecutionError := by
  induction e with
  | callback traceback cause ih =>
    rw [toExecutionError_callback]
    exact ih
  | failure f => exact .failure f
  | syntaxError message => exact .syntaxError message
  | runtime message => exact .runtime message
  | memory message => exact .memory message
  | host error => exact .host error
  | other text => exact .other text

theorem exists_layered_root (e : GuestError) : ∃ traces, e = e.root.layered traces := by
  induction e with
  | callback traceback cause ih =>
    obtain ⟨traces, hcause⟩ := ih
    exact ⟨traceback :: traces, congrArg (callback traceback) hcause⟩
  | _ => exact ⟨[], rfl⟩

theorem root_layered (traces : List String) (e : GuestError) : (e.layered traces).root = e.root := by
  induction traces with
  | nil => rfl
  | cons traceback traces ih => exact ih

theorem toExecutionError_of_root_eq {e e' : GuestError} (h : e.root = e'.root) :
    e.callFailure? = e'.callFailure? ∧ e.toExecutionError = e'.toExecutionError := by
  refine ⟨?_, ?_⟩
  · rw [← e.callFailure?_root, h, e'.callFailure?_root]
  · rw [← e.toExecutionError_root, h, e'.toExecutionError_root]

/-- Every error is some layers around its root. Further layers, whatever their stack traces, change neither the failure
that is found in it nor its report; both are those of the root, and the report is always one of a fault. -/
theorem toExecutionError_layered (e : GuestError) :
    (∃ traces, e = e.root.layered traces) ∧
      (∀ traces, (e.layered traces).callFailure? = e.callFailure? ∧
        (e.layered traces).toExecutionError = e.toExecutionError) ∧
      (∀ f, e.callFailure? = some f ↔ e.root = .failure f) ∧ Reported e.root e.toExecutionError ∧
      ∀ code ∈ [ReturnCode.ok, .yield, .internalError], e.toExecutionError.code ≠ code := by
  have hreported := e.reported_root
  refine ⟨e.exists_layered_root, fun traces => ?_, fun f => callFailure?_eq_some_iff, hreported, fun code hcode => ?_⟩
  · exact toExecutionError_of_root_eq (root_layered traces e)
  · rcases hreported.code with h | h | h
    all_goals
      rw [h]
      rintro rfl
      simp at hcode

end ScriptHost.Lua.GuestError
