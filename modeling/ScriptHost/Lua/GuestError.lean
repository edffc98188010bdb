import ScriptHost.Failure

/-! # Errors of the interpreter as the host sees them

An error that leaves the interpreter is of a kind with a text, or wraps a failure that the host itself raised; an error
that passes through calls from script to host and back gathers one layer with a stack trace for every such call. -/

namespace ScriptHost.Lua

inductive GuestError where
  | syntaxError (message : String)
  | runtime (message : String)
  | memory (message : String)
  | failure (f : CallFailure)
  /-- Another failure of the host. -/
  | host (e : HostError)
  /-- An error of any other kind, of which only the text is known. -/
  | other (text : String)
  /-- An error that passed through a call to the host. -/
  | callback (traceback : String) (cause : GuestError)
  deriving DecidableEq, Repr

namespace GuestError

def rootText : GuestError → String
  | syntaxError message => "syntax error: " ++ message
  | runtime message => "runtime error: " ++ message
  | memory message => "memory error: " ++ message
  | failure f => f.message
  | host e => e.text
  | other text => text
  | callback _ cause => cause.rootText

/-- An error as text: a layer adds a line with its stack trace. -/
def text : GuestError → String
  | callback traceback cause => cause.rootText ++ "\n" ++ traceback ++ "\n"
  | e => e.rootText

/-- The failure of the dispatcher that an error carries, in however many layers. -/
def callFailure? : GuestError → Option CallFailure
  | callback _ cause => cause.callFailure?
  | failure f => some f
  | _ => none

/-- The record of an error. Whether it carries a failure is asked before the layer is taken off, at every layer anew. -/
def toExecutionError (e : GuestError) : ExecutionError :=
  match e.callFailure? with
  | some f => .ofFailure f
  | none =>
    match e with
    | syntaxError message => .ofRaw ReturnCode.syntaxError.raw message
    | runtime message => .ofRaw ReturnCode.runtimeError.raw message
    | memory message => .ofRaw ReturnCode.memoryError.raw message
    | callback _ cause => cause.toExecutionError
    | e => .ofRaw ReturnCode.runtimeError.raw e.text

def root : GuestError → GuestError
  | callback _ cause => cause.root
  | e => e

theorem toExecutionError_of_failure {e : GuestError} {f : CallFailure} (h : e.callFailure? = some f) :
    e.toExecutionError = .ofFailure f := by
  rw [toExecutionError.eq_def, h]

/-- A layer changes nothing of the record: the search for a failure comes to the same below it. -/
@[simp] theorem toExecutionError_callback (traceback : String) (cause : GuestError) :
    (callback traceback cause).toExecutionError = cause.toExecutionError := by
  have hfailure : (callback traceback cause).callFailure? = cause.callFailure? := rfl
  cases hcause : cause.callFailure? with
  | some f => rw [toExecutionError_of_failure hcause, toExecutionError_of_failure (hfailure.trans hcause)]
  | none => rw [toExecutionError.eq_def, hfailure, hcause]

@[simp] theorem callFailure?_root (e : GuestError) : e.root.callFailure? = e.callFailure? := by
  induction e with
  | callback traceback cause ih => exact ih
  | _ => rfl

@[simp] theorem toExecutionError_root (e : GuestError) : e.root.toExecutionError = e.toExecutionError := by
  induction e with
  | callback traceback cause ih => exact ih.trans (toExecutionError_callback ..).symm
  | _ => rfl

theorem callFailure?_eq_some_iff {e : GuestError} {f : CallFailure} : e.callFailure? = some f ↔ e.root = .failure f := by
  induction e with
  | callback traceback cause ih => exact ih
  | failure g => simp [callFailure?, root]
  | _ => simp [callFailure?, root]

end GuestError

end ScriptHost.Lua
