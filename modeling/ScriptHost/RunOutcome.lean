import ScriptHost.Decimal.Layout
import ScriptHost.Lua.GuestError
import ScriptHost.Lua.Value
import ScriptHost.Text.Utf8

/-! # The outcome of a run

A run answers whether it succeeded, whether the message handler was called, and the error object that escaped. The kind
of the failure is told from these: memory errors and failures of the handler itself go past the handler. -/

namespace ScriptHost.RunOutcome

open Lua (Value GuestError)

def handlerFailure : String := "error in error handling"

def guestMessage : Value → String
  | .str s => Text.Utf8.decodeLenient s
  | .int n => toString n.toInt
  | .float x => Decimal.plainText x
  | v => s!"(error object is a {v.kindName} value)"

/-- The record of a run. An error object of the host, looked up among `errors`, speaks for itself; of any other object
the code depends on the handler and, if that was not called, on the message. -/
def record (errors : Nat → Option GuestError) (ok handled : Bool) (err : Value) : ExecutionError :=
  if ok then .ofRaw ReturnCode.ok.raw ""
  else
    let plain :=
      let message := guestMessage err
      let code : ReturnCode :=
        if handled then .runtimeError else if message = handlerFailure then .internalError else .memoryError
      .ofRaw code.raw message
    match err with
    | .error r =>
      match errors r with
      | some e => e.toExecutionError
      | none => plain
    | _ => plain

end ScriptHost.RunOutcome
