import ScriptHost.Case.Folder
import ScriptHost.Case.Format
import ScriptHost.Engine

/-! # Why a case fails

A case may be unreadable or make no sense, its engine may not come about, or it may go another way than it expects. -/

namespace ScriptHost.Case

inductive Error where
  | unreadable (path : String) (fault : ReadFault)
  | unparsable (path : String) (fault : Json.Fault)
  | schema (found : String)
  | mainMissing
  | engine (error : Engine.CreateError)
  | logLevel (word : String)
  | callCount (expected : Nat) (observed : List Call)
  | call (index : Nat) (expected actual : Call)
  | outcome (expected actual : Outcome)

def indentedCalls (calls : List Call) : String := (Json.array (calls.map Call.toJson)).indented 0

def Error.message : Error → String
  | unreadable path fault => s!"Failed to read file {path}: {fault.reason}"
  | unparsable path _ => s!"Failed to parse testcase {path}"
  | schema found => s!"Invalid testcase schema version \"{found}\", expected \"{schemaVersion}\"."
  | mainMissing => "No main.lua under the case."
  | engine error => "Engine error: " ++ error.message
  | logLevel word => s!"Invalid log level \"{word}\" in testcase."
  | callCount expected observed =>
    s!"Expected call count {expected}, actual {observed.length}. observed={indentedCalls observed}"
  | call index expected actual =>
    s!"Call mismatch at index {index}. expected={expected.toJson.compact} actual={actual.toJson.compact}"
  | outcome expected actual =>
    s!"Outcome mismatch. expected={expected.toJson.compact} actual={actual.toJson.compact}"

end ScriptHost.Case
