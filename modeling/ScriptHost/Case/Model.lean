import ScriptHost.Argument
import ScriptHost.Failure

/-! # Recorded test cases

A case names the host functions that the scripts may call, with a fixed answer each, how often the main script runs, the
calls that are expected, and the expected outcome. -/

namespace ScriptHost.Case

def schemaVersion : String := "lb-tool-case.v1"

/-- A host function that records its calls and always answers the same: with an error, if it has one, else with a
result. -/
structure FunctionSpec where
  key : Key
  result : Int32 := 0
  error : Option HostError := none

structure Call where
  key : Key
  args : List Argument := []

instance : BEq Call := ⟨fun a b => a.key == b.key && a.args == b.args⟩

/-- What a run comes to, or is expected to come to: a code, and of the message nothing, all or a fragment. -/
structure Outcome where
  code : ReturnCode := .ok
  message : Option String := none
  fragment : Option String := none
  deriving DecidableEq, Repr

def occursIn (part : List Char) : List Char → Bool
  | [] => part.isEmpty
  | c :: cs => part.isPrefixOf (c :: cs) || occursIn part cs

def Outcome.admits (o : Outcome) (code : ReturnCode) (message : String) : Bool :=
  o.code == code && o.message.all (· == message) && o.fragment.all fun f => occursIn f.toList message.toList

structure TestCase where
  schema : String
  logLevel : Option String := none
  executions : Nat := 1
  functions : List FunctionSpec := []
  expectedCalls : List Call := []
  expectedOutcome : Outcome := {}

end ScriptHost.Case
