import ScriptHost.Key
import ScriptHost.ReturnCode

/-! # Failures

What goes wrong between script and host, as causes; the wording of each is one function. A failure of the host or of the
border is kept whole inside the error of the run that it ended. -/

namespace ScriptHost

structure HostError where
  code : String
  message : String
  deriving DecidableEq, Repr

def HostError.text (e : HostError) : String := e.code ++ ": " ++ e.message

/-- Why a guest value cannot cross the border. Positions count from one among the arguments of a call. -/
inductive MarshalError where
  | unsupportedType (position : Nat) (typeName : String)
  | invalidUtf8 (position : Nat)
  | unsupportedResult (typeName : String)
  deriving DecidableEq, Repr

def MarshalError.message : MarshalError → String
  | unsupportedType position typeName => s!"unsupported argument type: '{typeName}' (argument {position})"
  | invalidUtf8 position => s!"argument {position} is not a valid UTF-8 string"
  | unsupportedResult typeName => s!"unsupported result type: '{typeName}'"

inductive CallFailure where
  | functionNotFound (key : Key)
  | hostFunction (key : Key) (error : HostError)
  | marshal (error : MarshalError)
  deriving DecidableEq, Repr

def CallFailure.message : CallFailure → String
  | functionNotFound key => s!"function not found: {key.text}"
  | hostFunction key error => s!"function {key.text} failed: {error.text}"
  | marshal error => error.message

/-- The error of a load, a run or a call from the host. `failure` is present when it was not guest code that failed. -/
structure ExecutionError where
  code : ReturnCode
  message : String
  failure : Option CallFailure := none
  deriving DecidableEq, Repr

namespace ExecutionError

def ofFailure (f : CallFailure) : ExecutionError := ⟨.runtimeError, f.message, some f⟩

def ofRaw (code : Int) (diagnostic : String) : ExecutionError :=
  match ReturnCode.ofRaw? code with
  | some c => ⟨c, diagnostic, none⟩
  | none => ⟨.internalError, s!"unknown interpreter return code: {code}", none⟩

def toResult (e : ExecutionError) : Except ExecutionError Unit := if e.code.isOk then .ok () else .error e

def text (e : ExecutionError) : String := e.code.name ++ ": " ++ e.message

def isFunctionNotFound (e : ExecutionError) : Bool :=
  match e.failure with
  | some (.functionNotFound _) => true
  | _ => false

def hostError? (e : ExecutionError) : Option HostError :=
  match e.failure with
  | some (.hostFunction _ error) => some error
  | _ => none

end ExecutionError

end ScriptHost
