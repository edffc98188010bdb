import ScriptHost.LogLevel
import ScriptHost.Lua.GuestError
import ScriptHost.Marshal
import ScriptHost.Registry

/-! # Dispatching calls from scripts to the host

A call arrives as one list of values: namespace, function name, arguments. The checks are made in that order, then the
function is looked up and called. Failures from the arguments on are remembered as the last error; a call whose head is
no text is the mistake of the script alone. -/

namespace ScriptHost

open Lua (Value GuestError)

/-- The host: what a handle does with arguments, on the state `σ` of the host's own. -/
structure Host (α σ : Type) where
  call : α → List Argument → σ → Except HostError Int32 × σ

structure Bridge (α : Type) where
  registry : Registry α := .empty
  lastError : Option String := none
  logLevel : LogLevel := .default

/-- A bridge together with the host it serves and the log it writes. -/
structure Session (α σ : Type) where
  bridge : Bridge α
  host : σ
  log : Array LogEvent := #[]

namespace Session

variable {α σ : Type}

def emit (s : Session α σ) (severity : Severity) (message : Unit → String) : Session α σ :=
  if s.bridge.logLevel.admits severity then { s with log := s.log.push ⟨severity, message ()⟩ } else s

def remember (s : Session α σ) (message : String) : Session α σ :=
  { s with bridge := { s.bridge with lastError := some message } }

def failCall (s : Session α σ) (f : CallFailure) : Session α σ :=
  (s.emit .error fun _ => "dispatch failed: " ++ f.message).remember f.message

end Session

namespace Dispatch

variable {α σ : Type}

def headText (v : Option Value) (what : String) : Except GuestError String :=
  match v with
  | some (.str b) =>
    match Text.Utf8.decode? b with
    | some s => .ok s
    | none => .error (.runtime (what ++ " must be a valid UTF-8 string"))
  | some v => .error (.runtime (what ++ " must be a string, got " ++ v.kindName))
  | none => .error (.runtime (what ++ " must be a string, got no value"))

def target (frame : List Value) : Except GuestError Key := do
  let space ← headText frame[0]? "namespace"
  let name ← headText frame[1]? "function name"
  .ok ⟨space, name⟩

def reportArguments (s : Session α σ) : Nat → List Argument → Session α σ
  | _, [] => s
  | position, a :: as =>
    reportArguments (s.emit .debug fun _ => s!"{a.typeName} argument {position}: value={a.render}") (position + 1) as

def invoke (host : Host α σ) (s : Session α σ) (key : Key) (args : List Argument) :
    Except CallFailure Int32 × Session α σ :=
  match s.bridge.registry.resolve key with
  | none => (.error (.functionNotFound key), s)
  | some handle =>
    let (answer, hostState) := host.call handle args s.host
    let s := { s with host := hostState }
    match answer with
    | .ok n => (.ok n, s.emit .info fun _ => s!"host function {key.text} called: result={n.toInt}")
    | .error e => (.error (.hostFunction key e), s)

def callKey (host : Host α σ) (s : Session α σ) (key : Key) (trailing : List Value) :
    Except CallFailure Int32 × Session α σ :=
  let s := s.emit .trace fun _ => s!"call frame: function={key.text}\n{Marshal.dump trailing}"
  match Marshal.toArguments trailing with
  | .error e => (.error (.marshal e), s)
  | .ok args => invoke host (reportArguments s 1 args) key args

def run (host : Host α σ) (s : Session α σ) (frame : List Value) : Except GuestError Value × Session α σ :=
  match target frame with
  | .error e => (.error e, s)
  | .ok key =>
    match callKey host s key (frame.drop 2) with
    | (.ok n, s) => (.ok (Marshal.ofResult n), s)
    | (.error f, s) => (.error (.failure f), s.failCall f)

end Dispatch

end ScriptHost
