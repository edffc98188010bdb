import ScriptHost.Dispatch
import ScriptHost.EngineOptions
import ScriptHost.Lua.Interpreter
import ScriptHost.RunOutcome

/-! # The engine

An interpreter together with the functions of the host that its scripts may call. Scripts are loaded, which only
compiles them, and run; the host can also call its own functions by the way that scripts take. Whatever fails is
reported, remembered as the last error, and leaves the engine usable. -/

namespace ScriptHost

open Lua (Value GuestError Interpreter Machine Chunk)

inductive EngineState where
  | created
  | loaded
  | executed (code : ReturnCode)
  deriving DecidableEq, Repr

structure Engine (α σ : Type) where
  session : Session α σ
  interpreter : Interpreter
  history : Array String := #[]
  compiled : Option Chunk := none
  state : EngineState := .created

namespace Engine

variable {α σ : Type}

def source? (e : Engine α σ) : Option String := e.history.back?

def logLevel (e : Engine α σ) : LogLevel := e.session.bridge.logLevel

def lastError (e : Engine α σ) : Option String := e.session.bridge.lastError

def namespaces (e : Engine α σ) : List String := e.session.bridge.registry.namespaces

def emit (e : Engine α σ) (severity : Severity) (message : Unit → String) : Engine α σ :=
  { e with session := e.session.emit severity message }

def fail (e : Engine α σ) (operation : String) (error : ExecutionError) : Engine α σ :=
  let e := e.emit .error fun _ => s!"{operation}: code={error.code.raw}, message={error.message}"
  { e with session := e.session.remember error.message }

/-- A new engine. The limit on memory holds from then on. -/
def create (options : EngineOptions) (host : σ) (platform : Lua.Platform := {}) : Engine α σ :=
  let interpreter :=
    match (Interpreter.fresh platform).install defaultNamespace with
    | .ok (_, i) => i
    | .error _ => .fresh platform
  let e : Engine α σ :=
    { session := { bridge := { logLevel := options.logLevel }, host }
      interpreter := interpreter.setLimit options.memoryLimit }
  e.emit .info fun _ => "created"

def setLogLevel (e : Engine α σ) (word : String) : Engine α σ :=
  match LogLevel.parse? word with
  | some logLevel => { e with session := { e.session with bridge := { e.session.bridge with logLevel } } }
  | none => e.emit .debug fun _ => s!"ignoring log level \"{word}\""

def installFailure (space : String) (error : GuestError) : HostError :=
  ⟨"ENGINE_NAMESPACE_INSTALL_FAILED", s!"Namespace \"{space}\" could not be installed: {error.text}"⟩

def register (e : Engine α σ) (key : Key) (handle : α) : Except HostError Unit × Engine α σ :=
  let bridge := e.session.bridge
  let (replaced, registry) := bridge.registry.put key handle
  let e := { e with session := { e.session with bridge := { bridge with registry } } }
  let e := e.emit .debug fun _ => s!"registered function: {key.text} (replaced={replaced})"
  match e.interpreter.install key.space with
  | .error error => (.error (installFailure key.space error), e)
  | .ok (shadowed, interpreter) =>
    let e := { e with interpreter }
    (.ok (), if shadowed then e.emit .warn fun _ => s!"namespace \"{key.space}\" replaces an existing global" else e)

/-- Compiles a script for the next run. If that fails, the script before it stays. -/
def load (e : Engine α σ) (script : String) : Except ExecutionError Unit × Engine α σ :=
  let e := e.emit .trace fun _ => s!"load script:\n'''\n{script}\n'''"
  match e.interpreter.load script with
  | .ok (chunk, interpreter) =>
    let interpreter := e.compiled.elim interpreter interpreter.discard
    (.ok (), { e with interpreter, history := e.history.push script, compiled := some chunk, state := .loaded })
  | .error error =>
    let error := error.toExecutionError
    (.error error, e.fail "load()" error)

/-- Makes steps, answering what the scripts ask of the host, until the machine is done or the fuel runs out. -/
def drive (host : Host α σ) : Nat → Session α σ → Machine → Session α σ × Machine
  | 0, s, m => (s, m)
  | fuel + 1, s, m =>
    match m.control with
    | .done _ => (s, m)
    | .host frame c k =>
      let (answer, s) := Dispatch.run host s frame
      drive host fuel s (m.hostAnswer answer c k)
    | _ => drive host fuel s m.step

/-- The steps after which a run is cut off, so that every run has an end. A real run is not cut off, but none that comes to
an end takes so many steps. -/
@[irreducible]
def stepLimit : Nat := 10 ^ 18

def noScript : ExecutionError := { code := .runtimeError, message := "no script to execute" }

def recordOf (m : Machine) : ExecutionError :=
  let ending := Interpreter.endingOf m
  RunOutcome.record (fun r => m.vault.errors[r]?) ending.ok ending.handled ending.object

def conclude (e : Engine α σ) (session : Session α σ) (m : Machine) : Except ExecutionError Unit × Engine α σ :=
  let record := recordOf m
  let e := { e with session, interpreter := e.interpreter.takeBack m, state := .executed record.code }
  match record.toResult with
  | .ok () => (.ok (), e)
  | .error error => (.error error, e.fail "pcall()" error)

def run (host : Host α σ) (e : Engine α σ) (chunk : Chunk) : Except ExecutionError Unit × Engine α σ :=
  let ended := drive host stepLimit e.session (e.interpreter.start chunk)
  { e with interpreter := e.interpreter.lent }.conclude ended.1 ended.2

def announce (e : Engine α σ) : Engine α σ :=
  let size := ((e.source?).map String.utf8ByteSize).getD 0
  e.emit .trace fun _ => s!"execute script: size={size}"

def execute (host : Host α σ) (e : Engine α σ) : Except ExecutionError Unit × Engine α σ :=
  match e.compiled with
  | none => (.error noScript, e.fail "execute()" noScript)
  | some chunk => e.announce.run host chunk

def executeScript (host : Host α σ) (e : Engine α σ) (script : String) : Except ExecutionError Unit × Engine α σ :=
  match e.load script with
  | (.ok (), e) => e.execute host
  | (.error error, e) => (.error error, e)

/-- The bytes that the strings of a call take, by estimate. -/
def frameSize (key : Key) (args : List Argument) : Nat :=
  args.foldl (fun n a => n + a.render.utf8ByteSize) (64 + key.space.utf8ByteSize + key.name.utf8ByteSize)

def frame (key : Key) (args : List Argument) : List Value :=
  .ofText key.space :: .ofText key.name :: args.map Marshal.ofArgument

def invoke (host : Host α σ) (e : Engine α σ) (key : Key) (args : List Argument) :
    Except ExecutionError Int32 × Engine α σ :=
  let refuse (e : Engine α σ) (error : ExecutionError) := (.error error, e.fail "invoke()" error)
  if !e.interpreter.heap.hasRoom e.interpreter.limit (frameSize key args) then
    refuse e Interpreter.outOfMemory.toExecutionError
  else
    let (answer, session) := Dispatch.run host e.session (frame key args)
    let e := { e with session }
    match answer with
    | .error error => refuse e error.toExecutionError
    | .ok v =>
      match Marshal.toResult v with
      | .ok n => (.ok n, e)
      | .error error => refuse e (.ofFailure (.marshal error))

def finalize (host : Host α σ) : List Nat → Engine α σ → Engine α σ
  | [], e => e
  | table :: rest, e =>
    let ended := drive host stepLimit e.session (e.interpreter.startFinalizer table)
    finalize host rest { e with session := ended.1, interpreter := e.interpreter.takeBack ended.2 }

def close (host : Host α σ) (e : Engine α σ) : Engine α σ :=
  let e := e.emit .info fun _ => "destroyed"
  finalize host e.interpreter.heap.finalizable e

inductive CreateError where
  | engine (error : HostError)
  | preload (error : ExecutionError)
  deriving DecidableEq, Repr

def CreateError.message : CreateError → String
  | engine error => error.text
  | preload error => "preload failed: " ++ error.text

structure Setup (α : Type) where
  options : EngineOptions := {}
  functions : List (Key × α) := []
  preload : Option String := none
  platform : Lua.Platform := {}

def Setup.withFunction (setup : Setup α) (space name : String) (handle : α) : Setup α :=
  { setup with functions := setup.functions ++ [(⟨space, name⟩, handle)] }

def registerAll : List (Key × α) → Engine α σ → Except HostError Unit × Engine α σ
  | [], e => (.ok (), e)
  | (key, handle) :: rest, e =>
    match e.register key handle with
    | (.ok (), e) => registerAll rest e
    | (.error error, e) => (.error error, e)

/-- Makes an engine, registers functions and loads a script. The engine is given up again if any of this fails; in any
case the second result has the log and the host as they were left. -/
def ofSetup (host : Host α σ) (setup : Setup α) (world : σ) : Except CreateError Unit × Engine α σ :=
  match registerAll setup.functions (create setup.options world setup.platform) with
  | (.error error, e) => (.error (.engine error), e.close host)
  | (.ok (), e) =>
    match setup.preload with
    | none => (.ok (), e)
    | some script =>
      match e.load script with
      | (.ok (), e) => (.ok (), e)
      | (.error error, e) => (.error (.preload error), e.close host)

end Engine

end ScriptHost
