import ScriptHost.Lua.Globals
import ScriptHost.Lua.Machine.Step

/-! # The interpreter between runs

Between runs only the store and the coroutines are left. A run calls a compiled chunk under a message handler that notes
that it was called, so that the kinds of errors which pass it by can be told apart afterwards. -/

namespace ScriptHost.Lua

/-- An interpreter at rest. -/
structure Interpreter where
  heap : Heap
  vault : Vault
  threads : Array Thread := #[.running]
  limit : Option Nat := none
  platform : Platform := {}
  loaded : Nat := 0

/-- A loaded script: its function, the number of its environment, and the bytes that it takes. -/
structure Chunk where
  proto : Proto
  environment : Nat
  size : Nat

/-- How a run ended: whether it succeeded, whether the message handler was called, and the error object. -/
structure Ending where
  ok : Bool
  handled : Bool
  object : Value

namespace Interpreter

def fresh (platform : Platform) : Interpreter where
  heap := { Globals.fresh with used := 24000, seed := platform.firstSeed }
  vault := { globals := Heap.globals, proxies := Heap.proxies }
  platform

def setLimit (i : Interpreter) (limit : Option Nat) : Interpreter :=
  { i with limit := limit.filter (0 < ·) }

def outOfMemory : GuestError := .memory "not enough memory"

-- A namespace is known to scripts by its proxy. A proxy answers for every name, whether the host has a function of that
-- name or not, so a call finds out.

/-- The bytes that a new proxy takes, by estimate. -/
def proxySize : Nat := 300

def addProxy (i : Interpreter) (space : Bytes) : Value × Interpreter :=
  let (field, vault) := i.vault.addClosure (.bound (.namespaceField space))
  let (metatable, heap) := Globals.addRecord i.heap [("__index", field)]
  let (proxy, heap) := heap.addTable { metatable := some metatable }
  (.table proxy, { i with heap := heap.rawSet vault.proxies (.str space) (.table proxy), vault })

/-- The proxy of a namespace, which is made at its first use; none if there is no memory for it. -/
def proxyOf (i : Interpreter) (space : Bytes) : Option (Value × Interpreter) :=
  match i.heap.rawGet i.vault.proxies (.str space) with
  | .nil => if i.heap.admits i.limit proxySize then some (i.addProxy space) else none
  | proxy => some (proxy, i)

/-- Makes a namespace a global variable, and tells whether it took the place of something else. -/
def install (i : Interpreter) (space : String) : Except GuestError (Bool × Interpreter) :=
  match i.proxyOf (bytes space) with
  | some (proxy, i) =>
    let earlier := i.heap.rawGet i.vault.globals (.ofText space)
    .ok (!earlier.isNil && !earlier.rawEq proxy,
      { i with heap := i.heap.rawSet i.vault.globals (.ofText space) proxy })
  | none => .error outOfMemory

def chunkSize (source : Bytes) : Nat := 500 + 2 * source.size

/-- What is wrong with a source before it is compiled: it is also the name of its chunk, and a name has no zero byte. -/
def refusal? (source : Bytes) : Option GuestError :=
  (source.toList.findIdx? (· == 0)).map fun position =>
    .runtime s!"invalid name: nul byte found in provided data at position: {position}"

def compileFailure : CompileError → GuestError
  | .invalid message => .syntaxError (Text.Utf8.decodeLenient message)
  | .overflow message => .runtime (Text.Utf8.decodeLenient message)

def load (i : Interpreter) (script : String) : Except GuestError (Chunk × Interpreter) := do
  let source := bytes script
  if let some e := refusal? source then throw e
  if !i.heap.admits i.limit (chunkSize source) then throw outOfMemory
  match compile source source 0 with
  | .error e => throw (compileFailure e)
  | .ok p =>
    let c : Chunk := ⟨p, i.loaded, chunkSize source⟩
    return (c, { i with heap := i.heap.charge c.size, loaded := i.loaded + 1 })

def discard (i : Interpreter) (c : Chunk) : Interpreter := { i with heap := i.heap.release c.size }

def gluePlace : Bytes := bytes "lb-prelude:45: "

def guard (handler : Handler) : Frame := .native ⟨none, "xpcall", 1, 0⟩ (some handler) fun vs h => .done vs h

def ready (i : Interpreter) : Machine where
  heap := i.heap
  vault := i.vault
  control := .task (.leave .fall)
  frames := [guard (.function (.builtin .trap)), .glue gluePlace]
  threads := i.threads
  limit := i.limit
  platform := i.platform

def start (i : Interpreter) (c : Chunk) : Machine :=
  i.ready.enterScript c.proto #[.environment c.environment] [] 2

def startFinalizer (i : Interpreter) (table : Nat) : Machine where
  heap := { i.heap with collector := { i.heap.collector with finalizing := true } }
  vault := i.vault
  threads := i.threads
  limit := i.limit
  platform := i.platform
  frames := [guard .none]
  control := .task (.call (i.heap.metamethod (.table table) "__gc") [.table table] none 2)

def lent (i : Interpreter) : Interpreter := { i with heap := {}, vault := {}, threads := #[] }

def takeBack (i : Interpreter) (m : Machine) : Interpreter :=
  { i with heap := m.heap, vault := m.vault, threads := m.threads }

/-- How a machine ended. The last case is that of a run which the limit of steps cut off: it counts as failed, with nil for
an error object. -/
def endingOf (m : Machine) : Ending :=
  match m.control with
  | .done (.ok (.bool ok :: vs)) => ⟨ok, m.trapped, vs.headD .nil⟩
  | .done (.error e) => ⟨false, m.trapped, e.object⟩
  | _ => ⟨false, m.trapped, .nil⟩

end Interpreter

end ScriptHost.Lua
