import ScriptHost.Lua.Machine.Call
import ScriptHost.Lua.Machine.Store

/-! # Running the machine

One step does what the control says with the innermost frame. A run makes steps until the machine is done, or until it
waits for the host and is answered. -/

namespace ScriptHost.Lua.Machine

def arrive (m : Machine) (vs : List Value) : Machine :=
  match m.frames with
  | .script .. :: _ => m.inScript fun m a => m.receiveAll a vs
  | .native c guard k :: rest =>
    { m with frames := rest }.runNative c (k (if guard.isSome then .bool true :: vs else vs))
  | .report .. :: rest => { m with frames := rest }.goto (.unwind (.ordinary (vs.headD .nil)))
  | .closing .. :: _ => m.closeNext
  | .glue _ :: rest => { m with frames := rest }.proceed (.values vs)
  | [] => m.handBack (.dead none []) (if m.resumers.isEmpty then vs else .bool true :: vs)

def perform (m : Machine) : Task → Machine
  | .eval e => m.inScript fun m a => m.eval a e
  | .evalAll e tail => m.inScript fun m a => m.evalAll a tail e
  | .value v => m.inScript fun m a => m.receive a v
  | .leave x => m.inScript fun m a => m.leave a x
  | .store line pairs => m.store line pairs
  | .make p slot => m.make p slot
  | .values vs => m.arrive vs
  | .call f args label depth => m.call f args label depth
  | .raise e depth => m.raise e depth

def step (m : Machine) : Machine :=
  match m.control with
  | .task t => m.perform t
  | .native c r => m.stepNative c r
  | .unwind e => m.unwind e
  | .host .. | .done _ => m

def isResting (m : Machine) : Bool :=
  match m.control with
  | .host .. | .done _ => true
  | _ => false

/-- Makes steps until the machine rests, at most as many as there is fuel. -/
def run : Nat → Machine → Machine
  | 0, m => m
  | fuel + 1, m => if m.isResting then m else run fuel m.step

/-- The traceback in the next error of the host. -/
def traceback (m : Machine) : String := m.platform.traceback m.vault.errors.size

def hostAnswer (m : Machine) (answer : Except GuestError Value) (c : Caller) (k : Waiting) : Machine :=
  match answer with
  | .ok v => m.runNative c (k [v])
  | .error e =>
    let (v, m) := m.addToVault (·.addError (.callback m.traceback e))
    m.proceed (.raise (.ordinary v) c.depth)

end ScriptHost.Lua.Machine
