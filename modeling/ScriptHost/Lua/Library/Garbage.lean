import ScriptHost.Lua.Platform

/-! # The collector of garbage

What is garbage depends on all of the interpreter, and on when it is looked for, so the platform says it. A collection
drops entries of weak tables and calls finalizers. One takes place where a script asks for it; those that come of
themselves are left out. -/

namespace ScriptHost.Lua

/-- Whether an entry may go: its key or its value is an object that the table refers to weakly. -/
def Heap.isWeak (h : Heap) (r : Nat) (k : Value) : Bool :=
  match h.metamethod (.table r) "__mode" with
  | .str mode => mode.toList.contains 0x6b && k.isObject || mode.toList.contains 0x76 && (h.rawGet r k).isObject
  | _ => false

def Heap.dropEntry (h : Heap) (entry : Nat × Value) : Heap :=
  if h.isWeak entry.1 entry.2 then h.modifyTable entry.1 (·.set entry.2 .nil) else h

/-- Takes away what a collection found, and answers with the tables to be finalized, the last one marked first. -/
def Heap.sweep (h : Heap) (found : Garbage) : List Nat × Heap :=
  let (due, kept) := h.finalizable.partition found.unreachable.contains
  let h := found.entries.foldl dropEntry h
  (due, { h.release found.bytes with finalizable := kept })

namespace Collector

def mode (c : Collector) : Value := .ofText (if c.generational then "generational" else "incremental")

/-- A parameter as the collector keeps it: a fourth of it, in a byte. -/
def kept (n : Int64) : Nat := 4 * (n.toInt32 / 4).toInt8.toUInt8.toNat

/-- The incremental collector with other parameters; zero leaves one as it was. -/
def incremental (c : Collector) (pause stepMultiplier : Int64) : Collector where
  running := c.running
  pause := if pause.toInt32 = 0 then c.pause else kept pause
  stepMultiplier := if stepMultiplier.toInt32 = 0 then c.stepMultiplier else kept stepMultiplier

open Native

/-- Answers only while no finalizer runs. -/
def answer (f : Native Value) : Native (List Value) := do
  if ← view fun h => h.collector.finalizing then return [.nil] else return [← f]

def setting (f : Collector → Value × Collector) : Native (List Value) :=
  answer (make fun h => let (v, collector) := f h.collector; (v, { h with collector }))

def setFinalizing (finalizing : Bool) : Native Unit :=
  update fun h => { h with collector := { h.collector with finalizing } }

/-- Calls finalizers one by one. Their errors go no further. -/
def finalizeAll : List Nat → Native Unit
  | [] => pure ()
  | r :: rest => do
    match ← view fun h => h.metamethod (.table r) "__gc" with
    | .nil => pure ()
    | f => let _ ← ask (.protect .none f [.table r])
    finalizeAll rest

def collect (p : Platform) : Native Garbage := do
  let found := p.garbage (← Platform.question)
  let due ← make fun h => h.sweep found
  setFinalizing true
  finalizeAll due
  setFinalizing false
  return found

def run (p : Platform) (args : List Value) : Native (List Value) := do
  let option ← optString args 1 (bytes "collect")
  if option == bytes "collect" then
    answer do let _ ← collect p; return .int 0
  else if option == bytes "stop" then setting fun c => (.int 0, { c with running := false })
  else if option == bytes "restart" then setting fun c => (.int 0, { c with running := true })
  else if option == bytes "count" then answer (view fun h => .float (Number.toFloat (Int64.ofNat h.used) / 1024.0))
  else if option == bytes "step" then
    let _ ← optInt args 2 0
    answer do return .bool (← collect p).finished
  else if option == bytes "isrunning" then setting fun c => (.bool c.running, c)
  else if option == bytes "setpause" then
    let n ← optInt args 2 0
    setting fun c => (.int (Int64.ofNat c.pause), { c with pause := kept n })
  else if option == bytes "setstepmul" then
    let n ← optInt args 2 0
    setting fun c => (.int (Int64.ofNat c.stepMultiplier), { c with stepMultiplier := kept n })
  else if option == bytes "generational" then
    let _ ← optInt args 2 0
    let _ ← optInt args 3 0
    setting fun c => (c.mode, { c with generational := true })
  else if option == bytes "incremental" then
    let pause ← optInt args 2 0
    let stepMultiplier ← optInt args 3 0
    let _ ← optInt args 4 0
    setting fun c => (c.mode, c.incremental pause stepMultiplier)
  else fail (.argument 1 (bytes "invalid option " ++ Lexer.quote option))

end Collector

end ScriptHost.Lua
