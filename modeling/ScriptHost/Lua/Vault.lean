import ScriptHost.Lua.GuestError
import ScriptHost.Lua.Table

/-! # What library functions cannot reach

Closures and the variables they captured, the environments of loaded scripts, and what is kept for the host: the error
objects and the tables of the globals and of the proxies. Library functions only ask the machine to add to this. -/

namespace ScriptHost.Lua

/-- Where a captured variable lives: in a cell, or as the environment of a loaded script. The scripts are numbered in the
order in which they were loaded. -/
inductive Captured where
  | cell (i : Nat)
  | environment (script : Nat)
  deriving DecidableEq, Repr

instance : Inhabited Captured := ⟨.cell 0⟩

/-- A library function that keeps values of its own. -/
inductive Bound where
  | wrap (thread : Nat)
  | matches (subject pattern : Bytes) (start : Nat) (lastEnd : Option Nat)
  /-- Answers for a missing field of a namespace with the function of that name. -/
  | namespaceField (space : Bytes)
  /-- The host function of a name, for calls on the object that it was asked of. -/
  | member (space : Bytes) (name self : Value)

/-- What a closure does when it is called. -/
inductive Closure where
  | script (p : Proto) (captured : Array Captured)
  | bound (f : Bound)

/-- A closure that gives matches goes on behind the last one; no other closure ever changes. -/
def Closure.advanced (c : Closure) (position : Nat) : Closure :=
  match c with
  | bound (.matches subject pattern _ _) => bound (.matches subject pattern position (some position))
  | c => c

/-- The part of an interpreter that only the machine and the host work on. -/
structure Vault where
  closures : Array Closure := #[]
  cells : Array Value := #[]
  /-- The environments that scripts put in place of the table of globals, by the numbers of the scripts. -/
  assigned : Std.TreeMap Nat Value := ∅
  errors : Array GuestError := #[]
  globals : Nat := 0
  /-- The proxies of the namespaces by their names. -/
  proxies : Nat := 0

namespace Vault

/-- The bytes that a closure takes, or a cell, by estimate. -/
def closureSize : Nat := 40

/-- The bytes that an error object takes, by estimate. -/
def errorSize : Nat := 64

def footprint (v : Vault) : Nat := closureSize * (v.closures.size + v.cells.size) + errorSize * v.errors.size

def addClosure (v : Vault) (c : Closure) : Value × Vault :=
  (.closure v.closures.size, { v with closures := v.closures.push c })

def advance (v : Vault) (r position : Nat) : Vault :=
  { v with closures := v.closures.modify r (·.advanced position) }

def addCell (v : Vault) (x : Value) : Nat × Vault := (v.cells.size, { v with cells := v.cells.push x })

def cell (v : Vault) (r : Nat) : Value := v.cells[r]?.getD .nil

def setCell (v : Vault) (r : Nat) (x : Value) : Vault := { v with cells := v.cells.setIfInBounds r x }

def addError (v : Vault) (e : GuestError) : Value × Vault :=
  (.error v.errors.size, { v with errors := v.errors.push e })

/-- The environment of a loaded script: the table of globals until the script assigns another one. -/
def environment (v : Vault) (script : Nat) : Value := v.assigned[script]?.getD (.table v.globals)

def read (v : Vault) : Captured → Value
  | .cell i => v.cell i
  | .environment script => v.environment script

def write (v : Vault) (c : Captured) (x : Value) : Vault :=
  match c with
  | .cell i => v.setCell i x
  | .environment script => { v with assigned := v.assigned.insert script x }

end Vault

end ScriptHost.Lua
