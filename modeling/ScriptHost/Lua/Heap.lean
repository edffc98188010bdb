import ScriptHost.Lua.Random
import ScriptHost.Lua.Table

/-! # The store of guest objects

Objects live in numbered stores and are never moved, so a reference stays good. Operations here are raw: they look at an
object and change it without asking its metatable. This is all of an interpreter that library functions work on; what
functions captured, and what the host keeps, is apart from it. -/

namespace ScriptHost.Lua

structure Userdata where
  metatable : Option Nat := none

/-- The settings of the collector of garbage. -/
structure Collector where
  running : Bool := true
  generational : Bool := false
  pause : Nat := 200
  stepMultiplier : Nat := 100
  /-- Whether a finalizer runs: no setting can be looked at or changed then. -/
  finalizing : Bool := false

theorem two_tables : 2 ≤ (#[{}, {}] : Array Table).size := by decide

structure Heap where
  /-- The first one has the global variables and the second one the proxies of namespaces. -/
  tables : Array Table := #[{}, {}]
  rooted : 2 ≤ tables.size := by exact two_tables
  userdata : Array Userdata := #[]
  stringMetatable : Option Nat := none
  /-- Tables with a finalizer, the last one marked first. -/
  finalizable : List Nat := []
  seed : Random.Seed := Random.seeded 0 0
  collector : Collector := {}
  /-- How many questions were put to the platform. -/
  asked : Nat := 0
  /-- Bytes in use, by estimate. -/
  used : Nat := 24000

namespace Heap

def globals : Nat := 0

def proxies : Nat := 1

def charge (h : Heap) (size : Nat) : Heap := { h with used := h.used + size }

def release (h : Heap) (size : Nat) : Heap := { h with used := h.used - size }

/-- The bytes that a single request can never get. -/
def addressable : Nat := 2 ^ 33

/-- Whether there is room for so many bytes more, if there may be so many in use. -/
def hasRoom (h : Heap) (limit : Option Nat) (size : Nat) : Bool := limit.all fun limit => h.used + size ≤ limit

/-- Whether a request for memory can be met, if there may be so many bytes in use. -/
def admits (h : Heap) (limit : Option Nat) (size : Nat) : Bool := size < addressable && h.hasRoom limit size

def table (h : Heap) (r : Nat) : Table := h.tables[r]?.getD {}

def modifyTable (h : Heap) (r : Nat) (f : Table → Table) : Heap :=
  { h with tables := h.tables.modify r f, rooted := by simpa using h.rooted }

def addTable (h : Heap) (t : Table) : Nat × Heap :=
  (h.tables.size,
    { h with tables := h.tables.push t, rooted := by simpa using Nat.le_succ_of_le h.rooted, used := h.used + t.footprint })

def rawGet (h : Heap) (r : Nat) (k : Value) : Value := (h.table r).get k

/-- Stores a field raw; the key is neither nil nor the non-number. -/
def rawSet (h : Heap) (r : Nat) (k v : Value) : Heap :=
  let before := (h.table r).footprint
  let h := h.modifyTable r (·.set k v)
  { h with used := h.used + (h.table r).footprint - before }

def rawGetStr (h : Heap) (r : Nat) (s : String) : Value := (h.table r).getStr s

def metatable? (h : Heap) (v : Value) : Option Nat :=
  match v with
  | .table r => (h.table r).metatable
  | .str _ => h.stringMetatable
  | .userdata r => (h.userdata[r]?).bind (·.metatable)
  | _ => none

def metamethod (h : Heap) (v : Value) (event : String) : Value :=
  match h.metatable? v with
  | some m => h.rawGetStr m event
  | none => .nil

def typeLabel (h : Heap) (v : Value) : Bytes :=
  match v with
  | .table _ | .userdata _ =>
    match h.metamethod v "__name" with
    | .str s => s
    | _ => bytes v.typeName
  | v => bytes v.typeName

end Heap

end ScriptHost.Lua
