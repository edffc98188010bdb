import ScriptHost.Lua.Native

/-! # What an interpreter gets from outside

A script can ask for what neither the language nor the store decides: where random numbers start, in which order a table
is traversed, what a collection of garbage finds, what a traceback says, and what files, processes and modules do. All of
this is a parameter of the interpreter. Answers go by the number of the question, so the same question can get another
answer each time. -/

namespace ScriptHost.Lua

/-- What a collection finds. Where nothing leads to a table with a finalizer, the finalizer is called; where only weak
entries refer to something, the entries go. -/
structure Garbage where
  unreachable : List Nat := []
  /-- Entries by their tables and keys. -/
  entries : List (Nat × Value) := []
  /-- The bytes that are free again. -/
  bytes : Nat := 0
  /-- Whether a step ends a cycle. -/
  finished : Bool := true

structure Platform where
  /-- The words that random numbers start from, at first and whenever they start anew without any given. -/
  seed : Nat → UInt64 × UInt64 := fun _ => (0, 0)
  order : (t : Table) → Order t.nodes.size := fun _ => .standing _
  garbage : Nat → Garbage := fun _ => {}
  /-- The traceback in an error of the host, by the number of its object. -/
  traceback : Nat → String := fun _ => "stack traceback:"
  /-- The functions that reach outside of the interpreter. -/
  outside : Nat → String → List Value → Native (List Value) := fun _ _ _ => pure []

namespace Platform

def firstSeed (p : Platform) : Random.Seed := Random.seeded (p.seed 0).1 (p.seed 0).2

/-- The number of a question that is put now. -/
def question : Native Nat := Native.make fun h => (h.asked + 1, { h with asked := h.asked + 1 })

end Platform

end ScriptHost.Lua
