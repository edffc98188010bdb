import ScriptHost.Key
import ScriptHost.Text.Quoted
import Std.Data.TreeMap.Basic

/-! # The registry of host functions

A finite map from function names to handles, in the order of the names. What a handle is does not matter here. -/

namespace ScriptHost

structure Registry (α : Type) where
  entries : Std.TreeMap Key α Key.cmp := ∅

namespace Registry

variable {α : Type}

def empty : Registry α := {}

def register (r : Registry α) (k : Key) (handle : α) : Registry α := ⟨r.entries.insert k handle⟩

def resolve (r : Registry α) (k : Key) : Option α := r.entries[k]?

def contains (r : Registry α) (k : Key) : Bool := (r.resolve k).isSome

def put (r : Registry α) (k : Key) (handle : α) : Bool × Registry α := (r.contains k, r.register k handle)

def keys (r : Registry α) : List Key := r.entries.keys

/-- The namespaces of ordered keys, each once: equal ones stand side by side. -/
def distinctSpaces : List Key → List String
  | [] => []
  | k :: ks =>
    match distinctSpaces ks with
    | [] => [k.space]
    | s :: ss => if k.space = s then s :: ss else k.space :: s :: ss

def namespaces (r : Registry α) : List String := distinctSpaces r.keys

def describe (r : Registry α) : String := Text.quotedSet (r.keys.map Key.text)

end Registry

end ScriptHost
