import ScriptHost.Json.Value

/-! # Names of host functions

A host function is known by its name within a namespace. The pair is ordered by namespace first; its text joins the two
and may be shared by different pairs. -/

namespace ScriptHost

/-- The namespace of a function that is registered without one. -/
def defaultNamespace : String := "java"

structure Key where
  space : String
  name : String
  deriving DecidableEq, Repr

namespace Key

def plain (name : String) : Key := ⟨defaultNamespace, name⟩

/-- By namespace, then by name, each by code points. -/
def cmp (a b : Key) : Ordering := (compare a.space b.space).then (compare a.name b.name)

instance : Ord Key := ⟨cmp⟩

def text (k : Key) : String := k.space ++ ":" ++ k.name

def toJson (k : Key) : Json := .object [("namespace", .string k.space), ("name", .string k.name)]

end Key

end ScriptHost
