import ScriptHost.Json.Decode
import ScriptHost.Json.Value

/-! # Return codes

The outcome of compiling or running a script, as a small table of kinds with a number and a name each. -/

namespace ScriptHost

inductive ReturnCode where
  | ok
  | yield
  | runtimeError
  | syntaxError
  | memoryError
  | internalError
  deriving DecidableEq, Repr

namespace ReturnCode

def all : List ReturnCode := [ok, yield, runtimeError, syntaxError, memoryError, internalError]

def raw : ReturnCode → Int
  | ok => 0
  | yield => 1
  | runtimeError => 2
  | syntaxError => 3
  | memoryError => 4
  | internalError => 5

def ofRaw? (n : Int) : Option ReturnCode := all.find? (·.raw == n)

def name : ReturnCode → String
  | ok => "LUA_OK"
  | yield => "LUA_YIELD"
  | runtimeError => "LUA_ERRRUN"
  | syntaxError => "LUA_ERRSYNTAX"
  | memoryError => "LUA_ERRMEM"
  | internalError => "LUA_ERRERR"

def ofName? (s : String) : Option ReturnCode := all.find? (·.name == s)

def isOk (c : ReturnCode) : Bool := c == ok

def toJson (c : ReturnCode) : Json := .string c.name

def decode : Json.Decoder ReturnCode := Json.decodeName ofName?

@[simp] theorem ofRaw?_raw (c : ReturnCode) : ofRaw? c.raw = some c := by cases c <;> rfl

@[simp] theorem ofName?_name (c : ReturnCode) : ofName? c.name = some c := by cases c <;> decide

end ReturnCode

end ScriptHost
