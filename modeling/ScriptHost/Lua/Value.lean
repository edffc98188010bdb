/-! # Values of the guest language

Strings are byte strings. Tables, closures, coroutines and host objects are references into stores, so that two of them
are equal when they are the same object. -/

namespace ScriptHost.Lua

abbrev Bytes := ByteArray

/-- The comparison that comes with byte arrays, whatever a module imports besides. -/
instance (priority := high) bytesDecidableEq : DecidableEq Bytes := ByteArray.instDecidableEq

def bytes (s : String) : Bytes := s.toUTF8

inductive BasicFn where
  | assert | collectgarbage | error | getmetatable | ipairs | ipairsStep | load | next | pairs | pcall | print
  | rawequal | rawget | rawlen | rawset | select | setmetatable | tonumber | tostring | type | xpcall
  deriving DecidableEq, Ord, Repr

/-- The functions of the string library, the arithmetic of strings included. -/
inductive StringFn where
  | byte | char | find | format | gmatch | gsub | len | lower | match | rep | reverse | sub | upper
  | pack | packsize | unpack
  | add | sub_ | mul | mod | pow | div | idiv | unm
  deriving DecidableEq, Ord, Repr

inductive TableFn where
  | concat | insert | move | pack | remove | sort | unpack
  deriving DecidableEq, Ord, Repr

inductive MathFn where
  | abs | acos | asin | atan | ceil | cos | deg | exp | floor | fmod | log | max | min | modf | rad | random
  | randomseed | sin | sqrt | tan | tointeger | type | ult
  deriving DecidableEq, Ord, Repr

inductive Utf8Fn where
  | char | codepoint | codes | codesStep | codesStepLax | len | offset
  deriving DecidableEq, Ord, Repr

inductive CoroutineFn where
  | close | create | isyieldable | resume | running | status | wrap | yield
  deriving DecidableEq, Ord, Repr

inductive Builtin where
  | basic (f : BasicFn)
  | string (f : StringFn)
  | table (f : TableFn)
  | math (f : MathFn)
  | utf8 (f : Utf8Fn)
  | coroutine (f : CoroutineFn)
  /-- The entry to the host, which takes a namespace, a function name and arguments. -/
  | dispatch
  /-- The message handler of a run. -/
  | trap
  | fileText
  /-- A function that reaches outside of the interpreter, known by name only. -/
  | outside (name : String)
  deriving DecidableEq, Ord, Repr

inductive Value where
  | nil
  | bool (b : Bool)
  | int (n : Int64)
  | float (x : Float)
  | str (s : Bytes)
  | table (ref : Nat)
  | builtin (f : Builtin)
  | closure (ref : Nat)
  | thread (ref : Nat)
  | userdata (ref : Nat)
  | lightUserdata (address : Nat)
  | error (ref : Nat)

instance : Inhabited Value := ⟨.nil⟩

namespace Value

def truthy : Value → Bool
  | nil => false
  | bool b => b
  | _ => true

def isNil : Value → Bool
  | nil => true
  | _ => false

/-- Whether a value is an object that scripts make, and so one that weak tables do not keep. -/
def isObject : Value → Bool
  | table _ | closure _ | thread _ | userdata _ | error _ => true
  | _ => false

def typeName : Value → String
  | nil => "nil"
  | bool _ => "boolean"
  | int _ | float _ => "number"
  | str _ => "string"
  | table _ => "table"
  | builtin _ | closure _ => "function"
  | thread _ => "thread"
  | userdata _ | lightUserdata _ | error _ => "userdata"

def kindName : Value → String
  | nil => "nil"
  | bool _ => "boolean"
  | int _ => "integer"
  | float _ => "number"
  | str _ => "string"
  | table _ => "table"
  | builtin _ | closure _ => "function"
  | thread _ => "thread"
  | userdata _ => "userdata"
  | lightUserdata _ => "lightuserdata"
  | error _ => "error"

def ofText (s : String) : Value := .str (bytes s)

end Value

end ScriptHost.Lua
