import ScriptHost.Decimal.Layout
import ScriptHost.Json.Decode
import ScriptHost.Json.Value

/-! # Values that cross the border between script and host

Of all guest values only four kinds reach the host. Every guest number arrives as a double. -/

namespace ScriptHost

/-- A value that crosses the border. -/
inductive Argument where
  | nil
  | bool (b : Bool)
  | number (x : Float)
  | text (s : String)

namespace Argument

def typeName : Argument → String
  | nil => "nil"
  | bool _ => "boolean"
  | number _ => "number"
  | text _ => "string"

def render : Argument → String
  | nil => "nil"
  | bool b => if b then "true" else "false"
  | number x => Decimal.plainText x
  | text s => s

/-- Equality of values; numbers are compared as numbers, so the non-number equals nothing and the two zeros are equal. -/
def beq : Argument → Argument → Bool
  | nil, nil => true
  | bool a, bool b => a == b
  | number x, number y => x == y
  | text s, text t => s == t
  | _, _ => false

instance : BEq Argument := ⟨beq⟩

def toJson : Argument → Json
  | nil => .null
  | bool b => .bool b
  | number x => .double x
  | text s => .string s

/-- An argument is read as whatever scalar the text holds. Arrays and objects are read to their end before they are
turned away. -/
def decode : Json.Decoder Argument
  | _, .null => .ok nil
  | _, .bool b => .ok (bool b)
  | _, .number n => do .ok (number (← n.value).toFloat)
  | _, .string s => do .ok (text (← s))
  | depth, t => .error ((t.readFault depth).getD .mismatch)

end Argument

end ScriptHost
