import ScriptHost.Argument
import ScriptHost.Failure
import ScriptHost.Lua.Value
import ScriptHost.Text.Utf8

/-! # Carrying values between script and host

Guest values become arguments of a host function and the result of one becomes a guest value. Both ways are partial only
where the two sides differ: the host takes no tables, functions or bytes that are not text, and a result has 32 bits. -/

namespace ScriptHost.Marshal

open Lua (Value)

def doubleOfInt (n : Int64) : Float :=
  if n < 0 then -(0 - n).toUInt64.toFloat else n.toUInt64.toFloat

def toArgument (v : Value) (position : Nat) : Except MarshalError Argument :=
  match v with
  | .nil => .ok .nil
  | .bool b => .ok (.bool b)
  | .int n => .ok (.number (doubleOfInt n))
  | .float x => .ok (.number x)
  | .str s =>
    match Text.Utf8.decode? s with
    | some t => .ok (.text t)
    | none => .error (.invalidUtf8 position)
  | v => .error (.unsupportedType position v.kindName)

def toArgumentsFrom : Nat → List Value → Except MarshalError (List Argument)
  | _, [] => .ok []
  | position, v :: vs => do
    let a ← toArgument v position
    let as ← toArgumentsFrom (position + 1) vs
    .ok (a :: as)

def toArguments (vs : List Value) : Except MarshalError (List Argument) := toArgumentsFrom 1 vs

def ofArgument : Argument → Value
  | .nil => .nil
  | .bool b => .bool b
  | .number x => .float x
  | .text s => .ofText s

def ofResult (n : Int32) : Value := .int n.toInt64

def result? (n : Int) : Option Int32 :=
  if -(2 ^ 31) ≤ n ∧ n < 2 ^ 31 then some (Int32.ofInt n) else none

/-- A double that has nothing behind its point and lies between the ends of 32 bits, as a whole number. -/
def resultOfDouble? (x : Float) : Option Int32 :=
  if Decimal.hasNoFraction x ∧ doubleOfInt Int32.minValue.toInt64 ≤ x ∧ x ≤ doubleOfInt Int32.maxValue.toInt64 then
    some (Decimal.toInt32 x)
  else none

/-- The whole number of 32 bits that a guest value is, in either kind of number. -/
def resultOf? : Value → Option Int32
  | .int n => result? n.toInt
  | .float x => resultOfDouble? x
  | _ => none

def toResult (v : Value) : Except MarshalError Int32 :=
  match resultOf? v with
  | some n => .ok n
  | none => .error (.unsupportedResult v.kindName)

def addressText (v : Value) : String :=
  let n :=
    match v with
    | .table r => 0x100000 + 64 * r
    | .closure r => 0x200000 + 64 * r
    | .thread r => 0x300000 + 64 * r
    | .userdata r => 0x400000 + 64 * r
    | .builtin _ => 0x500000
    | .lightUserdata a => a
    | _ => 0
  "0x" ++ String.ofList (Nat.toDigits 16 n)

def display (v : Value) : String :=
  match v with
  | .nil => "nil"
  | .bool b => if b then "true" else "false"
  | .int n => toString n.toInt
  | .float x => Decimal.plainText x
  | .str s => Text.Utf8.decodeLenient s
  | v => addressText v

def dumpFrom : Nat → List Value → String
  | _, [] => ""
  | position, v :: vs => s!"{position}\t{v.kindName}\t{display v}\n" ++ dumpFrom (position + 1) vs

/-- Values for the log: position, kind and text of each, closed by a line break. -/
def dump (vs : List Value) : String := dumpFrom 1 vs

end ScriptHost.Marshal
