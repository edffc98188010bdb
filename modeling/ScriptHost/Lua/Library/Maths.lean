import ScriptHost.Lua.Library.Text
import ScriptHost.Lua.Platform

/-! # The functions on numbers -/

namespace ScriptHost.Lua.Maths

open Native

def pi : Float := 3.141592653589793

def narrowed (x : Float) : Value :=
  match Number.exactInt? x with
  | some n => .int n
  | none => .float x

def lift (f : Float → Float) (args : List Value) : Native (List Value) := do
  return [.float (f (← checkFloat args 1))]

def abs (args : List Value) : Native (List Value) := do
  match arg args 1 with
  | .int n => return [.int (if n < 0 then 0 - n else n)]
  | _ => lift Float.abs args

def rounding (f : Float → Float) (args : List Value) : Native (List Value) := do
  match arg args 1 with
  | .int n => return [.int n]
  | _ => return [narrowed (f (← checkFloat args 1))]

def fmod (args : List Value) : Native (List Value) := do
  match arg args 1, arg args 2 with
  | .int a, .int b =>
    if b = 0 then badArgument 2 "zero"
    return [.int (if b = -1 then 0 else a % b)]
  | _, _ =>
    let a ← checkFloat args 1
    let b ← checkFloat args 2
    return [.float (Number.floatRem a b)]

def modf (args : List Value) : Native (List Value) := do
  match arg args 1 with
  | .int n => return [.int n, .float 0]
  | _ =>
    let x ← checkFloat args 1
    let whole := if x < 0 then x.ceil else x.floor
    return [.float whole, .float (if x == whole then 0 else x - whole)]

def log (args : List Value) : Native (List Value) := do
  let x ← checkFloat args 1
  if isNone args 2 then return [.float x.log]
  let base ← checkFloat args 2
  return [.float (if base == 2 then x.log2 else if base == 10 then x.log10 else x.log / base.log)]

def atan (args : List Value) : Native (List Value) := do
  let y ← checkFloat args 1
  let x ← if isNone args 2 then pure 1 else checkFloat args 2
  return [.float (Float.atan2 y x)]

def tointeger (args : List Value) : Native (List Value) := do
  match (arg args 1).integer? with
  | some n => return [.int n]
  | none =>
    let _ ← checkAny args 1
    return [.nil]

def type (args : List Value) : Native (List Value) := do
  match ← checkAny args 1 with
  | .int _ => return [.ofText "integer"]
  | .float _ => return [.ofText "float"]
  | _ => return [.nil]

/-- The best of some values: one is replaced by a later one that is better. -/
def best (better : Value → Value → Native Bool) : List Value → Value → Native Value
  | [], b => return b
  | v :: vs, b => do best better vs (if ← better v b then v else b)

def extreme (better : Value → Value → Native Bool) (args : List Value) : Native (List Value) := do
  match args with
  | [] => badArgument 1 "value expected"
  | v :: vs => return [← best better vs v]

def ult (args : List Value) : Native (List Value) := do
  return [.bool ((← checkInt args 1).toUInt64 < (← checkInt args 2).toUInt64)]

def word : Native UInt64 := make fun h =>
  let (w, seed) := Random.next h.seed
  (w, { h with seed })

def random (args : List Value) : Native (List Value) := do
  let w ← word
  let between (low up : Int64) : Native (List Value) := do
    if up < low then badArgument 2 "interval is empty"
    let n ← make fun h =>
      let (n, seed) := Random.project (up - low).toUInt64 w h.seed
      (n, { h with seed })
    return [.int (low + n.toInt64)]
  match args with
  | [] => return [.float ((w >>> 11).toFloat / 9007199254740992.0)]
  | [_] =>
    let up ← checkInt args 1
    if up = 0 then return [.int w.toInt64] else between 1 up
  | [_, _] =>
    let low ← checkInt args 1
    between low (← checkInt args 2)
  | _ => error "wrong number of arguments"

def randomseed (p : Platform) (args : List Value) : Native (List Value) := do
  let (a, b) ←
    if args.isEmpty then pure (p.seed (← Platform.question))
    else pure ((← checkInt args 1).toUInt64, (← optInt args 2 0).toUInt64)
  update fun h => { h with seed := Random.seeded a b }
  return [.int a.toInt64, .int b.toInt64]

end ScriptHost.Lua.Maths

namespace ScriptHost.Lua

def MathFn.run (p : Platform) (f : MathFn) (args : List Value) : Native (List Value) :=
  match f with
  | abs => Maths.abs args
  | acos => Maths.lift Float.acos args
  | asin => Maths.lift Float.asin args
  | atan => Maths.atan args
  | ceil => Maths.rounding Float.ceil args
  | cos => Maths.lift Float.cos args
  | deg => Maths.lift (fun x => x * (180.0 / Maths.pi)) args
  | exp => Maths.lift Float.exp args
  | floor => Maths.rounding Float.floor args
  | fmod => Maths.fmod args
  | log => Maths.log args
  | max => Maths.extreme (fun v b => Native.less b v) args
  | min => Maths.extreme Native.less args
  | modf => Maths.modf args
  | rad => Maths.lift (fun x => x * (Maths.pi / 180.0)) args
  | random => Maths.random args
  | randomseed => Maths.randomseed p args
  | sin => Maths.lift Float.sin args
  | sqrt => Maths.lift Float.sqrt args
  | tan => Maths.lift Float.tan args
  | tointeger => Maths.tointeger args
  | type => Maths.type args
  | ult => Maths.ult args

end ScriptHost.Lua
