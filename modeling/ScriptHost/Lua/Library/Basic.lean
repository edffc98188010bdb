import ScriptHost.Lua.Compile
import ScriptHost.Lua.Library.Garbage

/-! # The basic functions -/

namespace ScriptHost.Lua.Basic

open Native

def located (level : Int64) (v : Value) : Native Value := do
  match v with
  | .str s =>
    if 0 < level then
      match first (← ask (.position level.toInt.toNat)) with
      | .str place => return .str (place ++ s)
      | _ => return v
    else return v
  | v => return v

def error (args : List Value) : Native (List Value) := do
  let level ← optInt args 2 1
  fail (.object (← located level (arg args 1)))

def assert (args : List Value) : Native (List Value) := do
  if (arg args 1).truthy then return args
  let _ ← checkAny args 1
  let message := if isGiven args 2 then arg args 2 else .ofText "assertion failed!"
  fail (.object (← located 1 message))

def getmetatable (args : List Value) : Native (List Value) := do
  let v ← checkAny args 1
  match v with
  | .error _ => return [.bool false]
  | v =>
    match ← view fun h => (h.metatable? v, h.metamethod v "__metatable") with
    | (none, _) => return [.nil]
    | (some m, .nil) => return [.table m]
    | (some _, shown) => return [shown]

/-- Sets the metatable of a table. One with a finalizer marks the table for it. -/
def setmetatable (args : List Value) : Native (List Value) := do
  let r ← checkTable args 1
  let metatable ←
    match arg args 2 with
    | .table m => pure (some m)
    | .nil => if isGiven args 2 then pure none else typeError args 2 "nil or table"
    | _ => typeError args 2 "nil or table"
  if !(← view fun h => h.metamethod (.table r) "__metatable").isNil then
    Native.error "cannot change a protected metatable"
  update fun h =>
    let finalized : Bool := metatable.any fun m => !(h.rawGetStr m "__gc").isNil
    let h := h.modifyTable r fun t => { t with metatable }
    if finalized && !h.finalizable.contains r then { h with finalizable := r :: h.finalizable } else h
  return [.table r]

def ipairs (args : List Value) : Native (List Value) := do
  return [.builtin (.basic .ipairsStep), ← checkAny args 1, .int 0]

def ipairsStep (args : List Value) : Native (List Value) := do
  let i := (← checkInt args 2) + 1
  match ← index (arg args 1) (.int i) with
  | .nil => return [.nil]
  | v => return [.int i, v]

def next (p : Platform) (args : List Value) : Native (List Value) := do
  let r ← checkTable args 1
  match ← view fun h => (h.table r).next (p.order _) (arg args 2) with
  | .ok (some (k, v)) => return [k, v]
  | .ok none => return [.nil]
  | .error () => fail (.bare (bytes "invalid key to 'next'"))

def adjust (n : Nat) (vs : List Value) : List Value := vs.take n ++ List.replicate (n - vs.length) .nil

def pairs (args : List Value) : Native (List Value) := do
  let v ← checkAny args 1
  match ← view fun h => h.metamethod v "__pairs" with
  | .nil => return [.builtin (.basic .next), v, .nil]
  | f => return adjust 3 (← call f [v])

def rawequal (args : List Value) : Native (List Value) := do
  return [.bool ((← checkAny args 1).rawEq (← checkAny args 2))]

def rawget (args : List Value) : Native (List Value) := do
  let r ← checkTable args 1
  let k ← checkAny args 2
  return [← view fun h => h.rawGet r k]

def rawset (args : List Value) : Native (List Value) := do
  let r ← checkTable args 1
  let k ← checkAny args 2
  let v ← checkAny args 3
  match Heap.rawStore r k with
  | .trouble c => fail (.bare (← view fun h => c.message h fun _ => none))
  | _ =>
    update fun h => h.rawSet r k v
    return [.table r]

def rawlen (args : List Value) : Native (List Value) := do
  match arg args 1 with
  | .table r => return [.int (Int64.ofNat (← tableAt r).length)]
  | .str s => return [.int (Int64.ofNat s.size)]
  | _ => typeError args 1 "table or string"

def select (args : List Value) : Native (List Value) := do
  let count : Int := args.length - 1
  match arg args 1 with
  | .str s =>
    if s.toList.head? == some 0x23 then return [.int (Int64.ofInt count)]
  | _ => pure ()
  let n := (← checkInt args 1).toInt
  if n < 0 then
    if count + n < 0 then badArgument 1 "index out of range"
    return args.drop (count + n + 1).toNat
  else if n = 0 then badArgument 1 "index out of range"
  else return args.drop n.toNat

def digitValue? (base : Nat) (c : Char) : Option Nat :=
  let v : Option Nat :=
    if c.isDigit then some (c.toNat - 48)
    else if c.isLower then some (c.toNat - 87)
    else if c.isUpper then some (c.toNat - 55)
    else none
  v.filter fun v => v < base

def digitsIn? (base : Nat) : List Char → Nat → Option Nat
  | [], n => some n
  | c :: cs, n => (digitValue? base c).bind fun v => digitsIn? base cs (n * base + v)

/-- A whole number in a given base, which wraps around; blanks may stand around it. -/
def intIn? (base : Nat) (s : Bytes) : Option Int64 :=
  let (negative, cs) := Decimal.takeSign (Number.trimSpaces s.chars)
  if cs.isEmpty then none
  else
    (digitsIn? base cs 0).map fun n =>
      let i := Int64.ofInt ((n % 2 ^ 64 : Nat) : Int)
      if negative then 0 - i else i

def tonumber (args : List Value) : Native (List Value) := do
  if isNone args 2 then
    match arg args 1 with
    | .int n => return [.int n]
    | .float x => return [.float x]
    | .str s => return [(Number.ofText? s).getD .nil]
    | _ =>
      let _ ← checkAny args 1
      return [.nil]
  else
    let base ← checkInt args 2
    match arg args 1 with
    | .str s =>
      if base < 2 || 36 < base then badArgument 2 "base out of range"
      return [((intIn? base.toInt.toNat s).map Value.int).getD .nil]
    | _ => typeError args 1 "string"

def tostring (args : List Value) : Native (List Value) := do
  return [.str (← textOf (← checkAny args 1))]

def type (args : List Value) : Native (List Value) := do
  return [.ofText (← checkAny args 1).typeName]

def pcall (args : List Value) : Native (List Value) :=
  match args with
  | [] => fail (.object (.ofText "not enough arguments to pcall"))
  | f :: rest => ask (.protect .none f rest)

def xpcall (args : List Value) : Native (List Value) :=
  match args with
  | f :: handler :: rest => ask (.protect (.function handler) f rest)
  | _ => fail (.object (.ofText "not enough arguments to xpcall"))

/-- Calls with no visible effect: output is not part of the model. -/
def print (args : List Value) : Native (List Value) := do
  let _ ← args.mapM textOf
  return []

/-- An error that the message handlers around see, but that goes no further. -/
def swallow (message : Bytes) : Native (List Value) := do
  let answer ← ask (.protect .inherited (.builtin (.basic .error)) [.str message, .int 0])
  return [.nil, arg answer 2]

def compileChunk (source name mode : Bytes) (environment : Option Value) : Native (List Value) := do
  let (kind, letter) := if isPrecompiled source then ("binary", 0x62) else ("text", 0x74)
  if !mode.toList.contains letter then
    return [.nil, .str (bytes s!"attempt to load a {kind} chunk (mode is " ++ Lexer.quote mode ++ bytes ")")]
  let depth := ((Number.int? (first (← ask .depth))).getD 0).toInt.toNat
  claim (source.size / 2)
  match compile source (Lexer.untilZero name) depth with
  | .ok p => ask (.chunk p environment)
  | .error (.invalid message) => return [.nil, .str message]
  | .error (.overflow message) => swallow message

/-- The pieces that a reader function gives, up to nil or an empty string, or the error that ended the reading. -/
def readPieces (reader : Value) : Nat → Bytes → Native (Bytes × Option (List Value))
  | 0, source => return (source, none)
  | fuel + 1, source => do
    let answer ← ask (.protect .inherited reader [])
    if !(arg answer 1).truthy then return (source, some [.nil, arg answer 2])
    match arg answer 2 with
    | .nil => return (source, none)
    | v =>
      match v.text? with
      | some piece => if piece.size = 0 then return (source, none) else readPieces reader fuel (source ++ piece)
      | none =>
        match ← located 1 (.ofText "reader function must return a string") with
        | .str message => return (source, some (← swallow message))
        | _ => return (source, none)

def pieceLimit : Nat := 10 ^ 9

def load (args : List Value) : Native (List Value) := do
  let mode ← optString args 3 (bytes "bt")
  let environment := if isGiven args 4 then some (arg args 4) else none
  match (arg args 1).text? with
  | some source => compileChunk source (← optString args 2 source) mode environment
  | none =>
    let name ← optString args 2 (bytes "=(load)")
    let reader ← checkFunction args 1
    match ← readPieces reader pieceLimit (bytes "") with
    | (source, none) => compileChunk source name mode environment
    | (_, some failure) => return failure

end ScriptHost.Lua.Basic

namespace ScriptHost.Lua

def BasicFn.run (p : Platform) (f : BasicFn) (args : List Value) : Native (List Value) :=
  match f with
  | assert => Basic.assert args
  | collectgarbage => Collector.run p args
  | error => Basic.error args
  | getmetatable => Basic.getmetatable args
  | ipairs => Basic.ipairs args
  | ipairsStep => Basic.ipairsStep args
  | load => Basic.load args
  | next => Basic.next p args
  | pairs => Basic.pairs args
  | pcall => Basic.pcall args
  | print => Basic.print args
  | rawequal => Basic.rawequal args
  | rawget => Basic.rawget args
  | rawlen => Basic.rawlen args
  | rawset => Basic.rawset args
  | select => Basic.select args
  | setmetatable => Basic.setmetatable args
  | tonumber => Basic.tonumber args
  | tostring => Basic.tostring args
  | type => Basic.type args
  | xpcall => Basic.xpcall args

end ScriptHost.Lua
