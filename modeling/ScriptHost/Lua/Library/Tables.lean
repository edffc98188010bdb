import ScriptHost.Lua.Library.Text

/-! # The functions on tables

Tables are read and written with their metamethods. -/

namespace ScriptHost.Lua.Tables

open Native

def checkLike (args : List Value) (n : Nat) (events : List String) : Native Value := do
  let v := arg args n
  match v with
  | .table _ => return v
  | v =>
    let alike ← view fun h => (h.metatable? v).isSome && events.all fun e => !(h.metamethod v e).isNil
    if alike then return v else typeError args n "table"

def readEvents : List String := ["__index", "__len"]

def writeEvents : List String := ["__index", "__newindex", "__len"]

def geti (t : Value) (i : Int64) : Native Value := index t (.int i)

def seti (t : Value) (i : Int64) (v : Value) : Native Unit := store t (.int i) v

/-- Moves a row of `count` values one by one, by `step` through both rows. -/
def moveBy (source target : Value) (step : Int64) : Nat → Int64 → Int64 → Native Unit
  | 0, _, _ => return ()
  | count + 1, i, j => do
    seti target j (← geti source i)
    moveBy source target step count (i + step) (j + step)

def insert (args : List Value) : Native (List Value) := do
  let t ← checkLike args 1 writeEvents
  let e := (← lengthOf t) + 1
  match args with
  | [_, v] => seti t e v
  | [_, _, v] =>
    let pos ← checkInt args 2
    if !((pos - 1).toUInt64 < e.toUInt64) then badArgument 2 "position out of bounds"
    moveBy t t (-1) (e.toInt - pos.toInt).toNat (e - 1) e
    seti t pos v
  | _ => error "wrong number of arguments to 'insert'"
  return []

def remove (args : List Value) : Native (List Value) := do
  let t ← checkLike args 1 writeEvents
  let size ← lengthOf t
  let pos ← optInt args 2 size
  if pos != size && size.toUInt64 < (pos - 1).toUInt64 then badArgument 2 "position out of bounds"
  let removed ← geti t pos
  moveBy t t 1 (size.toInt - pos.toInt).toNat (pos + 1) pos
  seti t (if pos < size then size else pos) .nil
  return [removed]

def move (args : List Value) : Native (List Value) := do
  let f ← checkInt args 2
  let e ← checkInt args 3
  let t ← checkInt args 4
  let target := if isNone args 5 then 1 else 5
  let source ← checkLike args 1 ["__index"]
  let goal ← checkLike args target ["__newindex"]
  if f ≤ e then
    if !(0 < f.toInt || e.toInt < 2 ^ 63 - 1 + f.toInt) then badArgument 3 "too many elements to move"
    let n := e.toInt - f.toInt + 1
    if !(t.toInt ≤ 2 ^ 63 - 1 - n + 1) then badArgument 4 "destination wrap around"
    let upward ←
      if e < t || t ≤ f then pure true
      else if target = 1 then pure false
      else pure (!(← equal source goal))
    if upward then moveBy source goal 1 n.toNat f t
    else moveBy source goal (-1) n.toNat e (t + Int64.ofInt (n - 1))
  return [goal]

def concatFrom (t : Value) (separator : Bytes) : Nat → Int64 → Bytes → Native Bytes
  | 0, _, acc => return acc
  | count + 1, i, acc => do
    match (← geti t i).text? with
    | some s =>
      let acc := acc ++ s
      concatFrom t separator count (i + 1) (if count = 0 then acc else acc ++ separator)
    | none => error s!"invalid value (at index {i.toInt}) in table for 'concat'"

def concat (args : List Value) : Native (List Value) := do
  let t ← checkLike args 1 readEvents
  let size ← lengthOf t
  let separator ← optString args 2 (bytes "")
  let i ← optInt args 3 1
  let last ← optInt args 4 size
  Text.built (← concatFrom t separator (last.toInt - i.toInt + 1).toNat i (bytes ""))

def pack (args : List Value) : Native (List Value) := do
  let row : Table := .ofRow args.toArray 1
  return [← newTable (row.setStr "n" (Text.int args.length))]

def valuesFrom (t : Value) : Nat → Int64 → List Value → Native (List Value)
  | 0, _, acc => return acc.reverse
  | count + 1, i, acc => do
    let v ← geti t i
    valuesFrom t count (i + 1) (v :: acc)

def unpack (args : List Value) : Native (List Value) := do
  let t := arg args 1
  let i ← optInt args 2 1
  let e ← if isNone args 3 then lengthOf t else checkInt args 3
  if e < i then return []
  let n := (e.toInt - i.toInt + 1).toNat
  if Text.stackRoom ≤ n then error "too many results to unpack"
  valuesFrom t n i []

def before (comparison : Value) (a b : Value) : Native Bool := do
  match comparison with
  | .nil => less a b
  | f => return (← call1 f [a, b]).truthy

def invalidOrder {α : Type} : Native α := error "invalid order function for sorting"

/-- The first place from behind `i` on whose value does not come before the pivot, with the value. -/
def scanUp (t comparison pivot : Value) (up : Int64) : Nat → Int64 → Native (Int64 × Value)
  | 0, _ => invalidOrder
  | fuel + 1, i => do
    let i := i + 1
    let v ← geti t i
    if ← before comparison v pivot then
      if i = up - 1 then invalidOrder
      scanUp t comparison pivot up fuel i
    else return (i, v)

/-- The first place from below `j` on downwards whose value does not come behind the pivot, with the value. -/
def scanDown (t comparison pivot : Value) (i : Int64) : Nat → Int64 → Native (Int64 × Value)
  | 0, _ => invalidOrder
  | fuel + 1, j => do
    let j := j - 1
    let v ← geti t j
    if ← before comparison pivot v then
      if j < i then invalidOrder
      scanDown t comparison pivot i fuel j
    else return (j, v)

/-- Splits a row around the pivot, which lies last but one in it; gives the place where the pivot comes to lie. -/
def partition (t comparison pivot : Value) (size : Nat) (up : Int64) : Nat → Int64 → Int64 → Native Int64
  | 0, i, _ => return i
  | fuel + 1, i, j => do
    let (i, a) ← scanUp t comparison pivot up size i
    let (j, b) ← scanDown t comparison pivot i size j
    if j < i then
      seti t (up - 1) a
      seti t i pivot
      return i
    else
      seti t i b
      seti t j a
      partition t comparison pivot size up fuel i j

def sortFrom (t comparison : Value) (size : Nat) : Nat → Int64 → Int64 → Native Unit
  | 0, _, _ => return ()
  | fuel + 1, lo, up => do
    if up ≤ lo then return ()
    let a ← geti t lo
    let b ← geti t up
    if ← before comparison b a then
      seti t lo b
      seti t up a
    if up - lo = 1 then return ()
    let p := (lo + up) / 2
    let middle ← geti t p
    let low ← geti t lo
    if ← before comparison middle low then
      seti t p low
      seti t lo middle
    else
      let high ← geti t up
      if ← before comparison high middle then
        seti t p high
        seti t up middle
    if up - lo = 2 then return ()
    let pivot ← geti t p
    let last ← geti t (up - 1)
    seti t p last
    seti t (up - 1) pivot
    let p ← partition t comparison pivot size up size lo (up - 1)
    if p - lo < up - p then
      sortFrom t comparison size fuel lo (p - 1)
      sortFrom t comparison size fuel (p + 1) up
    else
      sortFrom t comparison size fuel (p + 1) up
      sortFrom t comparison size fuel lo (p - 1)

def sort (args : List Value) : Native (List Value) := do
  let t ← checkLike args 1 writeEvents
  let n ← lengthOf t
  if 1 < n then
    if 2 ^ 31 - 1 ≤ n.toInt then badArgument 1 "array too big"
    let comparison ← if isNone args 2 then pure .nil else checkFunction args 2
    let size := n.toInt.toNat + 2
    sortFrom t comparison size size 1 n
  return []

end ScriptHost.Lua.Tables

namespace ScriptHost.Lua

def TableFn.run (f : TableFn) (args : List Value) : Native (List Value) :=
  match f with
  | concat => Tables.concat args
  | insert => Tables.insert args
  | move => Tables.move args
  | pack => Tables.pack args
  | remove => Tables.remove args
  | sort => Tables.sort args
  | unpack => Tables.unpack args

end ScriptHost.Lua
