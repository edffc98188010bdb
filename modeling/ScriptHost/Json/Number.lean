import ScriptHost.Json.Tree

/-! # The value of a JSON number

Whole numbers that fit 64 bits are kept exactly. Every other number is a double: up to nineteen or twenty leading digits
are taken as a whole number, converted, and then scaled by one power of ten, so the result can be a neighbour of the
nearest double. -/

namespace ScriptHost.Json

/-- A number as read: a whole number that fits 64 bits, with or without a sign, or a double. -/
inductive Number where
  | whole (n : Int)
  | double (x : Float)

def accumulate : List Nat → Nat → Nat × List Nat
  | [], acc => (acc, [])
  | d :: ds, acc => if 2 ^ 64 ≤ acc * 10 + d then (acc, d :: ds) else accumulate ds (acc * 10 + d)

def powerOfTen (e : Nat) : Float := Decimal.ofDecimal false 1 e

/-- Scales a double by a power of ten; the largest power is split off while the exponent lies below all powers. -/
def scale : Nat → Float → Int → Option Float
  | 0, x, _ => some x
  | fuel + 1, x, e =>
    if e.natAbs ≤ 308 then
      if 0 ≤ e then
        let y := x * powerOfTen e.natAbs
        if y == 1.0 / 0.0 then none else some y
      else some (x / powerOfTen e.natAbs)
    else if x == 0.0 then some x
    else if 0 ≤ e then none
    else scale fuel (x / powerOfTen 308) (e + 308)

/-- A double from a significand and a power of ten, if it is finite. Two splits turn every significand to zero. -/
def scaled (negative : Bool) (significand : Nat) (e : Int) : Except Fault Number :=
  match scale 4 (UInt64.ofNat significand).toFloat e with
  | some x => .ok (.double (if negative then -x else x))
  | none => .error .malformed

def clampExponent (e : Int) : Int := max (-(2 ^ 31)) (min (2 ^ 31 - 1) e)

def NumberText.value (n : NumberText) : Except Fault Number :=
  let (s, dropped) := accumulate n.whole 0
  let (significand, used) :=
    match n.fraction with
    | none => (s, 0)
    | some ds => let (t, rest) := accumulate ds s; (t, ds.length - rest.length)
  let base : Int := dropped.length - used
  match n.exponent with
  | some (minus, ds) =>
    let e : Nat := ds.foldl (fun acc d => acc * 10 + d) 0
    if 2 ^ 31 ≤ e then
      if significand ≠ 0 ∧ !minus then .error .malformed
      else .ok (.double (Decimal.nearest n.negative 0 1))
    else scaled n.negative significand (clampExponent (if minus then base - e else base + e))
  | none =>
    if n.fraction.isSome ∨ !dropped.isEmpty then scaled n.negative significand base
    else if !n.negative then .ok (.whole significand)
    else if significand = 0 ∨ 2 ^ 63 < significand then
      .ok (.double (-(UInt64.ofNat significand).toFloat))
    else .ok (.whole (-(significand : Int)))

def Number.toFloat : Number → Float
  | .whole n => if n < 0 then -(UInt64.ofNat n.natAbs).toFloat else (UInt64.ofNat n.natAbs).toFloat
  | .double x => x

end ScriptHost.Json
