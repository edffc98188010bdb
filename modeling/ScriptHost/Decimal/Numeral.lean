import ScriptHost.Decimal.Dyadic

/-! # Reading numerals

A numeral is cut into its parts first: sign, digits before and after the point, exponent. Its value is the exact decimal
number of those parts rounded once, so no digit is lost on the way. -/

namespace ScriptHost.Decimal

def digitValue? (base : Nat) (c : Char) : Option Nat :=
  let n := c.toNat
  let v :=
    if 48 ≤ n ∧ n ≤ 57 then n - 48
    else if 97 ≤ n ∧ n ≤ 102 then n - 87
    else if 65 ≤ n ∧ n ≤ 70 then n - 55
    else base
  if v < base then some v else none

def digitRun (base : Nat) : List Char → Nat → Nat → Nat × Nat × List Char
  | [], acc, count => (acc, count, [])
  | c :: cs, acc, count =>
    match digitValue? base c with
    | some v => digitRun base cs (acc * base + v) (count + 1)
    | none => (acc, count, c :: cs)

/-- The double nearest to `± digits · 10 ^ exponent`. Beyond the exponents that a double can show the answer is known
without building the power. -/
def ofDecimal (negative : Bool) (digits : Nat) (exponent : Int) : Float :=
  let top : Int := exponent + (digits.log2 * 30103 / 100000 : Nat)
  if digits = 0 then nearest negative 0 1
  else if 310 < top then nearest negative (10 ^ 310) 1
  else if top < -330 then nearest negative 0 1
  else nearest negative (digits * 10 ^ exponent.toNat) (10 ^ (-exponent).toNat)

/-- The double nearest to `± digits · 2 ^ exponent`, with the same shortcut. -/
def ofBinary (negative : Bool) (digits : Nat) (exponent : Int) : Float :=
  let top := exponent + digits.log2
  if digits = 0 then nearest negative 0 1
  else if 1030 < top then nearest negative (2 ^ 1030) 1
  else if top < -1080 then nearest negative 0 1
  else nearest negative (digits * 2 ^ exponent.toNat) (2 ^ (-exponent).toNat)

def takeSign : List Char → Bool × List Char
  | '-' :: cs => (true, cs)
  | '+' :: cs => (false, cs)
  | cs => (false, cs)

/-- A decimal exponent, introduced by `e` or `E`: its value and the rest. None is given if digits are missing. -/
def takeExponent (marks : List Char) : List Char → Option (Int × List Char)
  | c :: cs =>
    if marks.contains c then
      let (negative, cs) := takeSign cs
      let (value, count, rest) := digitRun 10 cs 0 0
      if count = 0 then none else some (if negative then -(value : Int) else value, rest)
    else some (0, c :: cs)
  | [] => some (0, [])

def takeMantissa (base : Nat) (cs : List Char) : Option (Nat × Nat × List Char) :=
  let (whole, wholeCount, rest) := digitRun base cs 0 0
  match rest with
  | '.' :: rest =>
    let (all, count, rest) := digitRun base rest whole wholeCount
    if count = 0 then none else some (all, count - wholeCount, rest)
  | rest => if wholeCount = 0 then none else some (whole, 0, rest)

def unsignedFloat? (negative : Bool) (cs : List Char) : Option Float := do
  let (digits, places, rest) ← takeMantissa 10 cs
  let (exponent, rest) ← takeExponent ['e', 'E'] rest
  if rest.isEmpty then some (ofDecimal negative digits (exponent - places)) else none

/-- A double from its text: an optional sign, then a decimal numeral or the name of an infinity or of the non-number,
in letters of either case. -/
def float? (s : String) : Option Float :=
  let (negative, cs) := takeSign s.toList
  let word := String.ofList (cs.map Char.toLower)
  if word = "inf" ∨ word = "infinity" then some (if negative then -(1.0 / 0.0) else 1.0 / 0.0)
  else if word = "nan" then some (0.0 / 0.0)
  else unsignedFloat? negative cs

end ScriptHost.Decimal
