import ScriptHost.Decimal.Dyadic

/-! # Decimal digits of a positive fraction

The number `digits · 10 ^ exponent`, found in two ways: a fixed count of leading digits, rounded once from the exact
value, and the fewest digits that still read back as the same double. -/

namespace ScriptHost.Decimal

/-- The number `digits · 10 ^ exponent`. -/
structure Scaled where
  digits : Nat
  exponent : Int
  deriving DecidableEq, Repr

/-- `num / den` divided by `10 ^ exponent`, as a fraction. -/
def unscaleTen (num den : Nat) (exponent : Int) : Nat × Nat :=
  (num * 10 ^ (-exponent).toNat, den * 10 ^ exponent.toNat)

def reaches (num den : Nat) (exponent : Int) : Bool :=
  let (n, d) := unscaleTen num den exponent
  d ≤ n

/-- The exponent of the leading digit of `num / den > 0`: the largest power of ten that does not exceed it. -/
def leading (num den : Nat) : Int :=
  let guess : Int := ((num.log2 : Int) - den.log2 - 1) * 30103 / 100000
  if reaches num den (guess + 2) then guess + 2
  else if reaches num den (guess + 1) then guess + 1
  else if reaches num den guess then guess
  else guess - 1

/-- Drops the zeros at the end of the digits; the count of them is at most `fuel`. -/
def stripZeros : Nat → Scaled → Scaled
  | 0, s => s
  | fuel + 1, s => if s.digits % 10 = 0 then stripZeros fuel ⟨s.digits / 10, s.exponent + 1⟩ else s

/-- The first `count` digits of `num / den > 0`, rounded to nearest, a half to the even neighbour. A carry past the
first digit moves the exponent, so that there are `count` digits again. -/
def significant (num den count : Nat) : Scaled :=
  let exponent := leading num den - ((count : Int) - 1)
  let (n, d) := unscaleTen num den exponent
  let digits := roundQuotient n d
  if digits = 10 ^ count then ⟨10 ^ (count - 1), exponent + 1⟩ else ⟨digits, exponent⟩

/-- The numbers that read back as a given double: those between `low / den` and `high / den`, ends included or not. -/
structure Interval where
  low : Nat
  value : Nat
  high : Nat
  den : Nat
  closed : Bool

/-- The interval of `mantissa · 2 ^ exponent`. Below a power of two the doubles lie twice as close. -/
def interval (mantissa : Nat) (exponent : Int) : Interval :=
  let (up, down) := (2 ^ exponent.toNat, 2 ^ (-exponent).toNat)
  let below := if mantissa = 2 ^ 52 ∧ -1074 < exponent then 1 else 2
  ⟨(4 * mantissa - below) * up, 4 * mantissa * up, (4 * mantissa + 2) * up, 4 * down, mantissa % 2 = 0⟩

def Interval.holds (i : Interval) (s : Scaled) : Bool :=
  let n := s.digits * 10 ^ s.exponent.toNat * i.den
  let m := 10 ^ (-s.exponent).toNat
  if i.closed then i.low * m ≤ n && n ≤ i.high * m else i.low * m < n && n < i.high * m

/-- The point of an interval on the grid of multiples of `10 ^ exponent`: the nearer of the value's two neighbours, or
the one that lies in the interval, or none. -/
def Interval.onGrid (i : Interval) (exponent : Int) : Option Scaled :=
  let (n, d) := unscaleTen i.value i.den exponent
  let lower : Scaled := ⟨n / d, exponent⟩
  let upper : Scaled := ⟨n / d + 1, exponent⟩
  let nearer := if roundQuotient n d = n / d then lower else upper
  let farther := if roundQuotient n d = n / d then upper else lower
  if i.holds nearer then some nearer else if i.holds farther then some farther else none

/-- The first grid with a point of the interval, from `exponent` down; the last of them is tried unseen. -/
def Interval.shortestFrom (i : Interval) : Nat → Int → Scaled
  | 0, exponent => let (n, d) := unscaleTen i.value i.den exponent; ⟨roundQuotient n d, exponent⟩
  | fuel + 1, exponent => (i.onGrid exponent).getD (i.shortestFrom fuel (exponent - 1))

/-- The fewest digits that read back as `mantissa · 2 ^ exponent > 0`, and among those the nearest. -/
def shortest (mantissa : Nat) (exponent : Int) : Scaled :=
  let i := interval mantissa exponent
  stripZeros 400 (i.shortestFrom 16 (leading i.value i.den))

end ScriptHost.Decimal
