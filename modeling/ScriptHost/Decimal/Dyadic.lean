/-! # Doubles as exact dyadic numbers

A finite double is a sign, a whole mantissa and a power of two. Every printer and reader of numbers works on this exact
form; the hardware type is touched only here. -/

namespace ScriptHost

-- Powers of whole numbers are the computed ones, whatever a module imports besides.

@[default_instance 20000]
instance (priority := high) natPow : Pow Nat Nat := instPowNat

@[default_instance 19000]
instance (priority := high) intPow : Pow Int Nat := instPowNat

end ScriptHost

namespace ScriptHost.Decimal

/-- The number `± mantissa · 2 ^ exponent`. -/
structure Dyadic where
  negative : Bool
  mantissa : Nat
  exponent : Int
  deriving DecidableEq, Repr

/-- What a double stands for. -/
inductive Reading where
  | notANumber
  | infinite (negative : Bool)
  | finite (d : Dyadic)
  deriving DecidableEq, Repr

/-- The meaning of a pattern of 64 bits: sign, eleven bits of biased exponent, fifty-two of fraction. -/
def readBits (bits : Nat) : Reading :=
  let negative := decide (2 ^ 63 ≤ bits)
  let biased : Nat := bits / 2 ^ 52 % 2 ^ 11
  let fraction : Nat := bits % 2 ^ 52
  if biased = 2047 then if fraction = 0 then .infinite negative else .notANumber
  else if biased = 0 then .finite ⟨negative, fraction, -1074⟩
  else .finite ⟨negative, fraction + 2 ^ 52, (biased : Int) - 1075⟩

def read (x : Float) : Reading := readBits x.toBits.toNat

/-- `num / den` for `den ≠ 0`, to the nearest whole number, a half to the even neighbour. -/
def roundQuotient (num den : Nat) : Nat :=
  let q := num / den
  let r := num % den
  if den < 2 * r ∨ (den = 2 * r ∧ q % 2 = 1) then q + 1 else q

/-- A fraction `num / den` divided by `2 ^ exponent`, again as a fraction. -/
def unscale (num den : Nat) (exponent : Int) : Nat × Nat :=
  (num * 2 ^ (-exponent).toNat, den * 2 ^ exponent.toNat)

/-- The bits, sign aside, of the double nearest to `num / den`, where `den ≠ 0`; a half goes to the even neighbour and
what lies beyond the largest double is infinite. -/
def nearestBits (num den : Nat) : Nat :=
  if num = 0 then 0 else
  let guess : Int := (num.log2 : Int) - den.log2 - 53
  let (n, d) := unscale num den guess
  let exponent := max (if 2 ^ 53 ≤ n / d then guess + 1 else guess) (-1074)
  let (n, d) := unscale num den exponent
  let mantissa := roundQuotient n d
  let bits := (exponent + 1074).toNat * 2 ^ 52 + mantissa
  if 2047 * 2 ^ 52 ≤ bits then 2047 * 2 ^ 52 else bits

def nearest (negative : Bool) (num den : Nat) : Float :=
  Float.ofBits (UInt64.ofNat (nearestBits num den + if negative then 2 ^ 63 else 0))

def Dyadic.toFloat (d : Dyadic) : Float :=
  let (n, m) := unscale d.mantissa 1 (-d.exponent)
  nearest d.negative n m

def Dyadic.whole? (d : Dyadic) : Option Int :=
  let size : Option Nat :=
    match d.exponent with
    | .ofNat e => some (d.mantissa * 2 ^ e)
    | .negSucc e => if d.mantissa % 2 ^ (e + 1) = 0 then some (d.mantissa / 2 ^ (e + 1)) else none
  size.map fun n => if d.negative then -(n : Int) else n

/-- The whole number that a double equals, if it is one: an infinity or a fraction equals none. -/
def whole? (x : Float) : Option Int :=
  match read x with
  | .finite d => d.whole?
  | _ => none

def Dyadic.fraction (d : Dyadic) : Dyadic := { d with mantissa := d.mantissa % 2 ^ (-d.exponent).toNat }

/-- What is behind the point of a double; with an infinity that is no number. -/
def fraction (x : Float) : Reading :=
  match read x with
  | .finite d => .finite d.fraction
  | _ => .notANumber

/-- Whether a double is finite and nothing but zero is behind its point. -/
def hasNoFraction (x : Float) : Bool :=
  match fraction x with
  | .finite d => d.mantissa == 0
  | _ => false

/-- A double cut off at its point and then moved to the nearest end of the range of 32 bits; zero for what is no
number. -/
def toInt32 (x : Float) : Int32 := x.toModel.toInt32

end ScriptHost.Decimal
