import ScriptHost.Decimal.Layout
import ScriptHost.Decimal.Numeral
import ScriptHost.Lua.Syntax
import ScriptHost.Marshal

/-! # Guest numbers

Whole numbers of 64 bits that wrap around, and doubles. An operation on two whole numbers stays whole, except division
and powers; any double among the operands makes the result a double. Comparisons across the two kinds are exact. -/

namespace ScriptHost.Lua

def Bytes.chars (s : Bytes) : List Char := s.toList.map fun b => Char.ofNat b.toNat

def Bytes.ofChars (cs : List Char) : Bytes := ⟨(cs.map fun c => UInt8.ofNat c.toNat).toArray⟩

namespace Number

def toFloat (n : Int64) : Float := Marshal.doubleOfInt n

def int64? (n : Int) : Option Int64 := if -(2 ^ 63) ≤ n ∧ n < 2 ^ 63 then some (Int64.ofInt n) else none

def exactInt? (x : Float) : Option Int64 := (Decimal.whole? x).bind int64?

def floorInt? (x : Float) : Option Int64 := exactInt? x.floor

def intDiv (a b : Int64) : Int64 :=
  if b = -1 then 0 - a
  else
    let q := a / b
    if (a ^^^ b) < 0 ∧ a % b ≠ 0 then q - 1 else q

/-- The remainder of the division towards the floor, which has the sign of the divisor. -/
def intMod (a b : Int64) : Int64 :=
  if b = -1 then 0
  else
    let r := a % b
    if r ≠ 0 ∧ (r ^^^ b) < 0 then r + b else r

/-- The remainder of the division towards zero, computed on the exact values. -/
def floatRem (a b : Float) : Float :=
  match Decimal.read a, Decimal.read b with
  | .finite x, .finite y =>
    if y.mantissa = 0 then 0.0 / 0.0
    else
      let e := min x.exponent y.exponent
      let m := x.mantissa * 2 ^ (x.exponent - e).toNat
      let n := y.mantissa * 2 ^ (y.exponent - e).toNat
      (⟨x.negative, m % n, e⟩ : Decimal.Dyadic).toFloat
  | .finite _, .infinite _ => a
  | _, _ => 0.0 / 0.0

/-- The remainder of the division towards the floor. -/
def floatMod (a b : Float) : Float :=
  let m := floatRem a b
  if (m > 0 && b < 0) || (m < 0 && b > 0) then m + b else m

def floatPow (a b : Float) : Float := if b == 2.0 then a * a else a.pow b

def shift (a b : Int64) : Int64 :=
  if b ≤ -64 ∨ 64 ≤ b then 0
  else if b < 0 then (a.toUInt64 >>> (0 - b).toUInt64).toInt64
  else (a.toUInt64 <<< b.toUInt64).toInt64

inductive Trouble where
  | divisionByZero
  | moduloByZero
  /-- An operand of a bitwise operation is not whole. -/
  | noInteger
  deriving DecidableEq, Repr

def intArith (op : BinaryOp) (a b : Int64) : Except Trouble Value :=
  match op with
  | .add => .ok (.int (a + b))
  | .sub => .ok (.int (a - b))
  | .mul => .ok (.int (a * b))
  | .idiv => if b = 0 then .error .divisionByZero else .ok (.int (intDiv a b))
  | .mod => if b = 0 then .error .moduloByZero else .ok (.int (intMod a b))
  | .div => .ok (.float (toFloat a / toFloat b))
  | .pow => .ok (.float (floatPow (toFloat a) (toFloat b)))
  | .band => .ok (.int (a &&& b))
  | .bor => .ok (.int (a ||| b))
  | .bxor => .ok (.int (a ^^^ b))
  | .shl => .ok (.int (shift a b))
  | .shr => .ok (.int (shift a (0 - b)))
  | _ => .ok .nil

def floatArith (op : BinaryOp) (a b : Float) : Value :=
  match op with
  | .add => .float (a + b)
  | .sub => .float (a - b)
  | .mul => .float (a * b)
  | .idiv => .float (a / b).floor
  | .mod => .float (floatMod a b)
  | .div => .float (a / b)
  | .pow => .float (floatPow a b)
  | _ => .nil

def float? : Value → Option Float
  | .int n => some (toFloat n)
  | .float x => some x
  | _ => none

def int? : Value → Option Int64
  | .int n => some n
  | .float x => exactInt? x
  | _ => none

end Number

def BinaryOp.isBitwise : BinaryOp → Bool
  | .band | .bor | .bxor | .shl | .shr => true
  | _ => false

namespace Number

/-- A shift by the smallest number, which has no opposite, moves everything out as well. -/
def shiftRight (a b : Int64) : Int64 := if b = Int64.minValue then 0 else shift a (0 - b)

def arith? (op : BinaryOp) (a b : Value) : Option (Except Trouble Value) :=
  match a, b with
  | .int m, .int n => some (if op == .shr then .ok (.int (shiftRight m n)) else intArith op m n)
  | a, b =>
    match float? a, float? b with
    | some x, some y =>
      if op.isBitwise then
        match int? a, int? b with
        | some m, some n => some (if op == .shr then .ok (.int (shiftRight m n)) else intArith op m n)
        | _, _ => some (.error .noInteger)
      else some (.ok (floatArith op x y))
    | _, _ => none

def intLtFloat (n : Int64) (x : Float) : Bool :=
  match Decimal.read x with
  | .notANumber => false
  | .infinite negative => !negative
  | .finite d =>
    let (num, den) := Decimal.unscale d.mantissa 1 (-d.exponent)
    n.toInt * (den : Int) < (if d.negative then -(num : Int) else num)

def floatLtInt (x : Float) (n : Int64) : Bool :=
  match Decimal.read x with
  | .notANumber => false
  | .infinite negative => negative
  | .finite d =>
    let (num, den) := Decimal.unscale d.mantissa 1 (-d.exponent)
    (if d.negative then -(num : Int) else num) < n.toInt * (den : Int)

def isNaN (x : Float) : Bool := !(x == x)

def lt? : Value → Value → Option Bool
  | .int a, .int b => some (a < b)
  | .float a, .float b => some (a < b)
  | .int a, .float b => some (intLtFloat a b)
  | .float a, .int b => some (floatLtInt a b)
  | _, _ => none

def le? : Value → Value → Option Bool
  | .int a, .int b => some (a ≤ b)
  | .float a, .float b => some (a ≤ b)
  | .int a, .float b => some (!isNaN b && !floatLtInt b a)
  | .float a, .int b => some (!isNaN a && !intLtFloat b a)
  | _, _ => none

/-- Doubles in guest text: fourteen digits, an exponent from `1e14` on and below `1e-4`, `.0` on whole numbers. -/
def textLayout : Decimal.Layout := ⟨fun e => -4 ≤ e && e < 14, ".0", 2⟩

/-- The text of a double. Which sign one has that is no number cannot be told here; it has that of an operation's result. -/
def floatText (x : Float) : String :=
  match Decimal.read x with
  | .notANumber => "-nan"
  | .infinite negative => if negative then "-inf" else "inf"
  | .finite d =>
    let sign := if d.negative then ['-'] else []
    if d.mantissa = 0 then String.ofList (sign ++ textLayout.zero)
    else
      let (num, den) := Decimal.unscale d.mantissa 1 (-d.exponent)
      String.ofList (sign ++ textLayout.magnitude (Decimal.stripZeros 14 (Decimal.significant num den 14)))

def text? : Value → Option Bytes
  | .int n => some (bytes (toString n.toInt))
  | .float x => some (bytes (floatText x))
  | _ => none

def isSpace (c : Char) : Bool := c == ' ' || ('\t' ≤ c && c ≤ '\r')

/-- A whole number: decimal digits within range, or hexadecimal digits that wrap around. -/
def intOfDigits? (negative : Bool) (cs : List Char) : Option Int64 :=
  let signed (n : Nat) : Int64 := if negative then 0 - Int64.ofNat n else Int64.ofNat n
  let hex (rest : List Char) : Option Int64 :=
    let (n, count, rest) := Decimal.digitRun 16 rest 0 0
    if 0 < count ∧ rest.isEmpty then some (signed (n % 2 ^ 64)) else none
  match cs with
  | '0' :: 'x' :: rest => hex rest
  | '0' :: 'X' :: rest => hex rest
  | cs =>
    let (n, count, rest) := Decimal.digitRun 10 cs 0 0
    if 0 < count ∧ rest.isEmpty ∧ n < 2 ^ 63 + (if negative then 1 else 0) then some (signed n) else none

/-- A double: a decimal numeral, or a hexadecimal one with a binary exponent. -/
def floatOfDigits? (negative : Bool) (cs : List Char) : Option Float :=
  let hex (rest : List Char) : Option Float := do
    let (digits, places, rest) ← Decimal.takeMantissa 16 rest
    let (exponent, rest) ← Decimal.takeExponent ['p', 'P'] rest
    if rest.isEmpty then some (Decimal.ofBinary negative digits (exponent - 4 * places)) else none
  match cs with
  | '0' :: 'x' :: rest => hex rest
  | '0' :: 'X' :: rest => hex rest
  | cs => Decimal.unsignedFloat? negative cs

def trimSpaces (cs : List Char) : List Char := ((cs.dropWhile isSpace).reverse.dropWhile isSpace).reverse

def ofChars? (cs : List Char) : Option Value :=
  let (negative, digits) := Decimal.takeSign (trimSpaces cs)
  match intOfDigits? negative digits with
  | some n => some (.int n)
  | none => (floatOfDigits? negative digits).map .float

def ofText? (s : Bytes) : Option Value := ofChars? s.chars

end Number

def Value.number? : Value → Option Value
  | .int n => some (.int n)
  | .float x => some (.float x)
  | .str s => Number.ofText? s
  | _ => none

def Value.text? : Value → Option Bytes
  | .str s => some s
  | v => Number.text? v

def Value.integer? (v : Value) : Option Int64 := v.number?.bind Number.int?

end ScriptHost.Lua
