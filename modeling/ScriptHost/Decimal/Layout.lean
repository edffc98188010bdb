import ScriptHost.Decimal.Digits

/-! # Written forms of decimal numbers

A number is written positionally or with an exponent. A `Layout` says which, and how the two look; each format that
writes numbers is one value of it. -/

namespace ScriptHost.Decimal

structure Layout where
  /-- Whether a number whose leading digit stands for `10 ^ e` is written positionally. -/
  positional : Int → Bool
  /-- What follows a whole number written positionally. -/
  wholeMark : String
  /-- The least number of digits of an exponent. -/
  exponentDigits : Nat

def padded (width n : Nat) : List Char :=
  let ds := Nat.toDigits 10 n
  List.replicate (width - ds.length) '0' ++ ds

def exponentText (width : Nat) (e : Int) : List Char :=
  (if e < 0 then '-' else '+') :: padded width e.natAbs

/-- Digits with the point after the first `point` of them, zeros filling the gap on either side. -/
def positionalText (wholeMark : String) (ds : List Char) (point : Int) : List Char :=
  if point ≤ 0 then ['0', '.'] ++ List.replicate (-point).toNat '0' ++ ds
  else if ds.length ≤ point.toNat then
    ds ++ List.replicate (point.toNat - ds.length) '0' ++ wholeMark.toList
  else ds.take point.toNat ++ '.' :: ds.drop point.toNat

def exponentialText (width : Nat) (ds : List Char) (e : Int) : List Char :=
  (match ds with
    | [] => []
    | [d] => [d]
    | d :: rest => d :: '.' :: rest) ++ 'e' :: exponentText width e

def Layout.magnitude (l : Layout) (s : Scaled) : List Char :=
  let ds := Nat.toDigits 10 s.digits
  let e := s.exponent + ds.length - 1
  if l.positional e then positionalText l.wholeMark ds (e + 1) else exponentialText l.exponentDigits ds e

def Layout.zero (l : Layout) : List Char := '0' :: l.wholeMark.toList

/-- A finite number with the fewest digits that read back, or zero, with its sign. -/
def Layout.shortestText (l : Layout) (d : Dyadic) : String :=
  String.ofList ((if d.negative then ['-'] else []) ++
    if d.mantissa = 0 then l.zero else l.magnitude (shortest d.mantissa d.exponent))

def plain : Layout := ⟨fun _ => true, "", 1⟩

/-- A double in the plain form; what is no number and the infinities go by name. -/
def plainText (x : Float) : String :=
  match read x with
  | .notANumber => "NaN"
  | .infinite negative => if negative then "-inf" else "inf"
  | .finite d => plain.shortestText d

end ScriptHost.Decimal
