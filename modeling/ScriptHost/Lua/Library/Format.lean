import ScriptHost.Lua.Library.Text

/-! # Formatted text

A directive has flags, a width, a precision and a letter for the kind of conversion. Numbers are converted on their exact
values. -/

namespace ScriptHost.Lua.Format

open Native

structure Directive where
  left : Bool := false
  plus : Bool := false
  space : Bool := false
  alternate : Bool := false
  zero : Bool := false
  width : Nat := 0
  precision : Option Nat := none

def Directive.setFlag (d : Directive) (c : Char) : Directive :=
  match c with
  | '-' => { d with left := true }
  | '+' => { d with plus := true }
  | ' ' => { d with space := true }
  | '#' => { d with alternate := true }
  | '0' => { d with zero := true }
  | _ => d

def takeTwoDigits (cs : List Char) : Nat × List Char :=
  let ds := (cs.take 2).takeWhile Char.isDigit
  (ds.foldl (fun n c => n * 10 + (c.toNat - 48)) 0, cs.drop ds.length)

def directive? (flags : String) (withPrecision : Bool) (cs : List Char) : Option Directive :=
  let fs := cs.takeWhile fun c => flags.toList.contains c
  let rest := cs.drop fs.length
  let d := fs.foldl Directive.setFlag {}
  if rest.head? == some '0' then none
  else
    let (width, rest) := takeTwoDigits rest
    let d := { d with width }
    match rest with
    | [] => some d
    | '.' :: rest =>
      if withPrecision then
        let (precision, rest) := takeTwoDigits rest
        if rest.isEmpty then some { d with precision := some precision } else none
      else none
    | _ => none

def Directive.fill (d : Directive) (zeros : Bool) (sign body : List Char) : List Char :=
  let missing := d.width - (sign.length + body.length)
  if d.left then sign ++ body ++ List.replicate missing ' '
  else if zeros then sign ++ List.replicate missing '0' ++ body
  else List.replicate missing ' ' ++ sign ++ body

def Directive.sign (d : Directive) (negative : Bool) : List Char :=
  if negative then ['-'] else if d.plus then ['+'] else if d.space then [' '] else []

def Directive.digits (d : Directive) (base n : Nat) : List Char :=
  let ds := if n = 0 ∧ d.precision = some 0 then [] else Nat.toDigits base n
  List.replicate (d.precision.getD 1 - ds.length) '0' ++ ds

def Directive.signed (d : Directive) (n : Int) : List Char :=
  d.fill (d.zero && d.precision.isNone) (d.sign (n < 0)) (d.digits 10 n.natAbs)

/-- A whole number without a sign; numbers below zero count on from the largest. -/
def Directive.unsigned (d : Directive) (letter : Char) (n : Nat) : List Char :=
  let base := match letter with
    | 'o' => 8
    | 'u' => 10
    | _ => 16
  let ds := d.digits base n
  let ds := if letter = 'o' ∧ d.alternate ∧ ds.head? ≠ some '0' then '0' :: ds else ds
  let mark : List Char := if base = 16 ∧ d.alternate ∧ n ≠ 0 then ['0', 'x'] else []
  let text := d.fill (d.zero && d.precision.isNone) mark ds
  if letter = 'X' then text.map Char.toUpper else text

def pointed (alternate : Bool) (whole fraction : List Char) : List Char :=
  if fraction.isEmpty then if alternate then whole ++ ['.'] else whole else whole ++ '.' :: fraction

def fixed (alternate : Bool) (places num den : Nat) : List Char :=
  let ds := Decimal.padded (places + 1) (Decimal.roundQuotient (num * 10 ^ places) den)
  pointed alternate (ds.take (ds.length - places)) (ds.drop (ds.length - places))

/-- The digits of a fraction with the exponent of the first of them; zero has the exponent zero. -/
def significant (num den count : Nat) : List Char × Int :=
  if num = 0 then (List.replicate count '0', 0)
  else
    let s := Decimal.significant num den count
    (Nat.toDigits 10 s.digits, s.exponent + count - 1)

def exponential (alternate : Bool) (ds : List Char) (e : Int) : List Char :=
  pointed alternate (ds.take 1) (ds.drop 1) ++ 'e' :: Decimal.exponentText 2 e

def dropZeros (ds : List Char) : List Char := (ds.reverse.dropWhile (· == '0')).reverse

/-- A fraction with a number of significant digits, in the shorter of the two forms. -/
def general (alternate : Bool) (precision num den : Nat) : List Char :=
  let precision := max precision 1
  let (ds, e) := significant num den precision
  if -4 ≤ e ∧ e < precision then
    let point := e + 1
    let whole := if point ≤ 0 then ['0'] else ds.take point.toNat
    let fraction := if point ≤ 0 then List.replicate (-point).toNat '0' ++ ds else ds.drop point.toNat
    pointed alternate whole (if alternate then fraction else dropZeros fraction)
  else
    let ds := if alternate then ds else ds.take 1 ++ dropZeros (ds.drop 1)
    exponential alternate ds e

def mantissaDigits (mantissa : Nat) : List Char :=
  let ds := Nat.toDigits 16 (mantissa % 2 ^ 52)
  List.replicate (13 - ds.length) '0' ++ ds

def hexadecimal (alternate : Bool) (precision : Option Nat) (d : Decimal.Dyadic) : List Char :=
  let exponent : Int := if d.mantissa = 0 then 0 else d.exponent + 52
  let (lead, places) : Nat × List Char :=
    match precision with
    | none => (d.mantissa / 2 ^ 52, dropZeros (mantissaDigits d.mantissa))
    | some p =>
      if 13 ≤ p then (d.mantissa / 2 ^ 52, mantissaDigits d.mantissa ++ List.replicate (p - 13) '0')
      else
        let kept := Decimal.roundQuotient d.mantissa (16 ^ (13 - p))
        let ds := Nat.toDigits 16 (kept % 16 ^ p)
        (kept / 16 ^ p, if p = 0 then [] else List.replicate (p - ds.length) '0' ++ ds)
  pointed alternate (Nat.toDigits 16 lead) places ++ 'p' :: Decimal.exponentText 1 exponent

def Directive.float (d : Directive) (letter : Char) (x : Float) : List Char :=
  let text :=
    match Decimal.read x with
    | .notANumber => d.fill false ['-'] "nan".toList
    | .infinite negative => d.fill false (d.sign negative) "inf".toList
    | .finite y =>
      let (num, den) := Decimal.unscale y.mantissa 1 (-y.exponent)
      let precision := d.precision.getD 6
      let sign := d.sign y.negative
      match letter.toLower with
      | 'f' => d.fill d.zero sign (fixed d.alternate precision num den)
      | 'e' =>
        let (ds, e) := significant num den (precision + 1)
        d.fill d.zero sign (exponential d.alternate ds e)
      | 'g' => d.fill d.zero sign (general d.alternate precision num den)
      | _ => d.fill d.zero (sign ++ ['0', 'x']) (hexadecimal d.alternate d.precision y)
  if letter.isUpper then text.map Char.toUpper else text

/-- A string that reads back as itself; `next` is the byte behind. -/
def quotedBytes : List UInt8 → List UInt8
  | [] => []
  | b :: rest =>
    let more := quotedBytes rest
    if b == 0x22 || b == 0x5c || b == 10 then 0x5c :: b :: more
    else if b < 32 || b == 127 then
      let wide := (rest.head?.map Lexer.isDigit) == some true
      let ds := if wide then Decimal.padded 3 b.toNat else Nat.toDigits 10 b.toNat
      0x5c :: ds.map (fun c => UInt8.ofNat c.toNat) ++ more
    else b :: more

def literal (args : List Value) (n : Nat) : Native Bytes := do
  match arg args n with
  | .str s => return ⟨#[0x22]⟩ ++ ⟨(quotedBytes s.toList).toArray⟩ ++ ⟨#[0x22]⟩
  | .int i => return bytes (if i = Int64.minValue then "0x8000000000000000" else toString i.toInt)
  | .float x =>
    match Decimal.read x with
    | .notANumber => return bytes "(0/0)"
    | .infinite negative => return bytes (if negative then "-1e9999" else "1e9999")
    | .finite _ => return Bytes.ofChars (({} : Directive).float 'a' x)
  | .nil => return bytes "nil"
  | .bool b => return bytes (if b then "true" else "false")
  | _ => badArgument n "value has no literal form"

def isModifier (c : Char) : Bool := "-+ #0123456789.".toList.contains c

def directiveLimit : Nat := 22

def convert (args : List Value) (n : Nat) (modifiers : List Char) (letter : Char) : Native Bytes := do
  let form := String.ofList ('%' :: modifiers ++ (if letter = '\x00' then [] else [letter]))
  let invalid {α : Type} : Native α := error s!"invalid conversion '{form}' to 'format'"
  let directive (flags : String) (withPrecision : Bool) : Native Directive :=
    match directive? flags withPrecision modifiers with
    | some d => if letter.isAlpha then pure d else invalid
    | none => invalid
  let text (cs : List Char) : Bytes := Bytes.ofChars cs
  match letter with
  | 'c' =>
    let c ← checkInt args n
    let d ← directive "-" false
    return text (d.fill false [] [Char.ofNat (c.toInt % 256).toNat])
  | 'd' | 'i' =>
    let i ← checkInt args n
    let d ← directive "-+ 0" true
    return text (d.signed i.toInt)
  | 'u' =>
    let i ← checkInt args n
    let d ← directive "-0" true
    return text (d.unsigned 'u' i.toUInt64.toNat)
  | 'o' | 'x' | 'X' =>
    let i ← checkInt args n
    let d ← directive "-#0" true
    return text (d.unsigned letter i.toUInt64.toNat)
  | 'a' | 'A' =>
    let d ← directive "-+ #0" true
    return text (d.float letter (← checkFloat args n))
  | 'f' | 'e' | 'E' | 'g' | 'G' =>
    let x ← checkFloat args n
    let d ← directive "-+ #0" true
    return text (d.float letter x)
  | 'p' =>
    let d ← directive "-" false
    let shown :=
      match arg args n with
      | .nil | .bool _ | .int _ | .float _ => "(null)"
      | v => Marshal.addressText v
    return text (d.fill false [] shown.toList)
  | 'q' =>
    if !modifiers.isEmpty then error "specifier '%q' cannot have modifiers"
    literal args n
  | 's' =>
    let s ← textOf (arg args n)
    if modifiers.isEmpty then return s
    if s.toList.contains 0 then badArgument n "string contains zeros"
    let d ← directive "-" true
    if d.precision.isNone && 100 ≤ s.size then return s
    let s := s.extract 0 (d.precision.getD s.size)
    return text (d.fill false [] (Bytes.chars s))
  | _ => invalid

/-- The text of a format string from a position on; `n` is the last argument that was used. -/
def formatFrom (args : List Value) : Nat → List Char → Nat → Bytes → Native Bytes
  | 0, _, _, acc => return acc
  | fuel + 1, cs, n, acc => do
    match cs with
    | [] => return acc
    | '%' :: '%' :: rest => formatFrom args fuel rest n (acc.push 0x25)
    | '%' :: rest =>
      let n := n + 1
      if !isGiven args n then badArgument n "no value"
      let modifiers := rest.takeWhile isModifier
      if directiveLimit ≤ modifiers.length + 1 then error "invalid format string to 'format'"
      let rest := rest.drop modifiers.length
      let t ← convert args n modifiers (rest.headD '\x00')
      formatFrom args fuel (rest.drop 1) n (acc ++ t)
    | c :: rest => formatFrom args fuel rest n (acc.push (UInt8.ofNat c.toNat))

def format (args : List Value) : Native (List Value) := do
  let cs := (← checkString args 1).chars
  Text.built (← formatFrom args (cs.length + 1) cs 1 (bytes ""))

end ScriptHost.Lua.Format
