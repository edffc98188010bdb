import ScriptHost.Lua.Library.Text

/-! # Packed bytes

A layout is a string of letters, each of which says how one value is laid out in bytes. Sizes, byte order and alignment
can be changed on the way. -/

namespace ScriptHost.Lua.Pack

open Native

structure Mode where
  little : Bool := true
  maxAlign : Nat := 1

inductive Item where
  | int (size : Nat)
  | uint (size : Nat)
  | float (size : Nat)
  | char (size : Nat)
  | string (size : Nat)
  | zeroString
  | padding
  | align (size : Nat)
  | none

def takeNumber (cs : List Char) : Option (Nat × List Char) :=
  let ds := cs.takeWhile Char.isDigit
  if ds.isEmpty then Option.none
  else some (ds.foldl (fun n c => n * 10 + (c.toNat - 48)) 0, cs.drop ds.length)

def maxIntSize : Nat := 16

def takeSize (cs : List Char) (default : Nat) : Except String (Nat × List Char) :=
  match takeNumber cs with
  | Option.none => .ok (default, cs)
  | some (n, rest) =>
    if n = 0 ∨ maxIntSize < n then .error s!"integral size ({n}) out of limits [1,16]" else .ok (n, rest)

/-- The next item, its natural alignment, and the mode behind it. -/
def itemOf (mode : Mode) (c : Char) (rest : List Char) : Except String (Item × Mode × List Char) :=
  let plain (i : Item) : Except String (Item × Mode × List Char) := .ok (i, mode, rest)
  let sized (f : Nat → Item) (default : Nat) : Except String (Item × Mode × List Char) := do
    let (n, rest) ← takeSize rest default
    .ok (f n, mode, rest)
  match c with
  | 'b' => plain (.int 1)
  | 'B' => plain (.uint 1)
  | 'h' => plain (.int 2)
  | 'H' => plain (.uint 2)
  | 'i' => sized .int 4
  | 'I' => sized .uint 4
  | 'l' => plain (.int 8)
  | 'L' => plain (.uint 8)
  | 'j' => plain (.int 8)
  | 'J' => plain (.uint 8)
  | 'T' => plain (.uint 8)
  | 'f' => plain (.float 4)
  | 'n' | 'd' => plain (.float 8)
  | 's' => sized .string 8
  | 'c' =>
    match takeNumber rest with
    | Option.none => .error "missing size for format option 'c'"
    | some (n, rest) => .ok (.char n, mode, rest)
  | 'z' => plain .zeroString
  | 'x' => plain .padding
  | ' ' => plain .none
  | '<' | '=' => .ok (.none, { mode with little := true }, rest)
  | '>' => .ok (.none, { mode with little := false }, rest)
  | '!' => do
    let (n, rest) ← takeSize rest 8
    .ok (.none, { mode with maxAlign := n }, rest)
  | c => .error s!"invalid format option '{c}'"

def Item.size : Item → Nat
  | int n | uint n | float n | char n | string n => n
  | padding => 1
  | _ => 0

def Item.alignment : Item → Nat
  | int n | uint n | float n | string n | align n => n
  | _ => 0

def fillBefore (mode : Mode) (i : Item) (offset : Nat) : Except String Nat :=
  let a := i.alignment
  if a ≤ 1 then .ok 0
  else
    let a := min a mode.maxAlign
    if a &&& (a - 1) ≠ 0 then .error "format asks for alignment not power of 2"
    else .ok ((a - offset % a) % a)

/-- The next item of a layout with the bytes to fill before it; `X` aligns to the item behind it. -/
def nextItem (mode : Mode) (offset : Nat) (cs : List Char) : Except String (Option (Item × Nat × Mode × List Char)) :=
  match cs with
  | [] => .ok Option.none
  | 'X' :: rest =>
    match rest with
    | [] => .error "invalid next option for option 'X'"
    | c :: rest => do
      let (i, mode, rest) ← itemOf mode c rest
      let bad : Bool :=
        match i with
        | .char _ => true
        | i => i.alignment = 0
      if bad then .error "invalid next option for option 'X'"
      else
        let fill ← fillBefore mode (.align i.size) offset
        .ok (some (.none, fill, mode, rest))
  | c :: rest => do
    let (i, mode, rest) ← itemOf mode c rest
    let fill ← fillBefore mode i offset
    .ok (some (i, fill, mode, rest))

def bigEndian : Nat → Nat → List UInt8
  | 0, _ => []
  | size + 1, n => UInt8.ofNat (n / 256 ^ size % 256) :: bigEndian size n

def order (mode : Mode) (bs : List UInt8) : List UInt8 := if mode.little then bs.reverse else bs

def ofBigEndian (bs : List UInt8) : Nat := bs.foldl (fun n b => n * 256 + b.toNat) 0

/-- The bits of a double that is rounded to thirty-two bits. -/
def singleBits (x : Float) : Nat := x.toFloat32.toBits.toNat

def layoutError {α : Type} (message : String) : Native α := error message

def packFrom (args : List Value) : Nat → Mode → List Char → Nat → List UInt8 → Native (List UInt8)
  | 0, _, _, _, acc => return acc
  | fuel + 1, mode, cs, n, acc => do
    match nextItem mode acc.length cs with
    | .error message => if message.startsWith "format asks" || message.startsWith "invalid next"
        then badArgument 1 message else layoutError message
    | .ok Option.none => return acc
    | .ok (some (i, fill, mode, rest)) =>
      let acc := List.replicate fill 0 ++ acc
      let go (bs : List UInt8) (used : Nat) : Native (List UInt8) :=
        packFrom args fuel mode rest (n + used) (bs.reverse ++ acc)
      match i with
      | .int size =>
        let v ← checkInt args n
        if size < 8 && !(-(2 ^ (8 * size - 1) : Int) ≤ v.toInt && v.toInt < 2 ^ (8 * size - 1)) then
          badArgument n "integer overflow"
        go (order mode (bigEndian size ((v.toInt % (256 ^ size : Nat)).toNat))) 1
      | .uint size =>
        let v ← checkInt args n
        if size < 8 && 2 ^ (8 * size) ≤ v.toUInt64.toNat then badArgument n "unsigned overflow"
        go (order mode (bigEndian size v.toUInt64.toNat)) 1
      | .float size =>
        let x ← checkFloat args n
        go (order mode (bigEndian size (if size = 4 then singleBits x else x.toBits.toNat))) 1
      | .char size =>
        let s ← checkString args n
        if size < s.size then badArgument n "string longer than given size"
        go (s.toList ++ List.replicate (size - s.size) 0) 1
      | .string size =>
        let s ← checkString args n
        if size < 8 && 2 ^ (8 * size) ≤ s.size then badArgument n "string length does not fit in given size"
        go (order mode (bigEndian size s.size) ++ s.toList) 1
      | .zeroString =>
        let s ← checkString args n
        if s.toList.contains 0 then badArgument n "string contains zeros"
        go (s.toList ++ [0]) 1
      | .padding => go [0] 0
      | .align _ | .none => go [] 0

def pack (args : List Value) : Native (List Value) := do
  let cs := (← checkString args 1).chars
  return Text.value ⟨(← packFrom args (cs.length + 1) {} cs 2 []).reverse.toArray⟩

def sizeFrom : Nat → Mode → List Char → Nat → Native Nat
  | 0, _, _, total => return total
  | fuel + 1, mode, cs, total => do
    match nextItem mode total cs with
    | .error message => layoutError message
    | .ok Option.none => return total
    | .ok (some (i, fill, mode, rest)) =>
      match i with
      | .string _ | .zeroString => badArgument 1 "variable-length format"
      | i =>
        let total := total + fill + i.size
        if 2 ^ 31 ≤ total then badArgument 1 "format result too large"
        sizeFrom fuel mode rest total

def packsize (args : List Value) : Native (List Value) := do
  let cs := (← checkString args 1).chars
  return [Text.int (← sizeFrom (cs.length + 1) {} cs 0)]

/-- A whole number from its bytes in big-endian order; none if it does not fit. -/
def readInt? (signed : Bool) (bs : List UInt8) : Option Int64 :=
  let n := ofBigEndian bs
  let size := bs.length
  if size ≤ 8 then
    let limit := 256 ^ size
    if signed ∧ limit ≤ 2 * n then some (Int64.ofInt ((n : Int) - limit)) else some (UInt64.ofNat n).toInt64
  else
    let extra := n / 2 ^ 64
    let full := 256 ^ (size - 8) - 1
    let low := (UInt64.ofNat (n % 2 ^ 64)).toInt64
    if extra = 0 ∨ (signed ∧ extra = full ∧ low < 0) then some low else Option.none

/-- The values of a layout in bytes from a position on, and the position behind them. -/
def unpackFrom (data : Bytes) : Nat → Mode → List Char → Nat → List Value → Native (List Value)
  | 0, _, _, position, acc => return (Text.int (position + 1) :: acc).reverse
  | fuel + 1, mode, cs, position, acc => do
    match nextItem mode position cs with
    | .error message => layoutError message
    | .ok Option.none => return (Text.int (position + 1) :: acc).reverse
    | .ok (some (i, fill, mode, rest)) =>
      if data.size < position + fill + i.size then badArgument 2 "data string too short"
      let position := position + fill
      let part (size : Nat) : List UInt8 := order mode (data.extract position (position + size)).toList
      let go (vs : List Value) (used : Nat) : Native (List Value) :=
        unpackFrom data fuel mode rest (position + used) (vs ++ acc)
      let whole (signed : Bool) (size : Nat) : Native (List Value) :=
        match readInt? signed (part size) with
        | some v => go [.int v] size
        | Option.none => error s!"{size}-byte integer does not fit into Lua Integer"
      match i with
      | .int size => whole true size
      | .uint size => whole false size
      | .float size =>
        let n := ofBigEndian (part size)
        let x := if size = 4 then (Float32.ofBits (UInt32.ofNat n)).toFloat else Float.ofBits (UInt64.ofNat n)
        go [.float x] size
      | .char size => go [.str (data.extract position (position + size))] size
      | .string size =>
        let length := ofBigEndian (part size)
        if data.size < position + size + length then badArgument 2 "data string too short"
        go [.str (data.extract (position + size) (position + size + length))] (size + length)
      | .zeroString =>
        match (data.extract position data.size).toList.findIdx? (· == 0) with
        | some length => go [.str (data.extract position (position + length))] (length + 1)
        | Option.none => badArgument 2 "unfinished string for format 'z'"
      | .padding => go [] 1
      | .align _ | .none => go [] 0

def unpack (args : List Value) : Native (List Value) := do
  let cs := (← checkString args 1).chars
  let data ← checkString args 2
  let start := Text.startPosition (← optInt args 3 1) data.size - 1
  if data.size < start then badArgument 3 "initial position out of string"
  unpackFrom data (cs.length + 1) {} cs start []

end ScriptHost.Lua.Pack
