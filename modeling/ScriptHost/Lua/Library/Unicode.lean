import ScriptHost.Lua.Library.Text

/-! # The functions on encoded characters

Strings are looked at as sequences of code points of up to six bytes; the strict form takes only those that a character
can have. -/

namespace ScriptHost.Lua.Unicode

open Native

def maxCode : Nat := 0x7fffffff

def isContinuation (s : Bytes) (i : Nat) : Bool := (s[i]?).any fun b => b &&& 0xc0 == 0x80

def continuations (b : UInt8) : Nat :=
  if b < 0xc0 then 0 else if b < 0xe0 then 1 else if b < 0xf0 then 2 else if b < 0xf8 then 3 else if b < 0xfc then 4
  else if b < 0xfe then 5 else 6

def leastCode : Nat → Nat
  | 1 => 0x80
  | 2 => 0x800
  | 3 => 0x10000
  | 4 => 0x200000
  | _ => 0x4000000

def continueCode (s : Bytes) : Nat → Nat → Nat → Option Nat
  | 0, _, code => some code
  | count + 1, i, code =>
    match s[i]? with
    | some b => if b &&& 0xc0 == 0x80 then continueCode s count (i + 1) (code * 64 + b.toNat % 64) else none
    | none => none

def decode? (strict : Bool) (s : Bytes) (i : Nat) : Option (Nat × Nat) :=
  match s[i]? with
  | none => none
  | some b =>
    if b < 0x80 then some (b.toNat, i + 1)
    else
      let count := continuations b
      if count = 0 ∨ 5 < count then none
      else
        match continueCode s count (i + 1) (b.toNat % 2 ^ (6 - count)) with
        | none => none
        | some code =>
          let legal := !strict || (code ≤ 0x10ffff && !(0xd800 ≤ code && code ≤ 0xdfff))
          if leastCode count ≤ code ∧ legal then some (code, i + count + 1) else none

def position (i : Int64) (size : Nat) : Int :=
  let n := i.toInt
  if 0 ≤ n then n else if n < -(size : Int) then 0 else (size : Int) + n + 1

def charFrom (args : List Value) : Nat → Nat → Bytes → Native Bytes
  | 0, _, acc => return acc
  | count + 1, n, acc => do
    let c ← checkInt args n
    if maxCode < c.toUInt64.toNat then badArgument n "value out of range"
    charFrom args count (n + 1) (acc ++ ⟨(Lexer.encodeUtf8 c.toUInt64.toNat).toArray⟩)

def char (args : List Value) : Native (List Value) := do
  return Text.value (← charFrom args args.length 1 (bytes ""))

def invalidCode {α : Type} : Native α := error "invalid UTF-8 code"

def codesBetween (strict : Bool) (s : Bytes) (last : Nat) : Nat → Nat → List Value → Native (List Value)
  | 0, _, acc => return acc.reverse
  | fuel + 1, i, acc => do
    if last ≤ i then return acc.reverse
    match decode? strict s i with
    | some (code, next) => codesBetween strict s last fuel next (Text.int code :: acc)
    | none => invalidCode

def codepoint (args : List Value) : Native (List Value) := do
  let s ← checkString args 1
  let i ← optInt args 2 1
  let first := position i s.size
  let last := position (← optInt args 3 (Int64.ofInt first)) s.size
  if first < 1 then badArgument 2 "out of bounds"
  if (s.size : Int) < last then badArgument 3 "out of bounds"
  if last < first then return []
  if Text.stackRoom ≤ (last - first).toNat + 1 then error "string slice too long"
  codesBetween (!(arg args 4).truthy) s last.toNat (s.size + 1) (first - 1).toNat []

/-- The number of characters between two offsets, or the offset of what is none. -/
def countBetween (strict : Bool) (s : Bytes) (last : Int) : Nat → Nat → Nat → Except Nat Nat
  | 0, _, n => .ok n
  | fuel + 1, i, n =>
    if last < i then .ok n
    else
      match decode? strict s i with
      | some (_, next) => countBetween strict s last fuel next (n + 1)
      | none => .error i

def len (args : List Value) : Native (List Value) := do
  let s ← checkString args 1
  let first := position (← optInt args 2 1) s.size
  let last := position (← optInt args 3 (-1)) s.size
  if !(1 ≤ first && first - 1 ≤ s.size) then badArgument 2 "initial position out of bounds"
  if !(last - 1 < s.size) then badArgument 3 "final position out of bounds"
  match countBetween (!(arg args 4).truthy) s (last - 1) (s.size + 1) (first - 1).toNat 0 with
  | .ok n => return [Text.int n]
  | .error i => return [.nil, Text.int (i + 1)]

def startOf (s : Bytes) : Nat → Nat
  | 0 => 0
  | i + 1 => if isContinuation s (i + 1) then startOf s i else i + 1

def skipContinuation (s : Bytes) : Nat → Nat → Nat
  | 0, i => i
  | fuel + 1, i => if isContinuation s i then skipContinuation s fuel (i + 1) else i

def moveBack (s : Bytes) : Nat → Nat → Option Nat
  | 0, i => some i
  | _ + 1, 0 => none
  | n + 1, i + 1 => moveBack s n (startOf s i)

def moveOn (s : Bytes) : Nat → Nat → Option Nat
  | 0, i => some i
  | n + 1, i => if i < s.size then moveOn s n (skipContinuation s s.size (i + 1)) else none

def offset (args : List Value) : Native (List Value) := do
  let s ← checkString args 1
  let n := (← checkInt args 2).toInt
  let default := Int64.ofInt (if 0 < n then 1 else s.size + 1)
  let i := position (← optInt args 3 default) s.size
  if !(1 ≤ i && i - 1 ≤ s.size) then badArgument 3 "position out of bounds"
  let i := (i - 1).toNat
  if n = 0 then return [Text.int (startOf s i + 1)]
  if isContinuation s i then error "initial position is a continuation byte"
  match if n < 0 then moveBack s n.natAbs i else moveOn s (n.toNat - 1) i with
  | some i => return [Text.int (i + 1)]
  | none => return [.nil]

def codes (args : List Value) : Native (List Value) := do
  let s ← checkString args 1
  if isContinuation s 0 then badArgument 1 "invalid UTF-8 code"
  let step := if (arg args 2).truthy then Utf8Fn.codesStepLax else Utf8Fn.codesStep
  return [.builtin (.utf8 step), arg args 1, .int 0]

/-- A step of the iteration over characters, from the position of the last one. -/
def codesStep (strict : Bool) (args : List Value) : Native (List Value) := do
  let s ← checkString args 1
  let i := (((arg args 2).integer?).getD 0).toUInt64.toNat
  let i := if i < s.size then skipContinuation s s.size i else i
  if s.size ≤ i then return []
  match decode? strict s i with
  | some (code, next) =>
    if isContinuation s next then invalidCode
    return [Text.int (i + 1), Text.int code]
  | none => invalidCode

def charPattern : Bytes :=
  ⟨#[0x5b, 0x00, 0x2d, 0x7f, 0xc2, 0x2d, 0xfd, 0x5d, 0x5b, 0x80, 0x2d, 0xbf, 0x5d, 0x2a]⟩

end ScriptHost.Lua.Unicode

namespace ScriptHost.Lua

def Utf8Fn.run (f : Utf8Fn) (args : List Value) : Native (List Value) :=
  match f with
  | char => Unicode.char args
  | codepoint => Unicode.codepoint args
  | codes => Unicode.codes args
  | codesStep => Unicode.codesStep true args
  | codesStepLax => Unicode.codesStep false args
  | len => Unicode.len args
  | offset => Unicode.offset args

end ScriptHost.Lua
