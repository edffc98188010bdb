import ScriptHost.Decimal.Numeral

/-! # JSON text as read

Reading keeps the point at which a text stops being JSON as a leaf of the tree, because whoever walks the tree in the
order of the text may turn away before that point, for a reason of its own. A number keeps its digits and a string may
turn out not to be text at all: both matter only to a reader that wants them, not to one that skips them. -/

namespace ScriptHost.Json

inductive Fault where
  | malformed
  | mismatch
  | truncated
  deriving DecidableEq, Repr

/-- A number as written: the digits of the whole part, of the fraction if there is one, and of the exponent with its
sign if there is one. -/
structure NumberText where
  negative : Bool
  whole : List Nat
  fraction : Option (List Nat)
  exponent : Option (Bool × List Nat)
  deriving DecidableEq, Repr

/-- How a place that is no JSON looks to a reader that wants any value, to one that wants a name, and to one that only
skips the place. -/
structure Break where
  value : Fault
  name : Fault
  skip : Fault
  deriving DecidableEq, Repr

def Break.always (f : Fault) : Break := ⟨f, f, f⟩

/-- A text as read, up to its first break. A key or a string is an error if it escapes half of a surrogate pair. -/
inductive Tree where
  | null
  | bool (b : Bool)
  | number (n : NumberText)
  | string (s : Except Fault String)
  | array (items : List Tree) (stop : Option Fault)
  | object (members : List (Except Fault String × Tree)) (stop : Option Fault)
  | broken (b : Break)

def isBlank (c : Char) : Bool := c == ' ' || c == '\n' || c == '\t' || c == '\r'

def skipBlanks (cs : List Char) : List Char := cs.dropWhile isBlank

def takeDigits : List Char → List Nat × List Char
  | [] => ([], [])
  | c :: cs =>
    match Decimal.digitValue? 10 c with
    | some d => let (ds, rest) := takeDigits cs; (d :: ds, rest)
    | none => ([], c :: cs)

/-- A number that stops before it is complete: one who skips it takes the end of the text for a wrong character. -/
def brokenNumber (rest : List Char) : Tree :=
  .broken ⟨if rest.isEmpty then .truncated else .malformed, .malformed, .malformed⟩

def takeFraction : List Char → Option (List Nat) × List Char
  | '.' :: tail => let (ds, rest) := takeDigits tail; (some ds, rest)
  | cs => (none, cs)

def takePower : List Char → Option (Bool × List Nat) × List Char
  | [] => (none, [])
  | c :: tail =>
    if c = 'e' ∨ c = 'E' then
      let (minus, tail) := Decimal.takeSign tail
      let (ds, rest) := takeDigits tail
      (some (minus, ds), rest)
    else (none, c :: tail)

def readNumber (negative : Bool) (cs : List Char) : Tree × List Char :=
  let (whole, rest) := takeDigits cs
  if whole.isEmpty then (brokenNumber rest, rest)
  else if whole.head? = some 0 ∧ 1 < whole.length then (.broken (.always .malformed), rest)
  else
    let (fraction, rest) := takeFraction rest
    if fraction = some [] then (brokenNumber rest, rest)
    else
      let (power, rest) := takePower rest
      if power.any (·.2.isEmpty) then (brokenNumber rest, rest)
      else (.number ⟨negative, whole, fraction, power⟩, rest)

/-- The code unit that four hexadecimal digits spell. Too short a text is truncated. -/
def takeUnit (cs : List Char) : Except Fault (Nat × List Char) :=
  let (n, count, rest) := Decimal.digitRun 16 (cs.take 4) 0 0
  if count = 4 ∧ rest.isEmpty then .ok (n, cs.drop 4)
  else if (cs.take 4).foldl (fun size c => size + c.utf8Size) 0 < 4 then .error .truncated
  else .error .malformed

def simpleEscape? : Char → Option Char
  | '"' => some '"'
  | '\\' => some '\\'
  | '/' => some '/'
  | 'b' => some '\x08'
  | 'f' => some '\x0c'
  | 'n' => some '\n'
  | 'r' => some '\r'
  | 't' => some '\t'
  | _ => none

/-- Where a string reader stands with regard to surrogate pairs: nothing is owed, or the second half of a pair whose
first half was `high`. -/
abbrev Owed := Option Nat

/-- What the text so far is worth after one more code unit: a second half completes a pair that is owed, and a half
without its partner spoils the string. -/
def addUnit (sofar : Except Fault (List Char)) (owed : Owed) (u : Nat) : Except Fault (List Char) × Owed :=
  let isHigh := 0xd800 ≤ u && u ≤ 0xdbff
  let isLow := 0xdc00 ≤ u && u ≤ 0xdfff
  match sofar, owed with
  | .error f, _ => (.error f, none)
  | .ok cs, none =>
    if isLow then (.error .malformed, none)
    else if isHigh then (.ok cs, some u)
    else (.ok (Char.ofNat u :: cs), none)
  | .ok cs, some high =>
    if isLow then (.ok (Char.ofNat (0x10000 + (high - 0xd800) * 0x400 + (u - 0xdc00)) :: cs), none)
    else (.error .malformed, none)

/-- What the text so far is worth after a character that is no code unit. -/
def addChar (sofar : Except Fault (List Char)) (owed : Owed) (c : Char) : Except Fault (List Char) :=
  match sofar, owed with
  | .error f, _ => .error f
  | .ok cs, none => .ok (c :: cs)
  | .ok _, some _ => .error .malformed

/-- A string broken at a place that everybody sees, unless the reader of its text has turned away before. -/
def brokenString (sofar : Except Fault (List Char)) (f : Fault) : Break :=
  match sofar with
  | .ok _ => .always f
  | .error g => ⟨g, g, f⟩

/-- A string after its opening quote. `sofar` is what it spells so far, last character first. -/
def readString : Nat → List Char → Except Fault (List Char) → Owed →
    Except Break (Except Fault String × List Char)
  | 0, _, sofar, _ => .error (brokenString sofar .truncated)
  | fuel + 1, cs, sofar, owed =>
    match cs with
    | [] => .error (brokenString sofar .truncated)
    | '"' :: rest =>
      let text := if owed.isSome then .error .malformed else sofar
      .ok (text.map fun cs => String.ofList cs.reverse, rest)
    | '\\' :: [] => .error (brokenString sofar .truncated)
    | '\\' :: 'u' :: rest =>
      match takeUnit rest with
      | .ok (u, rest) => let (sofar, owed) := addUnit sofar owed u; readString fuel rest sofar owed
      | .error f => .error (brokenString sofar f)
    | '\\' :: c :: rest =>
      match simpleEscape? c with
      | some d => readString fuel rest (addChar sofar owed d) none
      | none => .error (brokenString (addChar sofar owed c) .malformed)
    | c :: rest =>
      if c.toNat < 0x20 then .error (brokenString (addChar sofar owed c) .malformed)
      else readString fuel rest (addChar sofar owed c) none

def readWord (t : Tree) : List Char → List Char → Tree × List Char
  | [], rest => (t, rest)
  | _ :: _, [] => (.broken ⟨.truncated, .malformed, .truncated⟩, [])
  | w :: ws, c :: cs => if w = c then readWord t ws cs else (.broken ⟨.malformed, .malformed, .malformed⟩, cs)

mutual

def readValue : Nat → List Char → Tree × List Char
  | 0, cs => (.broken (.always .truncated), cs)
  | fuel + 1, cs =>
    match skipBlanks cs with
    | [] => (.broken (.always .truncated), [])
    | 'n' :: rest => readWord .null "ull".toList rest
    | 't' :: rest => readWord (.bool true) "rue".toList rest
    | 'f' :: rest => readWord (.bool false) "alse".toList rest
    | '"' :: rest =>
      match readString (rest.length + 1) rest (.ok []) none with
      | .ok (s, rest) => (.string s, rest)
      | .error b => (.broken b, [])
    | '-' :: rest => readNumber true rest
    | '[' :: rest =>
      let (items, stop, rest) := readItems fuel true rest
      (.array items stop, rest)
    | '\x7b' :: rest =>
      let (members, stop, rest) := readMembers fuel true rest
      (.object members stop, rest)
    | c :: rest =>
      if (Decimal.digitValue? 10 c).isSome then readNumber false (c :: rest) else (.broken (.always .malformed), rest)

/-- The items of an array from a place where one may begin, whether it ends well, and what follows it. A comma announces
an item, so what follows it counts as one, even if it is a break. -/
def readItems : Nat → Bool → List Char → List Tree × Option Fault × List Char
  | 0, _, cs => ([], some .truncated, cs)
  | fuel + 1, first, cs =>
    match skipBlanks cs with
    | [] => ([], some .truncated, [])
    | ']' :: rest => ([], none, rest)
    | ',' :: rest =>
      if first then ([.broken (.always .malformed)], some .malformed, rest) else
      let (item, rest) := readValue fuel rest
      let (items, stop, rest) := readItems fuel false rest
      (item :: items, stop, rest)
    | c :: rest =>
      if first then
        let (item, rest) := readValue fuel (c :: rest)
        let (items, stop, rest) := readItems fuel false rest
        (item :: items, stop, rest)
      else ([], some .malformed, rest)

/-- The members of an object from a place where one may begin, whether it ends well, and what follows it. -/
def readMembers : Nat → Bool → List Char → List (Except Fault String × Tree) × Option Fault × List Char
  | 0, _, cs => ([], some .truncated, cs)
  | fuel + 1, first, cs =>
    match skipBlanks cs with
    | [] => ([], some .truncated, [])
    | '\x7d' :: rest => ([], none, rest)
    | c :: rest =>
      if c = ',' ∧ first then ([], some .malformed, rest)
      else if c ≠ ',' ∧ !first then ([], some .malformed, rest)
      else
        match skipBlanks (if c = ',' then rest else c :: rest) with
        | [] => ([], some .truncated, [])
        | '"' :: rest =>
          match readString (rest.length + 1) rest (.ok []) none with
          | .error b => ([(.error b.value, .broken b)], some b.skip, [])
          | .ok (key, rest) =>
            match skipBlanks rest with
            | [] => ([(key, .broken (.always .truncated))], some .truncated, [])
            | ':' :: rest =>
              let (value, rest) := readValue fuel rest
              let (members, stop, rest) := readMembers fuel false rest
              ((key, value) :: members, stop, rest)
            | _ :: rest => ([(key, .broken (.always .malformed))], some .malformed, rest)
        | _ :: rest => ([], some .malformed, rest)

end

structure Document where
  root : Tree
  trailing : Bool

/-- Reads a whole text. The fuel is enough, because every call that spends some consumes a character or ends. -/
def Document.ofText (s : String) : Document :=
  let cs := s.toList
  let (root, rest) := readValue (2 * cs.length + 2) cs
  ⟨root, !(skipBlanks rest).isEmpty⟩

end ScriptHost.Json
