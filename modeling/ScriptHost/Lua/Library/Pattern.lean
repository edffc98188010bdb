import ScriptHost.Lua.Native

/-! # Patterns

Matching of a pattern against a string from one position, by backtracking. Positions are offsets into the two strings.
How deep a match may recurse is limited; every recursion moves on in the pattern, which is why it ends. -/

namespace ScriptHost.Lua.Pattern

inductive Extent where
  | closed (length : Nat)
  | unfinished
  | position
  deriving DecidableEq, Repr

structure Piece where
  start : Nat
  extent : Extent
  deriving DecidableEq, Repr

abbrev Failure := String

structure Problem where
  subject : Bytes
  pattern : Bytes

abbrev Match := Option (Nat × List Piece)

def maxCaptures : Nat := 32

/-- How deep a match may recurse below its start. -/
def recursionLimit : Nat := 199

namespace Problem

def at? (p : Problem) (i : Nat) : Option Char := (p.pattern[i]?).map fun b => Char.ofNat b.toNat

def byteAt? (p : Problem) (i : Nat) : Option UInt8 := p.subject[i]?

def isAlpha (c : Char) : Bool := c.isAlpha

def isPunct (c : Char) : Bool := '!' ≤ c && c ≤ '~' && !c.isAlphanum

/-- Whether a byte belongs to the class of a letter; a capital letter stands for the opposite. -/
def inClass (b : UInt8) (letter : Char) : Bool :=
  let c := Char.ofNat b.toNat
  let member : Option Bool :=
    match letter.toLower with
    | 'a' => some c.isAlpha
    | 'c' => some (c < ' ' || c == '\x7f')
    | 'd' => some c.isDigit
    | 'g' => some ('!' ≤ c && c ≤ '~')
    | 'l' => some c.isLower
    | 'p' => some (isPunct c)
    | 's' => some (Number.isSpace c)
    | 'u' => some c.isUpper
    | 'w' => some c.isAlphanum
    | 'x' => some (Decimal.digitValue? 16 c).isSome
    | 'z' => some (b == 0)
    | _ => none
  match member with
  | some m => if letter.isUpper then !m else m
  | none => letter == c

def setEnd (p : Problem) : Nat → Nat → Except Failure Nat
  | 0, _ => .error "malformed pattern (missing ']')"
  | fuel + 1, i =>
    match p.at? i with
    | none => .error "malformed pattern (missing ']')"
    | some c =>
      let next := if c == '%' then i + 2 else i + 1
      if p.at? next == some ']' then .ok (next + 1) else setEnd p fuel next

def classEnd (p : Problem) (i : Nat) : Except Failure Nat :=
  match p.at? i with
  | some '%' =>
    if (p.at? (i + 1)).isNone then .error "malformed pattern (ends with '%')" else .ok (i + 2)
  | some '[' =>
    let start := if p.at? (i + 1) == some '^' then i + 2 else i + 1
    setEnd p (p.pattern.size + 1) start
  | _ => .ok (i + 1)

def inMembers (p : Problem) (b : UInt8) (last : Nat) : Nat → Nat → Bool
  | 0, _ => false
  | fuel + 1, i =>
    if last ≤ i then false
    else
      match p.at? i with
      | none => false
      | some '%' => (p.at? (i + 1)).any (inClass b) || inMembers p b last fuel (i + 2)
      | some c =>
        if p.at? (i + 1) == some '-' && i + 2 < last then
          let high := ((p.at? (i + 2)).map Char.toNat).getD 0
          (c.toNat ≤ b.toNat && b.toNat ≤ high) || inMembers p b last fuel (i + 3)
        else c.toNat == b.toNat || inMembers p b last fuel (i + 1)

def inSet (p : Problem) (b : UInt8) (first last : Nat) : Bool :=
  if p.at? (first + 1) == some '^' then !inMembers p b last (p.pattern.size + 1) (first + 2)
  else inMembers p b last (p.pattern.size + 1) (first + 1)

def matchesOne (p : Problem) (s i classEnd : Nat) : Bool :=
  match p.byteAt? s with
  | none => false
  | some b =>
    match p.at? i with
    | some '.' => true
    | some '%' => (p.at? (i + 1)).any (inClass b)
    | some '[' => inSet p b i (classEnd - 1)
    | some c => c.toNat == b.toNat
    | none => false

def runLength (p : Problem) (i classEnd : Nat) : Nat → Nat → Nat
  | 0, _ => 0
  | fuel + 1, s => if p.matchesOne s i classEnd then runLength p i classEnd fuel (s + 1) + 1 else 0

def balanceEnd (p : Problem) (opening closing : UInt8) : Nat → Nat → Nat → Option Nat
  | 0, _, _ => none
  | fuel + 1, s, open_ =>
    match p.byteAt? s with
    | none => none
    | some b =>
      if b == closing then
        if open_ = 1 then some (s + 1) else balanceEnd p opening closing fuel (s + 1) (open_ - 1)
      else if b == opening then balanceEnd p opening closing fuel (s + 1) (open_ + 1)
      else balanceEnd p opening closing fuel (s + 1) open_

/-- The end of a balanced run that starts at a position, for the delimiters behind `%b`. -/
def balance (p : Problem) (s i : Nat) : Except Failure (Option Nat) :=
  match p.pattern[i]?, p.pattern[i + 1]? with
  | some opening, some closing =>
    if p.byteAt? s == some opening then .ok (p.balanceEnd opening closing (p.subject.size + 1) (s + 1) 1)
    else .ok none
  | _, _ => .error "malformed pattern (missing arguments to '%b')"

def openCapture? (captures : List Piece) : Option Nat :=
  (captures.reverse.findIdx? fun c => c.extent == .unfinished).map fun i => captures.length - 1 - i

def backReference (p : Problem) (s : Nat) (c : Char) (captures : List Piece) : Except Failure (Option Nat) :=
  let invalid : Except Failure (Option Nat) := .error s!"invalid capture index %{c.toNat - 48}"
  if c.toNat < 49 then .error s!"invalid capture index %{(c.toNat : Int) - 48}"
  else
    match captures[c.toNat - 49]? with
    | some ⟨start, .closed length⟩ =>
      if length ≤ p.subject.size - s && p.subject.extract start (start + length) == p.subject.extract s (s + length) then
        .ok (some (s + length))
      else .ok none
    | some ⟨_, .position⟩ => .ok none
    | _ => invalid

/-- Tries a continuation with ever fewer repetitions, from the most down to none. -/
def tryLongest (rest : Nat → Except Failure Match) (s : Nat) : Nat → Except Failure Match
  | 0 => rest s
  | count + 1 => do
    match ← rest (s + count + 1) with
    | some m => .ok (some m)
    | none => tryLongest rest s count

/-- Tries a continuation with ever more repetitions, at most `fuel` of them. -/
def tryShortest (rest : Nat → Except Failure Match) (one : Nat → Bool) : Nat → Nat → Except Failure Match
  | 0, s => rest s
  | fuel + 1, s => do
    match ← rest s with
    | some m => .ok (some m)
    | none => if one s then tryShortest rest one fuel (s + 1) else .ok none

/-- Matches the rest of the pattern, from position `i`, against the subject from position `s`. `fuel` bounds what is left
of the pattern, `depth` the recursion that is left. -/
def matchFrom (p : Problem) : Nat → Nat → Nat → Nat → List Piece → Except Failure Match
  | 0, _, s, _, captures => .ok (some (s, captures))
  | fuel + 1, depth, s, i, captures =>
    let deeper (s i : Nat) (captures : List Piece) : Except Failure Match :=
      match depth with
      | 0 => .error "pattern too complex"
      | depth + 1 => matchFrom p fuel depth s i captures
    let single : Except Failure Match := do
      let e ← p.classEnd i
      let one := p.matchesOne s i e
      let rest (s : Nat) : Except Failure Match := deeper s (e + 1) captures
      let skipped (_ : Unit) := matchFrom p fuel depth s (e + 1) captures
      match p.at? e, one with
      | some '?', true => do
        match ← rest (s + 1) with
        | some m => .ok (some m)
        | none => skipped ()
      | some '+', true => tryLongest rest (s + 1) (p.runLength i e (p.subject.size + 1) (s + 1))
      | some '*', true => tryLongest rest s (p.runLength i e (p.subject.size + 1) s)
      | some '-', true => tryShortest rest (fun s => p.matchesOne s i e) (p.subject.size + 1) s
      | some '?', false | some '*', false | some '-', false => skipped ()
      | _, true => matchFrom p fuel depth (s + 1) e captures
      | _, false => .ok none
    match p.at? i with
    | none => .ok (some (s, captures))
    | some '(' =>
      let (extent, next) := if p.at? (i + 1) == some ')' then (Extent.position, i + 2) else (Extent.unfinished, i + 1)
      if maxCaptures ≤ captures.length then .error "too many captures"
      else deeper s next (captures ++ [⟨s, extent⟩])
    | some ')' =>
      match openCapture? captures with
      | none => .error "invalid pattern capture"
      | some n => deeper s (i + 1) (captures.modify n fun c => { c with extent := .closed (s - c.start) })
    | some '$' =>
      if i + 1 = p.pattern.size then .ok (if s = p.subject.size then some (s, captures) else none) else single
    | some '%' =>
      match p.at? (i + 1) with
      | some 'b' => do
        match ← p.balance s (i + 2) with
        | some s => matchFrom p fuel depth s (i + 4) captures
        | none => .ok none
      | some 'f' =>
        if p.at? (i + 2) != some '[' then .error "missing '[' after '%f' in pattern"
        else do
          let e ← p.classEnd (i + 2)
          let before := if s = 0 then 0 else (p.byteAt? (s - 1)).getD 0
          let here := (p.byteAt? s).getD 0
          if !p.inSet before (i + 2) (e - 1) && p.inSet here (i + 2) (e - 1) then matchFrom p fuel depth s e captures
          else .ok none
      | some c =>
        if c.isDigit then do
          match ← p.backReference s c captures with
          | some s => matchFrom p fuel depth s (i + 2) captures
          | none => .ok none
        else single
      | none => single
    | some _ => single

def run (p : Problem) (s i : Nat) : Except Failure Match :=
  p.matchFrom (p.pattern.size + 1) recursionLimit s i []

def search (p : Problem) (i : Nat) : Nat → Nat → Except Failure (Option (Nat × Nat × List Piece))
  | 0, _ => .ok none
  | fuel + 1, s => do
    match ← p.run s i with
    | some (e, captures) => .ok (some (s, e, captures))
    | none => search p i fuel (s + 1)

end Problem

def pieceValue (subject : Bytes) (c : Piece) : Except Failure Value :=
  match c.extent with
  | .closed length => .ok (.str (subject.extract c.start (c.start + length)))
  | .position => .ok (.int (Int64.ofNat (c.start + 1)))
  | .unfinished => .error "unfinished capture"

/-- The values of all captures; the whole match, if there are none. -/
def pieceValues (subject : Bytes) (s e : Nat) (captures : List Piece) : Except Failure (List Value) :=
  if captures.isEmpty then .ok [.str (subject.extract s e)] else captures.mapM (pieceValue subject)

def isSpecial (b : UInt8) : Bool := "^$*+?.([%-".toList.contains (Char.ofNat b.toNat)

def findPlain (subject wanted : Bytes) : Nat → Nat → Option Nat
  | 0, _ => none
  | fuel + 1, s =>
    if subject.size < s + wanted.size then none
    else if subject.extract s (s + wanted.size) == wanted then some s
    else findPlain subject wanted fuel (s + 1)

end ScriptHost.Lua.Pattern
