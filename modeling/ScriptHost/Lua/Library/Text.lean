import ScriptHost.Lua.Library.Pattern

/-! # The functions on strings

Positions count from one, and from the end if they are negative. -/

namespace ScriptHost.Lua.Text

open Native Pattern

def startPosition (i : Int64) (size : Nat) : Nat :=
  let n := i.toInt
  if 0 < n then n.toNat else if n = 0 ∨ n < -(size : Int) then 1 else ((size : Int) + n + 1).toNat

def endPosition (i : Int64) (size : Nat) : Nat :=
  let n := i.toInt
  if (size : Int) < n then size else if 0 ≤ n then n.toNat else if n < -(size : Int) then 0 else ((size : Int) + n + 1).toNat

def value (s : Bytes) : List Value := [.str s]

def int (n : Nat) : Value := .int (Int64.ofNat n)

def built (s : Bytes) : Native (List Value) := do
  claim s.size
  return value s

def mapBytes (f : UInt8 → UInt8) (s : Bytes) : Bytes := ⟨s.data.map f⟩

def sub (args : List Value) : Native (List Value) := do
  let s ← checkString args 1
  let first := startPosition (← checkInt args 2) s.size
  let last := endPosition (← optInt args 3 (-1)) s.size
  return value (if first ≤ last then s.extract (first - 1) last else bytes "")

/-- How many values a function may return. -/
def stackRoom : Nat := 1000000

def byte (args : List Value) : Native (List Value) := do
  let s ← checkString args 1
  let i ← optInt args 2 1
  let first := startPosition i s.size
  let last := endPosition (← optInt args 3 i) s.size
  if last < first then return []
  if stackRoom ≤ last - first + 1 then error "string slice too long"
  return (s.extract (first - 1) last).toList.map fun b => int b.toNat

def charBytes (args : List Value) : Nat → Nat → Native (List UInt8)
  | 0, _ => return []
  | count + 1, n => do
    let c ← checkInt args n
    if c < 0 || 255 < c then badArgument n "value out of range"
    return UInt8.ofNat c.toInt.toNat :: (← charBytes args count (n + 1))

def char (args : List Value) : Native (List Value) := do
  return value ⟨(← charBytes args args.length 1).toArray⟩

/-- A string `n` times, `n` being at least one, by doubling. -/
def repeated (s : Bytes) : Nat → Nat → Bytes
  | 0, _ => s
  | fuel + 1, n =>
    if n ≤ 1 then s
    else
      let half := repeated s fuel (n / 2)
      if n % 2 = 0 then half ++ half else half ++ half ++ s

def rep (args : List Value) : Native (List Value) := do
  let s ← checkString args 1
  let n ← checkInt args 2
  let separator ← optString args 3 (bytes "")
  let count := n.toInt.toNat
  if count = 0 then return value (bytes "")
  let total := (s.size + separator.size) * count - separator.size
  if 2 ^ 63 ≤ (s.size + separator.size) * count then error "resulting string too large"
  claim total
  if total = 0 then return value (bytes "")
  return value (repeated (s ++ separator) 64 count |>.extract 0 total)

def reverse (args : List Value) : Native (List Value) := do
  return value ⟨(← checkString args 1).data.reverse⟩

def len (args : List Value) : Native (List Value) := do
  return [int (← checkString args 1).size]

def lower (args : List Value) : Native (List Value) := do
  return value (mapBytes (fun b => if 65 ≤ b && b ≤ 90 then b + 32 else b) (← checkString args 1))

def upper (args : List Value) : Native (List Value) := do
  return value (mapBytes (fun b => if 97 ≤ b && b ≤ 122 then b - 32 else b) (← checkString args 1))

def settled {α : Type} (e : Except Pattern.Failure α) : Native α :=
  match e with
  | .ok a => pure a
  | .error message => error message

def anchor (pattern : Bytes) : Bool × Nat := if pattern[0]? == some 0x5e then (true, 1) else (false, 0)

/-- Looks for a pattern; `find` also gives the place, and may take the pattern as a plain string. -/
def look (find : Bool) (args : List Value) : Native (List Value) := do
  let s ← checkString args 1
  let pattern ← checkString args 2
  let init := startPosition (← optInt args 3 1) s.size - 1
  if s.size < init then return [.nil]
  if find && ((arg args 4).truthy || !pattern.toList.any isSpecial) then
    match findPlain s pattern (s.size + 1) init with
    | some i => return [int (i + 1), int (i + pattern.size)]
    | none => return [.nil]
  let (anchored, start) := anchor pattern
  let problem : Problem := ⟨s, pattern⟩
  match ← settled (problem.search start (if anchored then 1 else s.size + 1 - init) init) with
  | none => return [.nil]
  | some (i, e, captures) =>
    if find then
      let found ← settled (captures.mapM (pieceValue s))
      return int (i + 1) :: int e :: found
    else settled (pieceValues s i e captures)

def gmatch (args : List Value) : Native (List Value) := do
  let s ← checkString args 1
  let pattern ← checkString args 2
  let init := startPosition (← optInt args 3 1) s.size - 1
  ask (.bind (.matches s pattern init none))

def nextMatch (p : Problem) (lastEnd : Option Nat) :
    Nat → Nat → Except Pattern.Failure (Option (Nat × Nat × List Piece))
  | 0, _ => .ok none
  | fuel + 1, s => do
    match ← p.run s 0 with
    | some (e, captures) =>
      if some e == lastEnd then nextMatch p lastEnd fuel (s + 1) else .ok (some (s, e, captures))
    | none => nextMatch p lastEnd fuel (s + 1)

/-- A step of the iterator over matches, which is kept in the store. -/
def gmatchStep (self : Nat) (s pattern : Bytes) (start : Nat) (lastEnd : Option Nat) : Native (List Value) := do
  match ← settled (nextMatch ⟨s, pattern⟩ lastEnd (s.size + 1 - start) start) with
  | none => return []
  | some (i, e, captures) =>
    let _ ← ask (.advance self e)
    settled (pieceValues s i e captures)

def namedCapture (s : Bytes) (i e : Nat) (captures : List Piece) (n : Nat) : Except Pattern.Failure Bytes :=
  match captures[n - 1]? with
  | some c => (pieceValue s c).map fun v => v.text?.getD (bytes "")
  | none =>
    if n = 1 then .ok (s.extract i e)
    else .error s!"invalid capture index %{n} in replacement string"

def expand (s : Bytes) (i e : Nat) (captures : List Piece) : List UInt8 → Bytes → Except Pattern.Failure Bytes
  | [], acc => .ok acc
  | 0x25 :: rest, acc =>
    match rest with
    | 0x25 :: rest => expand s i e captures rest (acc.push 0x25)
    | 0x30 :: rest => expand s i e captures rest (acc ++ s.extract i e)
    | b :: rest =>
      if 49 ≤ b && b ≤ 57 then
        match namedCapture s i e captures (b.toNat - 48) with
        | .ok t => expand s i e captures rest (acc ++ t)
        | .error m => .error m
      else .error "invalid use of '%' in replacement string"
    | [] => .error "invalid use of '%' in replacement string"
  | b :: rest, acc => expand s i e captures rest (acc.push b)

/-- What a match is replaced by; none keeps it. -/
def replacement (s : Bytes) (r : Value) (i e : Nat) (captures : List Piece) : Native (Option Bytes) := do
  let chosen (v : Value) : Native (Option Bytes) :=
    if !v.truthy then pure none
    else
      match v.text? with
      | some t => pure (some t)
      | none => error s!"invalid replacement value (a {v.typeName})"
  match r with
  | .table _ =>
    let found ← settled (pieceValues s i e (captures.take 1))
    chosen (← index r (first found))
  | .builtin _ | .closure _ =>
    let found ← settled (pieceValues s i e captures)
    chosen (← call1 r found)
  | r =>
    let text := r.text?.getD (bytes "")
    return some (← settled (expand s i e captures text.toList (bytes "")))

/-- The state of a replacement: what was built, how many matches were replaced, and whether one was changed. -/
structure Progress where
  built : Bytes := bytes ""
  count : Nat := 0
  changed : Bool := false

/-- Replaces a match at a position, or keeps one byte; none at the end of the subject. Gives the next position and the
end of the last match. -/
def replaceOne (p : Problem) (r : Value) (start s : Nat) (lastEnd : Option Nat) (done : Progress) :
    Native (Option (Nat × Option Nat × Progress)) := do
  let kept : Option (Nat × Option Nat × Progress) :=
    (p.byteAt? s).map fun b => (s + 1, lastEnd, { done with built := done.built.push b })
  match ← settled (p.run s start) with
  | none => return kept
  | some (e, captures) =>
    if some e == lastEnd then return kept
    match ← replacement p.subject r s e captures with
    | some t => return some (e, some e, { built := done.built ++ t, count := done.count + 1, changed := true })
    | none =>
      return some (e, some e, { done with built := done.built ++ p.subject.extract s e, count := done.count + 1 })

/-- Replaces matches from a position on, at most `limit` of them; also gives the position where the rest begins. -/
def replaceFrom (p : Problem) (r : Value) (anchored : Bool) (start limit : Nat) :
    Nat → Nat → Option Nat → Progress → Native (Nat × Progress)
  | 0, s, _, done => return (s, done)
  | fuel + 1, s, lastEnd, done => do
    if limit ≤ done.count then return (s, done)
    match ← replaceOne p r start s lastEnd done with
    | none => return (s, done)
    | some (s, lastEnd, done) =>
      if anchored then return (s, done) else replaceFrom p r anchored start limit fuel s lastEnd done

def gsub (args : List Value) : Native (List Value) := do
  let s ← checkString args 1
  let pattern ← checkString args 2
  let r := arg args 3
  let limit ← optInt args 4 (Int64.ofNat (s.size + 1))
  match r with
  | .str _ | .int _ | .float _ | .table _ | .builtin _ | .closure _ => pure ()
  | _ => typeError args 3 "string/function/table"
  let (anchored, start) := anchor pattern
  let (rest, done) ← replaceFrom ⟨s, pattern⟩ r anchored start limit.toInt.toNat (2 * s.size + 3) 0 none {}
  let result := if done.changed then done.built ++ s.extract rest s.size else s
  claim (if done.changed then result.size else 0)
  return [.str result, int done.count]

def onNumbers (op : BinaryOp) (x y : Value) : Native (List Value) := fun h =>
  match h.arith op x y with
  | .value v => .done [v] h
  | .trouble c => .fault (.bare (c.message h fun _ => none)) h
  | .call f args => call f args h

/-- An arithmetic operation that has a string among its operands: both must be numbers or spell them, or else the second
one's metamethod is taken. -/
def arith (op : BinaryOp) (name : String) (args : List Value) : Native (List Value) := do
  let (a, b) := (arg args 1, arg args 2)
  match a.number?, b.number? with
  | some x, some y => onNumbers op x y
  | _, _ =>
    match ← view fun h => if Heap.isString b then Value.nil else h.metamethod b ("__" ++ name) with
    | .nil => error s!"attempt to {name} a '{a.typeName}' with a '{b.typeName}'"
    | f => return [← call1 f [a, b]]

def unm (args : List Value) : Native (List Value) := do
  match (arg args 1).number? with
  | some (.int n) => return [.int (0 - n)]
  | some (.float x) => return [.float (-x)]
  | _ => arith .sub "unm" args

end ScriptHost.Lua.Text
