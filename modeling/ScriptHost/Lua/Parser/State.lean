import ScriptHost.Lua.Lexer

/-! # The state of a parser

A parser reads tokens one by one and resolves names as it goes. For every function under way it keeps the variables in
scope, the variables captured from outside, the open blocks with their labels and pending jumps, and how many slots are
in use. The limits of the language are checked here. -/

namespace ScriptHost.Lua.Parser

/-- What may be done with a variable. The value of a variable that is known at once takes no slot. -/
inductive VarKind where
  | plain
  | constant
  | closed
  | known (v : Value)

structure Variable where
  name : Bytes
  kind : VarKind
  slot : Nat := 0

structure CapturedVar where
  name : Bytes
  source : Capture
  kind : VarKind

/-- A jump that waits for its label; `level` is the number of variables in scope at its place. -/
structure Jump where
  name : Bytes
  line : Nat
  level : Nat

/-- A block under way; `level` is the number of variables in scope where it begins. -/
structure Scope where
  isLoop : Bool
  level : Nat
  insideClose : Bool
  labels : List (Bytes × Nat) := []
  jumps : List Jump := []

structure FunctionState where
  line : Nat
  vararg : Bool
  /-- The variables declared so far; the first `active` of them are in scope. -/
  vars : Array Variable := #[]
  active : Nat := 0
  captured : Array CapturedVar := #[]
  scopes : List Scope := []
  /-- The first slot that is free, and the greatest that it has been. -/
  free : Nat := 0
  high : Nat := 2

structure State where
  source : Bytes
  cursor : Lexer.Cursor
  current : Lexeme
  ahead : Option Lexeme := none
  lastLine : Nat := 1
  functions : List FunctionState := []
  /-- The levels of nesting, those of the calls that led here included. -/
  depth : Nat
  /-- Bounds the number of tokens of the source. -/
  budget : Nat

abbrev P (α : Type) := StateT State (Except CompileError) α

/-- How deep calls and syntax may be nested together. -/
def depthLimit : Nat := 200

def maxVariables : Nat := 200

def maxCaptured : Nat := 255

def maxSlots : Nat := 255

def nearCurrent (s : State) : Lexer.Near :=
  match s.current.token with
  | .eof => .endOfSource
  | _ => .text s.current.shown

def fail {α : Type} (message : Bytes) : P α := fun s =>
  .error (Lexer.diagnostic s.source s.cursor.line message (nearCurrent s))

def failPlain {α : Type} (message : Bytes) : P α := fun s =>
  .error (Lexer.diagnostic s.source s.cursor.line message .nothing)

def readToken : P Lexeme := fun s =>
  match Lexer.next (s.cursor.rest.length + 1) s.cursor with
  | .ok (t, cursor) => .ok (t, { s with cursor })
  | .error f => .error (Lexer.diagnostic s.source f.line (bytes f.message) f.near)

def advance : P Unit := do
  modify fun s => { s with lastLine := s.cursor.line }
  match (← get).ahead with
  | some t => modify fun s => { s with current := t, ahead := none }
  | none =>
    let t ← readToken
    modify fun s => { s with current := t }

def peekAhead : P Token := do
  match (← get).ahead with
  | some t => return t.token
  | none =>
    let t ← readToken
    modify fun s => { s with ahead := some t }
    return t.token

def currentToken : P Token := return (← get).current.token

def currentLine : P Nat := return (← get).cursor.line

def lastLine : P Nat := return (← get).lastLine

def isAt (s : String) : P Bool := return (← get).current.token.is s

def accept (s : String) : P Bool := do
  if ← isAt s then
    advance
    return true
  else return false

def expectedText (s : String) : Bytes := Lexer.quote (bytes s) ++ bytes " expected"

def check (s : String) : P Unit := do
  if !(← isAt s) then fail (expectedText s)

def expect (s : String) : P Unit := do
  check s
  advance

def expectClosing (what opened : String) (line : Nat) : P Unit := do
  if !(← accept what) then
    if line = (← currentLine) then fail (expectedText what)
    else fail (expectedText what ++ bytes " (to close " ++ Lexer.quote (bytes opened) ++ bytes s!" at line {line})")

def expectName : P Bytes := do
  match ← currentToken with
  | .name s =>
    advance
    return s
  | _ => fail (bytes "<name> expected")

/-- Runs a parser one level deeper; at the limit of nesting the whole compilation fails. -/
def nested {α : Type} (p : P α) : P α := do
  let depth := (← get).depth + 1
  if depthLimit ≤ depth then throw (.overflow (bytes "C stack overflow"))
  modify fun s => { s with depth }
  let v ← p
  modify fun s => { s with depth := s.depth - 1 }
  return v

def current : P FunctionState := do
  match (← get).functions with
  | f :: _ => return f
  | [] => return ⟨0, true, #[], 0, #[], [], 0, 2⟩

def modifyFunction (g : FunctionState → FunctionState) : P Unit :=
  modify fun s =>
    match s.functions with
    | f :: fs => { s with functions := g f :: fs }
    | [] => s

def limitText (f : FunctionState) (what : String) (limit : Nat) : Bytes :=
  let place := if f.line = 0 then "main function" else s!"function at line {f.line}"
  bytes s!"too many {what} (limit is {limit}) in {place}"

def reserve (n : Nat) : P Unit := do
  let free := (← current).free + n
  if maxSlots ≤ free then fail (bytes "function or expression needs too many registers")
  modifyFunction fun f => { f with free, high := max f.high free }

def release (n : Nat) : P Unit := modifyFunction fun f => { f with free := f.free - n }

def withSlots {α : Type} (n : Nat) (p : P α) : P α := do
  reserve n
  let v ← p
  release n
  return v

def slotLevel (f : FunctionState) : Nat :=
  (f.vars.take f.active).foldl (fun n v => match v.kind with | .known _ => n | _ => n + 1) 0

def declare (name : Bytes) (kind : VarKind) : P Unit := do
  let f ← current
  if maxVariables < f.vars.size + 1 then fail (limitText f "local variables" maxVariables)
  modifyFunction fun f => { f with vars := f.vars.push { name, kind } }

def activateOne (f : FunctionState) : FunctionState :=
  let slot := slotLevel f
  { f with vars := f.vars.modify f.active (fun v => { v with slot }), active := f.active + 1 }

def activate (count : Nat) : P Unit :=
  modifyFunction fun f => (List.range count).foldl (fun f _ => activateOne f) f

def setLastKind (kind : VarKind) : P Unit :=
  modifyFunction fun f => { f with vars := f.vars.modify (f.vars.size - 1) fun v => { v with kind } }

inductive Found where
  | slot (i : Nat) (kind : VarKind)
  | captured (i : Nat) (kind : VarKind)
  | known (v : Value)
  | global

def FunctionState.find? (f : FunctionState) (name : Bytes) : Option Variable :=
  (f.vars.take f.active).toList.reverse.find? fun v => v.name == name

/-- What a name means in the innermost of some functions, which captures the variable if it belongs to an outer one. -/
def resolveIn (name : Bytes) : List FunctionState → Found × List FunctionState
  | [] => (.global, [])
  | f :: outer =>
    match f.find? name with
    | some v =>
      match v.kind with
      | .known value => (.known value, f :: outer)
      | kind => (.slot v.slot kind, f :: outer)
    | none =>
      match f.captured.findIdx? fun c => c.name == name with
      | some i => (.captured i ((f.captured[i]?.map (·.kind)).getD .plain), f :: outer)
      | none =>
        let (found, outer) := resolveIn name outer
        let capture (source : Capture) (kind : VarKind) : Found × List FunctionState :=
          (.captured f.captured.size kind, { f with captured := f.captured.push ⟨name, source, kind⟩ } :: outer)
        match found with
        | .slot i kind => capture (.slot i) kind
        | .captured i kind => capture (.outer i) kind
        | other => (other, f :: outer)

def resolve (name : Bytes) : P Found := do
  let (found, functions) := resolveIn name (← get).functions
  match functions.find? fun f => maxCaptured < f.captured.size with
  | some f => fail (limitText f "upvalues" maxCaptured)
  | none =>
    modify fun s => { s with functions }
    return found

def variableExpr (name : Bytes) : P Expr := do
  match ← resolve name with
  | .slot i _ => return .slot i name
  | .captured i _ => return .captured i name
  | .known v => return .const v
  | .global =>
    let environment : Expr ←
      match ← resolve environmentName with
      | .slot i _ => pure (.slot i environmentName)
      | .captured i _ => pure (.captured i environmentName)
      | .known v => pure (.const v)
      | .global => pure (.const .nil)
    return .index 0 environment (.const (.str name))

def currentScope : P Scope := do
  match (← current).scopes with
  | s :: _ => return s
  | [] => return { isLoop := false, level := 0, insideClose := false }

def modifyScope (g : Scope → Scope) : P Unit :=
  modifyFunction fun f =>
    match f.scopes with
    | s :: ss => { f with scopes := g s :: ss }
    | [] => f

def enterScope (isLoop : Bool) : P Unit := do
  let f ← current
  let insideClose := (f.scopes.head?.map (·.insideClose)).getD false
  modifyFunction fun f => { f with scopes := { isLoop, level := f.active, insideClose } :: f.scopes }

def breakName : Bytes := bytes "break"

def failJump {α : Type} (j : Jump) : P α :=
  if j.name == breakName then failPlain (bytes s!"break outside loop at line {j.line}")
  else failPlain (bytes "no visible label " ++ Lexer.quote j.name ++ bytes s!" for <goto> at line {j.line}")

/-- Closes a block. Its variables go out of scope, a loop takes the breaks in it, and the other pending jumps are handed
to the block around, as if they stood where the block begins. -/
def leaveScope : P Unit := do
  let s ← currentScope
  modifyFunction fun f =>
    let f := { f with vars := f.vars.take s.level, active := s.level }
    { f with free := slotLevel f, scopes := f.scopes.drop 1 }
  let jumps := if s.isLoop then s.jumps.filter fun j => !(j.name == breakName) else s.jumps
  let jumps := jumps.map fun j => { j with level := s.level }
  match (← current).scopes with
  | _ :: _ => modifyScope fun outer => { outer with jumps := outer.jumps ++ jumps }
  | [] =>
    match jumps with
    | j :: _ => failJump j
    | [] => pure ()

def findLabel? (name : Bytes) : P (Option Nat) := do
  let labels := (← current).scopes.flatMap (·.labels)
  return (labels.find? fun l => l.1 == name).map Prod.snd

/-- Notes a jump, which waits if its label is not known yet. -/
def addJump (name : Bytes) (line : Nat) : P Unit := do
  if (← findLabel? name).isNone then
    let level := (← current).active
    modifyScope fun s => { s with jumps := s.jumps ++ [⟨name, line, level⟩] }

/-- Notes a label and lets the jumps that wait for it go. None of them may skip a declaration, unless the label ends its
block. -/
def addLabel (name : Bytes) (line : Nat) (endsBlock : Bool) : P Unit := do
  match ← findLabel? name with
  | some old => failPlain (bytes "label " ++ Lexer.quote name ++ bytes s!" already defined on line {old}")
  | none => pure ()
  let s ← currentScope
  let f ← current
  let level := if endsBlock then s.level else f.active
  match s.jumps.find? fun j => j.name == name && j.level < level with
  | some j =>
    let skipped := ((f.vars[j.level]?).map (·.name)).getD (bytes "?")
    failPlain (bytes "<goto " ++ name ++ bytes s!"> at line {j.line} jumps into the scope of local " ++ Lexer.quote skipped)
  | none => modifyScope fun s =>
      { s with labels := s.labels ++ [(name, line)], jumps := s.jumps.filter fun j => !(j.name == name) }

def markClose : P Unit := modifyScope fun s => { s with insideClose := true }

end ScriptHost.Lua.Parser
