import ScriptHost.Lua.Parser.Expression

/-! # Parsing statements

Statements declare variables, so the order in which they touch the state of the parser is the scoping rule of the
language: a variable is in scope from the end of its declaration to the end of its block. -/

namespace ScriptHost.Lua.Parser

def endsBlock (withUntil : Bool) : P Bool := do
  match ← currentToken with
  | .word w => return w == "else" || w == "elseif" || w == "end" || (withUntil && w == "until")
  | .eof => return true
  | _ => return false

def settleSlots : P Unit :=
  modifyFunction fun f =>
    let free := slotLevel f
    { f with free, high := max f.high (free + 1) }

/-- Statements up to the end of their block; `return` ends a block as well. -/
def statementsFrom (g : Grammar) : Nat → P (List Stmt)
  | 0 => return []
  | fuel + 1 => do
    if ← endsBlock true then return []
    let last ← isAt "return"
    let s ← g.statement
    if last then return s
    return s ++ (← statementsFrom g fuel)

def Grammar.statements (g : Grammar) : P (List Stmt) := do statementsFrom g (← get).budget

def Grammar.block (g : Grammar) : P (List Stmt) := do
  enterScope false
  let body ← g.statements
  leaveScope
  return body

def takeAttribute : P VarKind := do
  if ← accept "<" then
    let name ← expectName
    expect ">"
    if name == bytes "const" then return .constant
    else if name == bytes "close" then return .closed
    else failPlain (bytes "unknown attribute " ++ Lexer.quote name)
  else return .plain

structure Declared where
  count : Nat
  last : VarKind
  closed : Option (Nat × Bytes)

def declaredFrom : Nat → Declared → P Declared
  | 0, d => return d
  | fuel + 1, d => do
    let name ← expectName
    declare name .plain
    let kind ← takeAttribute
    setLastKind kind
    let closed ←
      match kind, d.closed with
      | .closed, some _ => failPlain (bytes "multiple to-be-closed variables in local list")
      | .closed, none => pure (some (d.count, name))
      | _, closed => pure closed
    let d : Declared := ⟨d.count + 1, kind, closed⟩
    if ← accept "," then declaredFrom fuel d else return d

/-- A declaration of variables. A single constant whose value is known at once vanishes. -/
def localVariables (g : Grammar) : P (List Stmt) := do
  let first := slotLevel (← current)
  let d ← declaredFrom (← get).budget ⟨0, .plain, none⟩
  let values ← do
    if ← accept "=" then expressionList g else pure []
  let closed := d.closed.map fun (i, name) => (first + i, name)
  let known? : Option Value :=
    match d.last, values.getLast? with
    | .constant, some (.const v) => if values.length = d.count then some v else none
    | _, _ => none
  let declared ←
    match known? with
    | some v =>
      setLastKind (.known v)
      activate d.count
      if d.count = 1 then pure []
      else pure [.declare (← lastLine) first (d.count - 1) closed values.dropLast]
    | none =>
      activate d.count
      pure [.declare (← lastLine) first d.count closed values]
  if closed.isSome then markClose
  return declared

def localFunction (g : Grammar) : P (List Stmt) := do
  declare (← expectName) .plain
  let slot := slotLevel (← current)
  activate 1
  let line ← currentLine
  return [.declareFunction slot (← g.functionBody false line)]

def checkWritable (name : Bytes) : P Unit := do
  let writable : Bool :=
    match ← resolve name with
    | .slot _ .plain | .captured _ .plain | .global => true
    | _ => false
  if !writable then failPlain (bytes "attempt to assign to const variable " ++ Lexer.quote name)

def asTarget (start : Token) (e : Expr) : P Target := do
  match e, start with
  | .slot i name, _ =>
    checkWritable name
    return .slot i
  | .captured i name, _ =>
    checkWritable name
    return .captured i
  | .index _ object key, _ => return .index object key
  | .const _, .name name =>
    checkWritable name
    fail (bytes "syntax error")
  | _, _ => fail (bytes "syntax error")

def Expr.sameVariable : Expr → Expr → Bool
  | .slot i _, .slot j _ => i == j
  | .captured i _, .captured j _ => i == j
  | _, _ => false

/-- An earlier target that uses a variable which is assigned as well: the variable is read before. -/
def Target.detach (assigned : Expr) : Target → Target
  | .index object key =>
    let detach (e : Expr) : Expr := if Expr.sameVariable e assigned then .single e else e
    .index (detach object) (detach key)
  | t => t

def assignmentFrom (g : Grammar) : Nat → Token → Expr → List Target → P (List Target × List Expr)
  | 0, _, _, earlier => return (earlier.reverse, [])
  | fuel + 1, start, e, earlier => do
    let t ← asTarget start e
    if ← accept "," then
      let start ← currentToken
      let e ← suffixed g
      nested (assignmentFrom g fuel start e ((t :: earlier).map (Target.detach e)))
    else
      expect "="
      return ((t :: earlier).reverse, ← expressionList g)

def expressionStatement (g : Grammar) : P (List Stmt) := do
  let start ← currentToken
  let e ← suffixed g
  if (← isAt "=") || (← isAt ",") then
    let (targets, values) ← assignmentFrom g (← get).budget start e []
    return [.assign (← lastLine) targets values]
  else
    match e with
    | .call .. | .method .. => return [.call e]
    | _ => fail (bytes "syntax error")

def functionNameFrom : Nat → Expr → P (Expr × Bool)
  | 0, e => return (e, false)
  | fuel + 1, e => do
    if ← isAt "." then
      let e ← settle e
      advance
      functionNameFrom fuel (.index 0 e (← fieldName))
    else if ← isAt ":" then
      let e ← settle e
      advance
      return (.index 0 e (← fieldName), true)
    else return (e, false)

def functionStatement (g : Grammar) (line : Nat) : P (List Stmt) := do
  advance
  let start ← currentToken
  let base ← variableExpr (← expectName)
  let (e, isMethod) ← functionNameFrom (← get).budget base
  let p ← g.functionBody isMethod line
  let t ← asTarget start e
  return [.assign line [t] [.function p]]

def condition (g : Grammar) : P Expr := do settle (← g.expr)

/-- A conditional from its `if` or `elseif` on, up to but not including its `end`. -/
def conditionalFrom (g : Grammar) : Nat → P (List Stmt)
  | 0 => return []
  | fuel + 1 => do
    advance
    let c ← condition g
    expect "then"
    let yes ← g.block
    let no ← do
      if ← isAt "elseif" then conditionalFrom g fuel
      else if ← accept "else" then g.block
      else pure []
    return [.if c yes no]

def ifStatement (g : Grammar) (line : Nat) : P (List Stmt) := do
  let s ← conditionalFrom g (← get).budget
  expectClosing "end" "if" line
  return s

def whileStatement (g : Grammar) (line : Nat) : P (List Stmt) := do
  advance
  let c ← condition g
  enterScope true
  expect "do"
  let body ← g.block
  expectClosing "end" "while" line
  leaveScope
  return [.while c body]

/-- The condition of a `repeat` sees the variables of its body: the loop is one without end that leaves itself. -/
def repeatStatement (g : Grammar) (line : Nat) : P (List Stmt) := do
  enterScope true
  enterScope false
  advance
  let body ← g.statements
  expectClosing "until" "repeat" line
  let c ← condition g
  leaveScope
  leaveScope
  return [.while (.const (.bool true)) (body ++ [.if c [.break] []])]

def declareHidden : Nat → P Unit
  | 0 => return ()
  | n + 1 => do
    declare (bytes "(for state)") .plain
    declareHidden n

/-- The body of a loop whose last `count` declared variables come into scope; also the line where it begins. -/
def loopBody (g : Grammar) (count : Nat) : P (Nat × Nat × List Stmt) := do
  expect "do"
  let line ← lastLine
  enterScope false
  let slot := slotLevel (← current)
  activate count
  settleSlots
  let body ← g.block
  leaveScope
  return (line, slot, body)

def countingLoop (g : Grammar) (name : Bytes) : P Stmt := do
  declareHidden 3
  declare name .plain
  expect "="
  let bound : P Expr := do
    let e ← settle (← g.expr)
    reserve 1
    return if e.isMulti then .single e else e
  let first ← bound
  expect ","
  let last ← bound
  let step ← do
    if ← accept "," then pure [← bound] else pure []
  activate 3
  let (line, slot, body) ← loopBody g 1
  return .count line slot (first :: last :: step) body

def loopNames : Nat → Nat → P Nat
  | 0, count => return count
  | fuel + 1, count => do
    if ← accept "," then
      declare (← expectName) .plain
      loopNames fuel (count + 1)
    else return count

def iteratingLoop (g : Grammar) (name : Bytes) : P Stmt := do
  declareHidden 4
  declare name .plain
  let count ← loopNames (← get).budget 1
  expect "in"
  let line ← currentLine
  let values ← expressionList g
  activate 4
  markClose
  let (closeLine, slot, body) ← loopBody g count
  return .forEach line closeLine slot count values body

def forStatement (g : Grammar) (line : Nat) : P (List Stmt) := do
  enterScope true
  advance
  let name ← expectName
  let loop ←
    match ← currentToken with
    | .mark "=" => countingLoop g name
    | .mark "," | .word "in" => iteratingLoop g name
    | _ => fail (bytes "'=' or 'in' expected")
  expectClosing "end" "for" line
  leaveScope
  return [loop]

/-- A return; a single call is a tail call, unless a variable has to be closed after it. -/
def returnStatement (g : Grammar) : P (List Stmt) := do
  advance
  let values ← do
    if (← endsBlock true) || (← isAt ";") then pure [] else expressionList g
  let insideClose := (← currentScope).insideClose
  let _ ← accept ";"
  match values with
  | [.call line f args] => return [if insideClose then .return values else .tailCall (.call line f args)]
  | [.method line o name callLine args] =>
    return [if insideClose then .return values else .tailCall (.method line o name callLine args)]
  | values => return [.return values]

def idleStatements (g : Grammar) : Nat → P (List Stmt)
  | 0 => return []
  | fuel + 1 => do
    if (← isAt ";") || (← isAt "::") then
      let s ← g.statement
      return s ++ (← idleStatements g fuel)
    else return []

def labelStatement (g : Grammar) (line : Nat) : P (List Stmt) := do
  advance
  let name ← expectName
  expect "::"
  let idle ← idleStatements g (← get).budget
  addLabel name line (← endsBlock false)
  return .label name :: idle

def gotoStatement : P (List Stmt) := do
  advance
  let line ← currentLine
  let name ← expectName
  addJump name line
  return [.goto name]

def breakStatement : P (List Stmt) := do
  let line ← currentLine
  advance
  modifyScope fun s => { s with jumps := s.jumps ++ [⟨breakName, line, 0⟩] }
  return [.break]

def doStatement (g : Grammar) (line : Nat) : P (List Stmt) := do
  advance
  let body ← g.block
  expectClosing "end" "do" line
  return [.block body]

def localStatement (g : Grammar) : P (List Stmt) := do
  advance
  if ← accept "function" then localFunction g else localVariables g

def statement (g : Grammar) : P (List Stmt) := nested do
  let line ← currentLine
  let s ←
    match ← currentToken with
    | .mark ";" =>
      advance
      pure []
    | .word "if" => ifStatement g line
    | .word "while" => whileStatement g line
    | .word "do" => doStatement g line
    | .word "for" => forStatement g line
    | .word "repeat" => repeatStatement g line
    | .word "function" => functionStatement g line
    | .word "local" => localStatement g
    | .mark "::" => labelStatement g line
    | .word "return" => returnStatement g
    | .word "break" => breakStatement
    | .word "goto" => gotoStatement
    | _ => expressionStatement g
  settleSlots
  return s

def parametersFrom : Nat → Nat → P (Nat × Bool)
  | 0, count => return (count, false)
  | fuel + 1, count => do
    match ← currentToken with
    | .name name =>
      advance
      declare name .plain
      if ← accept "," then parametersFrom fuel (count + 1) else return (count + 1, false)
    | .mark "..." =>
      advance
      return (count, true)
    | _ => fail (bytes "<name> or '...' expected")

def openFunction (f : FunctionState) : P Unit :=
  modify fun s =>
    { s with functions := { f with scopes := [{ isLoop := false, level := 0, insideClose := false }] } :: s.functions }

def closeFunction (params : Nat) (body : List Stmt) : P Proto := do
  leaveScope
  let f ← current
  modify fun s => { s with functions := s.functions.drop 1 }
  let source := (← get).source
  return .mk source f.line params f.vararg (f.captured.toList.map (·.source)) f.high body

def functionBody (g : Grammar) (isMethod : Bool) (line : Nat) : P Proto := do
  openFunction { line, vararg := false }
  expect "("
  if isMethod then
    declare (bytes "self") .plain
    activate 1
  let (count, vararg) ← do
    if ← isAt ")" then pure (0, false) else parametersFrom (← get).budget 0
  activate count
  modifyFunction fun f => { f with vararg }
  settleSlots
  expect ")"
  let body ← g.statements
  expectClosing "end" "function" line
  closeFunction (if isMethod then count + 1 else count) body

end ScriptHost.Lua.Parser
