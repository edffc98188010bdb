import ScriptHost.Lua.Parser.State

/-! # Parsing expressions

Each parser here is given the parsers of the parts that may nest, so that the recursion is tied in one place. The line of
an access is that of the last token before its value is needed, so an access stays open until then. -/

namespace ScriptHost.Lua.Parser

structure Grammar where
  subexpr : Nat → P Expr
  statement : P (List Stmt)
  functionBody : Bool → Nat → P Proto

def Grammar.expr (g : Grammar) : P Expr := g.subexpr 0

def settle (e : Expr) : P Expr := do
  match e with
  | .index 0 object key => return .index (← lastLine) object key
  | .single (.slot i name) => return .slot i name
  | .single (.captured i name) => return .captured i name
  | .single (.index line object key) => return .index line object key
  | e => return e

def enclose : Expr → Expr
  | .const v => .const v
  | .function p => .function p
  | .and a b => .and a b
  | .or a b => .or a b
  | .unary line op a => .unary line op a
  | .binary line op a b => .binary line op a b
  | .table line fields => .table line fields
  | e => .single e

def Expr.needsNoSlot : Expr → Bool
  | .const _ | .slot .. => true
  | _ => false

def slotsOf (e : Expr) : Nat := if Expr.needsNoSlot e then 0 else 1

def expressions (g : Grammar) : Nat → P (List Expr)
  | 0 => return []
  | fuel + 1 => do
    let e ← g.expr
    if ← accept "," then
      let e ← settle e
      reserve 1
      let es ← expressions g fuel
      return e :: es
    else return [← settle e]

def expressionList (g : Grammar) : P (List Expr) := do expressions g (← get).budget

def fieldName : P Expr := do return .const (.str (← expectName))

def bracketKey (g : Grammar) : P Expr := do
  advance
  let k ← settle (← g.expr)
  expect "]"
  return k

def tableField (g : Grammar) : P Field := do
  let keyed (key : P Expr) : P Field := do
    let k ← key
    expect "="
    let v ← withSlots (slotsOf k) do settle (← g.expr)
    return .keyed (← lastLine) k v
  match ← currentToken with
  | .name _ =>
    if (← peekAhead).is "=" then keyed fieldName
    else return .item (← settle (← g.expr))
  | .mark "[" => keyed (bracketKey g)
  | _ => return .item (← settle (← g.expr))

def itemsPerStore : Nat := 50

/-- The fields of a table constructor; `pending` items wait in slots to be stored. -/
def tableFields (g : Grammar) : Nat → Nat → P (List Field)
  | 0, _ => return []
  | fuel + 1, pending => do
    if ← isAt "\x7d" then
      release pending
      return []
    let f ← tableField g
    let pending ←
      match f with
      | .item _ =>
        reserve 1
        if pending + 1 = itemsPerStore then
          release itemsPerStore
          pure 0
        else pure (pending + 1)
      | .keyed .. => pure pending
    let more ← do
      if ← accept "," then pure true else accept ";"
    if more then return f :: (← tableFields g fuel pending)
    else
      release pending
      return [f]

def tableConstructor (g : Grammar) : P Expr := do
  let line ← currentLine
  expect "\x7b"
  let fields ← withSlots 1 do tableFields g (← get).budget 0
  expectClosing "\x7d" "\x7b" line
  return .table line fields

def callArguments (g : Grammar) : P (Nat × List Expr) := do
  let line ← currentLine
  match ← currentToken with
  | .mark "(" =>
    advance
    if ← isAt ")" then
      advance
      return (line, [])
    let args ← expressionList g
    release (args.length - 1)
    withSlots args.length (pure ())
    expectClosing ")" "(" line
    return (line, args)
  | .mark "\x7b" => return (line, [← tableConstructor g])
  | .string s =>
    advance
    return (line, [.const (.str s)])
  | _ => fail (bytes "function arguments expected")

def primary (g : Grammar) : P Expr := do
  match ← currentToken with
  | .name s =>
    advance
    variableExpr s
  | .mark "(" =>
    let line ← currentLine
    advance
    let e ← g.expr
    expectClosing ")" "(" line
    return enclose (← settle e)
  | _ => fail (bytes "unexpected symbol")

def suffixes (g : Grammar) : Nat → Expr → P Expr
  | 0, e => return e
  | fuel + 1, e => do
    match ← currentToken with
    | .mark "." =>
      let e ← settle e
      advance
      let k ← fieldName
      suffixes g fuel (.index 0 e k)
    | .mark "[" =>
      let e ← settle e
      let k ← withSlots (slotsOf e) (bracketKey g)
      suffixes g fuel (.index 0 e k)
    | .mark ":" =>
      advance
      let name ← expectName
      let e ← settle e
      let line ← lastLine
      let (callLine, args) ← withSlots 2 (callArguments g)
      suffixes g fuel (.method line e name callLine args)
    | .mark "(" | .mark "\x7b" | .string _ =>
      let e ← settle e
      let (line, args) ← withSlots 1 (callArguments g)
      suffixes g fuel (.call line e args)
    | _ => return e

def suffixed (g : Grammar) : P Expr := do
  let e ← primary g
  suffixes g (← get).budget e

def simple (g : Grammar) : P Expr := do
  let constant (v : Value) : P Expr := do
    advance
    return .const v
  match ← currentToken with
  | .int n => constant (.int n)
  | .float x => constant (.float x)
  | .string s => constant (.str s)
  | .word "nil" => constant .nil
  | .word "true" => constant (.bool true)
  | .word "false" => constant (.bool false)
  | .mark "..." =>
    if !(← current).vararg then fail (bytes "cannot use '...' outside a vararg function")
    advance
    return .vararg
  | .mark "\x7b" => tableConstructor g
  | .word "function" =>
    advance
    let line ← currentLine
    return .function (← g.functionBody false line)
  | _ => suffixed g

structure Binding where
  left : Nat
  right : Nat

inductive Operator where
  | binary (op : BinaryOp)
  | and
  | or

def operator? (t : Token) : Option (Operator × Binding) :=
  match t with
  | .mark "+" => some (.binary .add, ⟨10, 10⟩)
  | .mark "-" => some (.binary .sub, ⟨10, 10⟩)
  | .mark "*" => some (.binary .mul, ⟨11, 11⟩)
  | .mark "%" => some (.binary .mod, ⟨11, 11⟩)
  | .mark "^" => some (.binary .pow, ⟨14, 13⟩)
  | .mark "/" => some (.binary .div, ⟨11, 11⟩)
  | .mark "//" => some (.binary .idiv, ⟨11, 11⟩)
  | .mark "&" => some (.binary .band, ⟨6, 6⟩)
  | .mark "|" => some (.binary .bor, ⟨4, 4⟩)
  | .mark "~" => some (.binary .bxor, ⟨5, 5⟩)
  | .mark "<<" => some (.binary .shl, ⟨7, 7⟩)
  | .mark ">>" => some (.binary .shr, ⟨7, 7⟩)
  | .mark ".." => some (.binary .concat, ⟨9, 8⟩)
  | .mark "==" => some (.binary .eq, ⟨3, 3⟩)
  | .mark "~=" => some (.binary .ne, ⟨3, 3⟩)
  | .mark "<" => some (.binary .lt, ⟨3, 3⟩)
  | .mark "<=" => some (.binary .le, ⟨3, 3⟩)
  | .mark ">" => some (.binary .gt, ⟨3, 3⟩)
  | .mark ">=" => some (.binary .ge, ⟨3, 3⟩)
  | .word "and" => some (.and, ⟨2, 2⟩)
  | .word "or" => some (.or, ⟨1, 1⟩)
  | _ => none

def unaryBinding : Nat := 12

def unaryOp? (t : Token) : Option UnaryOp :=
  match t with
  | .mark "-" => some .neg
  | .mark "~" => some .bnot
  | .mark "#" => some .len
  | .word "not" => some .not
  | _ => none

/-- Whether a folded result may stand in place of the operation: not the non-number, nor a zero that has a sign. -/
def keepsFolded : Value → Bool
  | .float x => !Number.isNaN x && x != 0
  | _ => true

def foldBinary? (op : BinaryOp) (a b : Expr) : Option Value :=
  match a, b with
  | .const x, .const y =>
    let byZero := (op == .div || op == .idiv || op == .mod) && (Number.float? y).any (· == 0)
    let folds :=
      match op with
      | .concat | .eq | .ne | .lt | .le | .gt | .ge => false
      | _ => !byZero
    if folds then
      match Number.arith? op x y with
      | some (.ok v) => if keepsFolded v then some v else none
      | _ => none
    else none
  | _, _ => none

def foldUnary? (op : UnaryOp) (a : Expr) : Option Value :=
  match op, a with
  | .neg, .const (.int n) => some (.int (0 - n))
  | .neg, .const (.float x) => if keepsFolded (.float (-x)) then some (.float (-x)) else none
  | .bnot, .const v => (Number.int? v).map fun n => .int (~~~n)
  | .not, .const v => some (.bool !v.truthy)
  | _, _ => none

/-- An operation; those on constants are carried out at once where nothing can be noticed of it. -/
def combine (op : Operator) (line : Nat) (a b : Expr) : Expr :=
  match op with
  | .and =>
    match a with
    | .const v => if v.truthy then enclose b else .and a b
    | a => .and a b
  | .or =>
    match a with
    | .const v => if v.truthy then .or a b else enclose b
    | a => .or a b
  | .binary op =>
    match foldBinary? op a b with
    | some v => .const v
    | none =>
      match op, b with
      | .concat, .binary inner .concat _ _ => .binary inner .concat a b
      | op, b => .binary line op a b

def operators (g : Grammar) (limit : Nat) : Nat → Expr → P Expr
  | 0, a => return a
  | fuel + 1, a => do
    match operator? (← currentToken) with
    | some (op, binding) =>
      if limit < binding.left then
        let line ← currentLine
        advance
        let a ← settle a
        let b ← withSlots (slotsOf a) do settle (← g.subexpr binding.right)
        operators g limit fuel (combine op line a b)
      else return a
    | none => return a

def subexpression (g : Grammar) (limit : Nat) : P Expr := nested do
  let a ←
    match unaryOp? (← currentToken) with
    | some op =>
      let line ← currentLine
      advance
      let a ← settle (← g.subexpr unaryBinding)
      match foldUnary? op a with
      | some v => pure (.const v)
      | none => pure (.unary line op a)
    | none => simple g
  operators g limit (← get).budget a

end ScriptHost.Lua.Parser
