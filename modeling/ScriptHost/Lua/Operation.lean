import ScriptHost.Lua.Heap
import ScriptHost.Lua.Lexer

/-! # Operations on values

What an operation on values does, metamethods included, up to the point where a function has to be called: it has a
value, or goes on with a call, or is a complaint about one of its operands. Nothing here calls anything. -/

namespace ScriptHost.Lua

/-- Why an operation cannot be carried out. An operand is named by its position among the operands; what was found on the
way through metatables has no position. -/
inductive Complaint where
  | wrongType (attempt : String) (culprit : Value) (operand : Option Nat)
  | noInteger (operand : Nat)
  | other (message : Bytes)

inductive Resolved where
  | value (v : Value)
  | call (f : Value) (args : List Value)
  | trouble (c : Complaint)

/-- How a store goes on: in a table, by its raw content, or with a call, or not at all. -/
inductive Stored where
  | into (table : Nat)
  | call (f : Value) (args : List Value)
  | trouble (c : Complaint)

def Label.suffix (l : Label) : Bytes :=
  let (kind, name) := l.parts
  bytes " (" ++ kind ++ bytes " " ++ Lexer.quote name ++ bytes ")"

def Complaint.message (h : Heap) (labels : Nat → Option Label) : Complaint → Bytes
  | wrongType attempt culprit operand =>
    bytes s!"attempt to {attempt} a " ++ h.typeLabel culprit ++ bytes " value"
      ++ (((operand.bind labels).map Label.suffix).getD (bytes ""))
  | noInteger operand =>
    bytes "number" ++ ((labels operand).map Label.suffix).getD (bytes "") ++ bytes " has no integer representation"
  | other message => message

def Value.isFunction : Value → Bool
  | .builtin _ | .closure _ => true
  | _ => false

def BinaryOp.event : BinaryOp → String
  | .add => "__add"
  | .sub => "__sub"
  | .mul => "__mul"
  | .mod => "__mod"
  | .pow => "__pow"
  | .div => "__div"
  | .idiv => "__idiv"
  | .band => "__band"
  | .bor => "__bor"
  | .bxor => "__bxor"
  | .shl => "__shl"
  | .shr => "__shr"
  | .concat => "__concat"
  | .eq | .ne => "__eq"
  | .lt | .gt => "__lt"
  | .le | .ge => "__le"

def UnaryOp.event : UnaryOp → String
  | .neg => "__unm"
  | .not => "__not"
  | .len => "__len"
  | .bnot => "__bnot"

def chainLimit : Nat := 2000

namespace Heap

/-- A field of an object, through at most `fuel` metatables; `direct` holds for the object that was asked. -/
def indexFrom (h : Heap) (k : Value) : Nat → Value → Bool → Resolved
  | 0, _, _ => .trouble (.other (bytes "'__index' chain too long; possibly a loop"))
  | fuel + 1, o, direct =>
    let follow (f : Value) : Resolved := if f.isFunction then .call f [o, k] else h.indexFrom k fuel f false
    match o with
    | .table r =>
      let v := h.rawGet r k
      if !v.isNil then .value v
      else
        match h.metamethod o "__index" with
        | .nil => .value .nil
        | f => follow f
    | o =>
      match h.metamethod o "__index" with
      | .nil => .trouble (.wrongType "index" o (if direct then some 0 else none))
      | f => follow f

def index (h : Heap) (o k : Value) : Resolved := h.indexFrom k chainLimit o true

def rawStore (r : Nat) (k : Value) : Stored :=
  match k with
  | .nil => .trouble (.other (bytes "table index is nil"))
  | .float x => if Number.isNaN x then .trouble (.other (bytes "table index is NaN")) else .into r
  | _ => .into r

def storeFrom (h : Heap) (k v : Value) : Nat → Value → Bool → Stored
  | 0, _, _ => .trouble (.other (bytes "'__newindex' chain too long; possibly a loop"))
  | fuel + 1, o, direct =>
    let follow (f : Value) : Stored := if f.isFunction then .call f [o, k, v] else h.storeFrom k v fuel f false
    match o with
    | .table r =>
      match (h.table r).metatable with
      | none => rawStore r k
      | some m =>
        match h.rawGetStr m "__newindex" with
        | .nil => rawStore r k
        | f => if (h.rawGet r k).isNil then follow f else rawStore r k
    | o =>
      match h.metamethod o "__newindex" with
      | .nil => .trouble (.wrongType "index" o (if direct then some 0 else none))
      | f => follow f

def store (h : Heap) (o k v : Value) : Stored := h.storeFrom k v chainLimit o true

/-- The metamethod that one of two operands has, the first one's before the second one's. -/
def eitherMetamethod (h : Heap) (a b : Value) (event : String) : Value :=
  match h.metamethod a event with
  | .nil => h.metamethod b event
  | f => f

/-- The complaint about the first operand of the two that is not as it has to be. -/
def blame (attempt : String) (good : Value → Bool) (a b : Value) : Complaint :=
  if good a then .wrongType attempt b (some 1) else .wrongType attempt a (some 0)

def isNumber : Value → Bool
  | .int _ | .float _ => true
  | _ => false

def isString : Value → Bool
  | .str _ => true
  | _ => false

def arithComplaint (op : BinaryOp) (a b : Value) : Complaint :=
  if op.isBitwise then
    if isNumber a && isNumber b then .noInteger (if (Number.int? a).isSome then 1 else 0)
    else blame "perform bitwise operation on" isNumber a b
  else blame "perform arithmetic on" isNumber a b

def arith (h : Heap) (op : BinaryOp) (a b : Value) : Resolved :=
  match Number.arith? op a b with
  | some (.ok v) => .value v
  | some (.error .divisionByZero) => .trouble (.other (bytes "attempt to divide by zero"))
  | some (.error .moduloByZero) => .trouble (.other (bytes "attempt to perform 'n%0'"))
  | _ =>
    match h.eitherMetamethod a b op.event with
    | .nil => .trouble (arithComplaint op a b)
    | f => .call f [a, b]

def concat (h : Heap) (a b : Value) : Resolved :=
  match a.text?, b.text? with
  | some x, some y => .value (.str (x ++ y))
  | _, _ =>
    match h.eitherMetamethod a b "__concat" with
    | .nil => .trouble (blame "concatenate" (fun v => v.text?.isSome) a b)
    | f => .call f [a, b]

/-- Whether equality of two different objects may be decided by a metamethod. -/
def comparable : Value → Value → Bool
  | .table _, .table _ => true
  | .userdata _, .userdata _ => true
  | _, _ => false

/-- Equality; a call answers by the truth of its value. -/
def equal (h : Heap) (a b : Value) : Resolved :=
  if a.rawEq b then .value (.bool true)
  else if comparable a b then
    match h.eitherMetamethod a b "__eq" with
    | .nil => .value (.bool false)
    | f => .call f [a, b]
  else .value (.bool false)

def orderComplaint (h : Heap) (a b : Value) : Complaint :=
  let (x, y) := (h.typeLabel a, h.typeLabel b)
  if x == y then .other (bytes "attempt to compare two " ++ x ++ bytes " values")
  else .other (bytes "attempt to compare " ++ x ++ bytes " with " ++ y)

def order (h : Heap) (event : String) (numbers : Value → Value → Option Bool) (strings : Ordering → Bool)
    (a b : Value) : Resolved :=
  match a, b with
  | .str x, .str y => .value (.bool (strings (Bytes.cmp x y)))
  | a, b =>
    match numbers a b with
    | some answer => .value (.bool answer)
    | none =>
      match h.eitherMetamethod a b event with
      | .nil => .trouble (h.orderComplaint a b)
      | f => .call f [a, b]

def less (h : Heap) (a b : Value) : Resolved := h.order "__lt" Number.lt? (· == .lt) a b

def lessEq (h : Heap) (a b : Value) : Resolved := h.order "__le" Number.le? (· != .gt) a b

/-- An operation on two values. The answer of a call still has to be read by `BinaryOp.reading`. -/
def binary (h : Heap) (op : BinaryOp) (a b : Value) : Resolved :=
  match op with
  | .concat => h.concat a b
  | .eq => h.equal a b
  | .ne =>
    match h.equal a b with
    | .value (.bool answer) => .value (.bool !answer)
    | other => other
  | .lt => h.less a b
  | .le => h.lessEq a b
  | .gt => h.less b a
  | .ge => h.lessEq b a
  | op => h.arith op a b

def len (h : Heap) (a : Value) : Resolved :=
  match a with
  | .str s => .value (.int (Int64.ofNat s.size))
  | a =>
    match h.metamethod a "__len" with
    | .nil =>
      match a with
      | .table r => .value (.int (Int64.ofNat (h.table r).length))
      | a => .trouble (.wrongType "get length of" a (some 0))
    | f => .call f [a, a]

def negate (h : Heap) (a : Value) : Resolved :=
  match a with
  | .int n => .value (.int (0 - n))
  | .float x => .value (.float (-x))
  | a =>
    match h.metamethod a "__unm" with
    | .nil => .trouble (.wrongType "perform arithmetic on" a (some 0))
    | f => .call f [a, a]

def complement (h : Heap) (a : Value) : Resolved :=
  match Number.int? a with
  | some n => .value (.int (~~~n))
  | none =>
    match h.metamethod a "__bnot" with
    | .nil => .trouble (if isNumber a then .noInteger 0 else .wrongType "perform bitwise operation on" a (some 0))
    | f => .call f [a, a]

def unary (h : Heap) (op : UnaryOp) (a : Value) : Resolved :=
  match op with
  | .not => .value (.bool !a.truthy)
  | .len => h.len a
  | .neg => h.negate a
  | .bnot => h.complement a

end Heap

/-- How the answer of a call for an operator is read: as a value, as a truth, or as its opposite. -/
inductive AnswerKind where
  | value
  | truth
  | opposite
  deriving DecidableEq, Repr

def BinaryOp.reading : BinaryOp → AnswerKind
  | .eq | .lt | .le | .gt | .ge => .truth
  | .ne => .opposite
  | _ => .value

def AnswerKind.apply : AnswerKind → Value → Value
  | value, v => v
  | truth, v => .bool v.truthy
  | opposite, v => .bool !v.truthy

end ScriptHost.Lua
