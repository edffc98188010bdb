import ScriptHost.Lua.Value

/-! # Resolved syntax

Scripts after scoping: every variable is a slot of its function or one of the variables that the function captured from
around it, and a global is a field of the captured environment. Nodes that can fail or call carry the line that
diagnostics name. -/

namespace ScriptHost.Lua

inductive UnaryOp where
  | neg | not | len | bnot
  deriving DecidableEq, Repr

/-- The operators on two values, the short-circuit ones apart. -/
inductive BinaryOp where
  | add | sub | mul | mod | pow | div | idiv
  | band | bor | bxor | shl | shr
  | concat
  | eq | ne | lt | le | gt | ge
  deriving DecidableEq, Repr

/-- Where a new closure finds a variable that it captures: in a slot of the function that makes it, or among the
variables that this function captured itself. -/
inductive Capture where
  | slot (i : Nat)
  | outer (i : Nat)
  deriving DecidableEq, Repr

mutual

inductive Expr where
  | const (v : Value)
  | slot (i : Nat) (name : Bytes)
  | captured (i : Nat) (name : Bytes)
  | vararg
  | function (p : Proto)
  | index (line : Nat) (object key : Expr)
  | call (line : Nat) (f : Expr) (args : List Expr)
  | method (line : Nat) (object : Expr) (name : Bytes) (callLine : Nat) (args : List Expr)
  | and (a b : Expr)
  | or (a b : Expr)
  | unary (line : Nat) (op : UnaryOp) (a : Expr)
  | binary (line : Nat) (op : BinaryOp) (a b : Expr)
  | table (line : Nat) (fields : List Field)
  /-- An expression in parentheses has one value. -/
  | single (e : Expr)

inductive Field where
  | keyed (line : Nat) (key value : Expr)
  | item (value : Expr)

/-- A function before it is closed over its environment. -/
inductive Proto where
  | mk (source : Bytes) (line : Nat) (params : Nat) (vararg : Bool) (captures : List Capture) (slots : Nat)
      (body : List Stmt)

inductive Target where
  | slot (i : Nat)
  | captured (i : Nat)
  | index (object key : Expr)

inductive Stmt where
  /-- Declares consecutive slots; at most one of the new variables is closed when its scope ends. -/
  | declare (line : Nat) (first count : Nat) (close : Option (Nat × Bytes)) (values : List Expr)
  | declareFunction (slot : Nat) (p : Proto)
  | assign (line : Nat) (targets : List Target) (values : List Expr)
  | call (e : Expr)
  | block (body : List Stmt)
  | while (cond : Expr) (body : List Stmt)
  | if (cond : Expr) (yes no : List Stmt)
  | count (line : Nat) (slot : Nat) (bounds : List Expr) (body : List Stmt)
  | forEach (line closeLine : Nat) (slot count : Nat) (values : List Expr) (body : List Stmt)
  | return (values : List Expr)
  | tailCall (e : Expr)
  | break
  | goto (label : Bytes)
  | label (name : Bytes)

end

namespace Proto

def source : Proto → Bytes
  | mk source .. => source

def line : Proto → Nat
  | mk _ line .. => line

def params : Proto → Nat
  | mk _ _ params .. => params

def isVararg : Proto → Bool
  | mk _ _ _ vararg .. => vararg

def captures : Proto → List Capture
  | mk _ _ _ _ captures .. => captures

def slots : Proto → Nat
  | mk _ _ _ _ _ slots _ => slots

def body : Proto → List Stmt
  | mk _ _ _ _ _ _ body => body

end Proto

inductive Label where
  | global (name : Bytes)
  | local (name : Bytes)
  | method (name : Bytes)
  | field (name : Bytes)
  | upvalue (name : Bytes)
  | constant (name : Bytes)
  | metamethod (name : Bytes)
  | iterator
  deriving DecidableEq

def Label.parts : Label → Bytes × Bytes
  | global n => (bytes "global", n)
  | «local» n => (bytes "local", n)
  | method n => (bytes "method", n)
  | field n => (bytes "field", n)
  | upvalue n => (bytes "upvalue", n)
  | constant n => (bytes "constant", n)
  | metamethod n => (bytes "metamethod", n)
  | iterator => (bytes "for iterator", bytes "for iterator")

/-- The name of the environment variable, of which globals are the fields. -/
def environmentName : Bytes := bytes "_ENV"

def Expr.isEnvironment : Expr → Bool
  | .slot _ name => name == environmentName
  | .captured _ name => name == environmentName
  | .single e => e.isEnvironment
  | _ => false

def Expr.label? : Expr → Option Label
  | .slot _ name => some (.local name)
  | .captured _ name => some (.upvalue name)
  | .const (.str s) => some (.constant s)
  | .index _ object key =>
    let name :=
      match key with
      | .const (.str s) => s
      | .const (.int n) => if 0 ≤ n && n ≤ 255 then bytes "integer index" else bytes "?"
      | _ => bytes "?"
    some (if object.isEnvironment then .global name else .field name)
  | .single e => e.label?
  | _ => none

def Expr.isMulti : Expr → Bool
  | .vararg | .call .. | .method .. => true
  | _ => false

end ScriptHost.Lua
