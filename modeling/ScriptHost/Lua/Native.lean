import ScriptHost.Lua.Operation
import ScriptHost.Lua.Vault

/-! # Library functions as resumptions

A library function works on the store until it is done or fails, or until it needs something that only the machine can
do, such as calling a function. Then it asks, and goes on with the answer. -/

namespace ScriptHost.Lua

/-- How errors below a protected call are handled: not at all before they are caught, by a function, or as around the
call. -/
inductive Handler where
  | none
  | function (f : Value)
  | inherited

/-- What a library function asks of the machine. All answers are lists of values. -/
inductive Request where
  | call (f : Value) (args : List Value)
  /-- True and the results of a call, or false and the error object that it raised. -/
  | protect (handler : Handler) (f : Value) (args : List Value)
  | spawn (f : Value)
  /-- True and the values that a coroutine gives, or false and an error object. -/
  | resume (thread : Nat) (args : List Value)
  /-- The values of the next resume. -/
  | yield (vs : List Value)
  | close (thread : Nat)
  | status (thread : Nat)
  /-- Whether a coroutine ended by an error, and whether by one of memory. -/
  | failed (thread : Nat)
  /-- The running coroutine, and whether it is the main one. -/
  | running
  | yieldable
  /-- The prefix of diagnostics about the function at a level of the stack. -/
  | position (level : Nat)
  /-- How many calls are open that take space of the machine's own. -/
  | depth
  /-- Memory; answers nothing, and there is an error of memory if the request cannot be met. -/
  | claim (size : Nat)
  /-- The result of a call to the host. -/
  | host (frame : List Value)
  /-- A new closure that keeps values for a library function. -/
  | bind (f : Bound)
  /-- Moves a closure that gives matches behind the last one; answers nothing. -/
  | advance (closure position : Nat)
  /-- The function of a compiled chunk, in the given environment or else in the table of globals. -/
  | chunk (p : Proto) (environment : Option Value)
  /-- The text of an error object. -/
  | errorText (error : Nat)
  /-- Notes that the message handler of the run was called; answers nothing. -/
  | trap

/-- The bytes that have to be at hand for a request; for a call to the host, those of the error that it may raise. -/
def Request.size : Request → Nat
  | .bind _ => Vault.closureSize
  | .chunk .. => 2 * Vault.closureSize
  | .host _ => Vault.errorSize
  | _ => 0

inductive Fault where
  | object (v : Value)
  /-- A message about the place of the call. -/
  | message (text : Bytes)
  /-- A message that names no place. -/
  | bare (text : Bytes)
  /-- A complaint about an argument, counted from one. -/
  | argument (position : Nat) (text : Bytes)
  | memory

inductive Resumption (α : Type) where
  | done (a : α) (h : Heap)
  | fault (f : Fault) (h : Heap)
  | ask (r : Request) (h : Heap) (k : List Value → Heap → Resumption α)

def Resumption.bind {α β : Type} : Resumption α → (α → Heap → Resumption β) → Resumption β
  | done a h, f => f a h
  | fault e h, _ => .fault e h
  | ask r h k, f => .ask r h fun vs h => (k vs h).bind f

abbrev Native (α : Type) := Heap → Resumption α

namespace Native

instance : Monad Native where
  pure a := fun h => .done a h
  bind m f := fun h => (m h).bind fun a h => f a h

variable {α : Type}

def view (f : Heap → α) : Native α := fun h => .done (f h) h

def update (f : Heap → Heap) : Native Unit := fun h => .done () (f h)

def make (f : Heap → α × Heap) : Native α := fun h => let (a, h) := f h; .done a h

def fail (f : Fault) : Native α := fun h => .fault f h

def ask (r : Request) : Native (List Value) := fun h => .ask r h fun vs h => .done vs h

def error (message : String) : Native α := fail (.message (bytes message))

def errorBytes (message : Bytes) : Native α := fail (.message message)

def badArgument (position : Nat) (message : String) : Native α := fail (.argument position (bytes message))

def claim (size : Nat) : Native Unit := do let _ ← ask (.claim size)

def call (f : Value) (args : List Value) : Native (List Value) := ask (.call f args)

def first (vs : List Value) : Value := vs.headD .nil

def call1 (f : Value) (args : List Value) : Native Value := return first (← call f args)

def resolve (r : Heap → Resolved) : Native Value := fun h =>
  match r h with
  | .value v => .done v h
  | .call f args => call1 f args h
  | .trouble c => .fault (.bare (c.message h fun _ => none)) h

def index (o k : Value) : Native Value := resolve fun h => h.index o k

def store (o k v : Value) : Native Unit := fun h =>
  match h.store o k v with
  | .into r => .done () (h.rawSet r k v)
  | .call f args => .ask (.call f args) h fun _ h => .done () h
  | .trouble c => .fault (.bare (c.message h fun _ => none)) h

def less (a b : Value) : Native Bool := return (← resolve fun h => h.less a b).truthy

def equal (a b : Value) : Native Bool := return (← resolve fun h => h.equal a b).truthy

def lengthOf (o : Value) : Native Int64 := do
  match Number.int? (← resolve fun h => h.len o) with
  | some n => return n
  | none => error "object length is not an integer"

def tableAt (r : Nat) : Native Table := view fun h => h.table r

def newTable (t : Table) : Native Value := do return .table (← make fun h => h.addTable t)

def arg (args : List Value) (n : Nat) : Value := args[n - 1]?.getD .nil

def isGiven (args : List Value) (n : Nat) : Bool := n ≤ args.length

def isNone (args : List Value) (n : Nat) : Bool := (arg args n).isNil

def argumentType (h : Heap) (args : List Value) (n : Nat) : Bytes :=
  if !isGiven args n then bytes "no value"
  else
    match arg args n, h.metamethod (arg args n) "__name" with
    | .str _, _ => bytes "string"
    | _, .str s => s
    | .lightUserdata _, _ => bytes "light userdata"
    | v, _ => bytes v.typeName

def typeError (args : List Value) (n : Nat) (expected : String) : Native α := fun h =>
  .fault (.argument n (bytes s!"{expected} expected, got " ++ argumentType h args n)) h

def checkAny (args : List Value) (n : Nat) : Native Value :=
  if isGiven args n then pure (arg args n) else badArgument n "value expected"

/-- A number as an argument; a string that spells one will do. -/
def checkNumber (args : List Value) (n : Nat) : Native Value :=
  match (arg args n).number? with
  | some v => pure v
  | none => typeError args n "number"

def checkFloat (args : List Value) (n : Nat) : Native Float := do
  return (Number.float? (← checkNumber args n)).getD 0

def checkInt (args : List Value) (n : Nat) : Native Int64 := do
  let v ← checkNumber args n
  match Number.int? v with
  | some i => return i
  | none => badArgument n "number has no integer representation"

def optInt (args : List Value) (n : Nat) (default : Int64) : Native Int64 :=
  if isNone args n then pure default else checkInt args n

/-- A string as an argument; a number will do. -/
def checkString (args : List Value) (n : Nat) : Native Bytes :=
  match (arg args n).text? with
  | some s => pure s
  | none => typeError args n "string"

def optString (args : List Value) (n : Nat) (default : Bytes) : Native Bytes :=
  if isNone args n then pure default else checkString args n

def checkTable (args : List Value) (n : Nat) : Native Nat :=
  match arg args n with
  | .table r => pure r
  | _ => typeError args n "table"

def checkFunction (args : List Value) (n : Nat) : Native Value :=
  let f := arg args n
  if f.isFunction then pure f else typeError args n "function"

def objectText (h : Heap) (v : Value) : Bytes :=
  let kind :=
    match h.metamethod v "__name" with
    | .str s => s
    | _ => bytes v.typeName
  kind ++ bytes (": " ++ Marshal.addressText v)

def plainText (v : Value) : Native Bytes := do
  match v with
  | .nil => return bytes "nil"
  | .bool b => return bytes (if b then "true" else "false")
  | .str s => return s
  | .error r => return ((first (← ask (.errorText r))).text?).getD (bytes "")
  | v => view fun h => v.text?.getD (objectText h v)

def textOf (v : Value) : Native Bytes := do
  match ← view fun h => h.metamethod v "__tostring" with
  | .nil => plainText v
  | f =>
    match ← call1 f [v] with
    | .str s => return s
    | .int n => return bytes (toString n.toInt)
    | .float x => return bytes (Number.floatText x)
    | _ => error "'__tostring' must return a string"

end Native

end ScriptHost.Lua
