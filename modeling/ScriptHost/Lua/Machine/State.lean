import ScriptHost.Lua.Library

/-! # The state of the machine

The machine evaluates step by step, with everything that is left to do on explicit stacks: what a script function still
has to do is a list of continuations, what the calls under way still have to do is a list of frames, and coroutines are
further lists of frames. -/

namespace ScriptHost.Lua

/-- A variable of a function under way. One that a closure captured lives in a cell of the store. -/
inductive Slot where
  | plain (v : Value)
  | shared (cell : Nat)

instance : Inhabited Slot := ⟨.plain .nil⟩

/-- An operand. A variable is read only when the operation is carried out. -/
inductive Operand where
  | value (v : Value)
  | slot (i : Nat)
  | captured (i : Nat)

inductive Place where
  | slot (i : Nat)
  | captured (i : Nat)
  | index (object key : Operand) (label : Option Label)

/-- What is done with the values of a list of expressions. -/
inductive Goal where
  /-- The first value is called with the others. -/
  | call (line : Nat) (label : Option Label)
  | tailCall (line : Nat) (label : Option Label)
  | return
  | declare (line first count : Nat) (close : Option (Nat × Bytes))
  | assign (line : Nat) (places : List Place)
  | count (line slot : Nat) (body : List Stmt)
  | forEach (line closeLine slot count : Nat) (body : List Stmt)
  | items (table next : Nat)

inductive Exit where
  | fall
  | break
  | goto (label : Bytes)
  | return (vs : List Value)

structure PendingStore where
  line : Nat
  values : List Expr
  places : List Place
  rest : List Target

/-- The fields of a table that are left, and the items that wait to be stored, the last one first. -/
structure PendingTable where
  table : Nat
  next : Nat
  waiting : List Value
  rest : List Field

/-- What is left to do in a function once a value, some values, or the end of a statement arrives. -/
inductive Kont where
  | operand (e : Expr) (taken : List Operand) (rest : List Expr)
  | objectOf (p : PendingStore) (key : Expr) (label : Option Label)
  | keyOf (p : PendingStore) (object : Operand) (label : Option Label)
  | shortcut (isAnd : Bool) (b : Expr)
  | branch (yes no : List Stmt)
  | loopTest (body : List Stmt)
  | element (taken : List Value) (rest : List Expr) (goal : Goal)
  | methodObject (tail : Bool) (line : Nat) (label : Option Label) (name : Bytes) (callLine : Nat) (args : List Expr)
  | methodOf (tail : Bool) (object : Value) (name : Bytes) (callLine : Nat) (args : List Expr)
  | fieldKey (p : PendingTable) (line : Nat) (value : Expr)
  | fieldValue (p : PendingTable) (line : Nat) (key : Operand)
  | item (p : PendingTable)
  /-- Joins the value to the operands on its left, the nearest one first. -/
  | joinLeft (line : Nat) (label : Option Label) (left : List (Value × Option Label))
  /-- Waits for values and takes the first. -/
  | only
  | answer (kind : AnswerKind)
  | spread (taken : List Value) (goal : Goal)
  /-- Waits for a call to end, and goes on with the next statement. -/
  | ignore
  | stores (line : Nat) (rest : List (Place × Value))
  | iterated (line slot count : Nat) (f state : Value) (body : List Stmt)
  | closed (exit : Exit)
  /-- The rest of a sequence of statements, and all of it. -/
  | block (rest whole : List Stmt)
  | whileLoop (cond : Expr) (body : List Stmt)
  | countLoop (slot : Nat) (left : Nat) (current step : Int64) (body : List Stmt)
  | floatLoop (slot : Nat) (current limit step : Float) (body : List Stmt)
  | eachLoop (line slot count : Nat) (f state control : Value) (body : List Stmt)
  | closing (v : Value)

/-- A call of a script function under way. What the function captured is apart from it. -/
structure Activation where
  proto : Proto
  slots : Array Slot
  varargs : List Value
  line : Nat
  kont : List Kont
  /-- The calls around it that take space of the machine's own. -/
  depth : Nat
  /-- The slots of all frames up to this one. -/
  weight : Nat

def memoryMessage : Bytes := bytes "not enough memory"

def handlerMessage : Bytes := bytes "error in error handling"

/-- An error that is raised. Only an ordinary one has an object of its own. -/
inductive Raised where
  | ordinary (v : Value)
  | memory
  | handler

namespace Raised

def object : Raised → Value
  | ordinary v => v
  | memory => .str memoryMessage
  | handler => .str handlerMessage

def isMemory : Raised → Bool
  | memory => true
  | _ => false

end Raised

structure Caller where
  name : Option Label
  own : String
  depth : Nat
  weight : Nat

abbrev Waiting := List Value → Heap → Resumption (List Value)

/-- A call under way, or something else that waits for one. -/
inductive Frame where
  | script (captured : Array Captured) (a : Activation)
  /-- A library function that waits for an answer; a handler makes it one that catches errors. -/
  | native (c : Caller) (guard : Option Handler) (k : Waiting)
  /-- Waits for the message handler, to go on with an error. -/
  | report (depth weight : Nat)
  /-- Closes values one by one, after an error or at the end of a coroutine. -/
  | closing (rest : List Value) (failure : Option Raised) (inherits : Bool) (depth weight : Nat)
  /-- A function of the host's own script, with its place in diagnostics. -/
  | glue (place : Bytes)

inductive Thread where
  | fresh (f : Value)
  | suspended (frames : List Frame) (c : Caller) (k : Waiting)
  | running
  | normal
  /-- Ended; after an error, with the values that are still to be closed. -/
  | dead (failure : Option Raised) (pending : List Value)

/-- What a script function can have done next. -/
inductive Task where
  | eval (e : Expr)
  | evalAll (e : Expr) (tail : Bool)
  | value (v : Value)
  | values (vs : List Value)
  | leave (x : Exit)
  | store (line : Nat) (pairs : List (Place × Value))
  | make (p : Proto) (slot : Option Nat)
  | call (f : Value) (args : List Value) (label : Option Label) (depth : Nat)
  | raise (e : Raised) (depth : Nat)

inductive Control where
  | task (t : Task)
  | native (c : Caller) (r : Resumption (List Value))
  | unwind (e : Raised)
  | host (frame : List Value) (c : Caller) (k : Waiting)
  | done (outcome : Except Raised (List Value))

/-- A coroutine, or the main one, that waits for another. -/
structure Resumer where
  thread : Nat
  frames : List Frame

structure Machine where
  heap : Heap
  vault : Vault
  control : Control
  frames : List Frame := []
  threads : Array Thread := #[.running]
  running : Nat := 0
  resumers : List Resumer := []
  /-- The slots of the stacks that have grown, by the numbers of their coroutines. -/
  grownStacks : Std.TreeMap Nat Nat := {}
  /-- How many bytes there may be in use besides those that the stacks have grown by, if there is a limit. -/
  limit : Option Nat := none
  platform : Platform := {}
  /-- Whether the message handler of the run was called. -/
  trapped : Bool := false

def Activation.place (a : Activation) : Bytes := a.proto.source ++ bytes s!":{a.line}: "

namespace Frame

def depth : Frame → Nat
  | script _ a => a.depth
  | native c .. => c.depth
  | report depth _ => depth
  | closing _ _ _ depth _ => depth
  | glue _ => 1

def weight : Frame → Nat
  | script _ a => a.weight
  | native c .. => c.weight
  | report _ weight => weight
  | closing _ _ _ _ weight => weight
  | glue _ => 0

def place : Frame → Bytes
  | script _ a => a.place
  | glue place => place
  | _ => bytes ""

/-- Whether a frame counts when functions are looked for up the stack. -/
def isLevel : Frame → Bool
  | closing .. => false
  | _ => true

/-- Whether a coroutine can yield past a frame. Of the library functions only `pairs` can wait for that long. -/
def letsYield : Frame → Bool
  | script .. => true
  | native c none _ => c.own == "pairs"
  | _ => false

end Frame

namespace Machine

def depth (m : Machine) : Nat := (m.frames.head?.map Frame.depth).getD 1

def weight (m : Machine) : Nat := (m.frames.head?.map Frame.weight).getD 0

def place (m : Machine) : Bytes := (m.frames.head?.map Frame.place).getD (bytes "")

def modifyHeap (m : Machine) (f : Heap → Heap) : Machine :=
  let h := m.heap
  let m := { m with heap := {} }
  { m with heap := f h }

def modifyVault (m : Machine) (f : Vault → Vault) : Machine :=
  let v := m.vault
  let m := { m with vault := {} }
  { m with vault := f v }

def addTable (m : Machine) (t : Table) : Nat × Machine :=
  let h := m.heap
  let m := { m with heap := {} }
  let (r, h) := h.addTable t
  (r, { m with heap := h })

def affords (m : Machine) (size : Nat) : Bool := size == 0 || m.heap.hasRoom m.limit size

/-- Adds something that library functions cannot reach, and charges what it takes. Whether there is memory for it is
asked before. -/
def addToVault {α : Type} (m : Machine) (f : Vault → α × Vault) : α × Machine :=
  let v := m.vault
  let before := v.footprint
  let m := { m with vault := {} }
  let (x, v) := f v
  let size := v.footprint - before
  (x, { m.modifyHeap (·.charge size) with vault := v })

def goto (m : Machine) (control : Control) : Machine := { m with control }

def proceed (m : Machine) (t : Task) : Machine := m.goto (.task t)

def fault (m : Machine) (message : Bytes) (depth : Nat) : Machine :=
  m.proceed (.raise (.ordinary (.str (m.place ++ message))) depth)

end Machine

/-- How many calls may be open that take space of the machine's own. -/
def callLimit : Nat := 200

/-- The calls beyond the limit that are left for handling the error. -/
def handlerLimit : Nat := 220

/-- The slots that all frames of a coroutine may have. -/
def stackLimit : Nat := 1000000

/-- The slots beyond the limit that are left for handling the error. -/
def handlerStack : Nat := 200

/-- The slots that the stack of a coroutine has at first. A stack takes memory when it grows, and gives it back at the end
of the run; the records of calls are not counted. -/
def firstStack : Nat := 40

def slotSize : Nat := 16

namespace Machine

def stack (m : Machine) : Nat := m.grownStacks.getD m.running firstStack

/-- The slots that the stack has once there are so many in use: it grows to twice its slots, or to more if that is not
enough. -/
def grown (m : Machine) (slots : Nat) : Nat :=
  if slots ≤ m.stack then m.stack else max slots (min (2 * m.stack) stackLimit)

def growth (m : Machine) (slots : Nat) : Nat := slotSize * (m.grown slots - m.stack)

def grow (m : Machine) (slots : Nat) : Machine :=
  { m with
    grownStacks := if slots ≤ m.stack then m.grownStacks else m.grownStacks.insert m.running (m.grown slots)
    limit := m.limit.map (· - m.growth slots) }

end Machine

def Task.deeper (place : Unit → Bytes) (f : Value) (args : List Value) (label : Option Label) (depth : Nat) : Task :=
  if handlerLimit ≤ depth + 1 then .raise .handler depth
  else if depth + 1 = callLimit then .raise (.ordinary (.str (place () ++ bytes "C stack overflow"))) callLimit
  else .call f args label (depth + 1)

/-- The function that a call of a value comes down to, with its arguments, or the value that cannot be called. -/
def Heap.callee (h : Heap) : Nat → Value → List Value → Except Value (Value × List Value)
  | 0, f, _ => .error f
  | fuel + 1, f, args =>
    if f.isFunction then .ok (f, args)
    else
      match h.metamethod f "__call" with
      | .nil => .error f
      | g => h.callee fuel g (f :: args)

end ScriptHost.Lua
