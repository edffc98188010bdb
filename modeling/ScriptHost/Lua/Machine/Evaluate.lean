import ScriptHost.Lua.Machine.State

/-! # Evaluating expressions and running statements

Every definition here works on the innermost script function alone. It changes the store of guest objects, reads what is
in scope, and says what is done next; the rest of the machine is out of its reach. What has to be evaluated first is put
on the continuations of the function, and the machine goes on from there. -/

namespace ScriptHost.Lua

def adjusted : Nat → List Value → List Value
  | 0, _ => []
  | n + 1, [] => .nil :: adjusted n []
  | n + 1, v :: vs => v :: adjusted n vs

def fillSlots (slots : Array Slot) : Nat → List Value → Array Slot
  | _, [] => slots
  | i, v :: vs => fillSlots (slots.setIfInBounds i (.plain v)) (i + 1) vs

/-- What a script function can read besides variables of its own. -/
structure Scope where
  cells : Array Value
  captured : Nat → Value
  /-- Whether a closure takes the place of the function that calls it last. -/
  replaces : Nat → Bool

namespace Activation

def read (a : Activation) (s : Scope) (i : Nat) : Value :=
  match a.slots[i]? with
  | some (.plain x) => x
  | some (.shared c) => s.cells[c]?.getD .nil
  | none => .nil

def declare (a : Activation) (first : Nat) (vs : List Value) : Activation :=
  { a with slots := fillSlots a.slots first vs }

def pushKont (a : Activation) (k : Kont) : Activation := { a with kont := k :: a.kont }

end Activation

def Operand.now (o : Operand) (s : Scope) (a : Activation) : Value :=
  match o with
  | value x => x
  | slot i => a.read s i
  | captured i => s.captured i

/-- The operand of an expression that needs no evaluation. -/
def Expr.operand? (e : Expr) (s : Scope) (a : Activation) : Option Operand :=
  match e with
  | .const x => some (.value x)
  | .slot i _ => some (.slot i)
  | .captured i _ => some (.value (s.captured i))
  | .vararg => some (.value (a.varargs.headD .nil))
  | .single (.slot i _) => some (.value (a.read s i))
  | .single (.captured i _) => some (.value (s.captured i))
  | .single .vararg => some (.value (a.varargs.headD .nil))
  | _ => none

def Expr.value? (e : Expr) (s : Scope) (a : Activation) : Option Value := (e.operand? s a).map fun o => o.now s a

def Expr.joined : Expr → List Expr
  | .binary _ .concat a b => a :: b.joined
  | e => [e]

def Expr.operands : Expr → List Expr
  | .index _ object key => [object, key]
  | .unary _ _ a => [a]
  | .binary line .concat a b => (Expr.binary line .concat a b).joined
  | .binary _ _ a b => [a, b]
  | _ => []

/-- Whether an operation reads its variables only when it is carried out. -/
def Expr.defers : Expr → Bool
  | .binary _ .concat _ _ => false
  | _ => true

def Expr.one (e : Expr) : Expr := if e.isMulti then .single e else e

/-- The operands up to the first that has to be evaluated, the last one first, and the others. -/
def takeOperands (s : Scope) (a : Activation) (defers : Bool) : List Operand → List Expr → List Operand × List Expr
  | taken, [] => (taken, [])
  | taken, e :: rest =>
    match e.operand? s a with
    | some o => takeOperands s a defers ((if defers then o else .value (o.now s a)) :: taken) rest
    | none => (taken, e :: rest)

/-- The values up to the first expression that has to be evaluated, the last one first, and the others. The last
expression is left if it has any number of values. -/
def takeValues (s : Scope) (a : Activation) : List Value → List Expr → List Value × List Expr
  | taken, [] => (taken, [])
  | taken, [e] => if e.isMulti then (taken, [e]) else
    match e.value? s a with
    | some x => (x :: taken, [])
    | none => (taken, [e])
  | taken, e :: rest =>
    match e.value? s a with
    | some x => takeValues s a (x :: taken) rest
    | none => (taken, e :: rest)

def afterLabel? (label : Bytes) : List Stmt → Option (List Stmt)
  | [] => none
  | .label name :: rest => if name == label then some rest else afterLabel? label rest
  | _ :: rest => afterLabel? label rest

def eventLabel (event : String) : Option Label := some (.metamethod (bytes (String.ofList (event.toList.drop 2))))

/-- What a script function works with: the store, how many bytes it may take, and what is in scope. -/
structure Workspace where
  heap : Heap
  limit : Option Nat
  scope : Scope

/-- What a script function comes to: the store, the function unless it has been left, and what is done next. -/
structure Turn where
  heap : Heap
  top : Option Activation
  next : Task

/-- How many bytes there may be in use, if there is a limit, and how many are in use. -/
structure Budget where
  limit : Option Nat
  used : Nat

/-- Raises an error of memory if the store has outgrown a budget that was set before. -/
@[noinline] def Turn.checked (t : Turn) (b : Budget) (depth : Nat) : Turn :=
  match b.limit with
  | none => t
  | some limit =>
    if t.heap.used ≤ limit ∨ t.heap.used ≤ b.used then t
    else { t with heap := { t.heap with used := b.used }, next := .raise .memory depth }

namespace Workspace

def modifyHeap (m : Workspace) (f : Heap → Heap) : Workspace :=
  let h := m.heap
  let m := { m with heap := {} }
  { m with heap := f h }

def addTable (m : Workspace) (t : Table) : Nat × Workspace :=
  let h := m.heap
  let m := { m with heap := {} }
  let (r, h) := h.addTable t
  (r, { m with heap := h })

/-- The budget at a time. It is no mere projection, so that a turn can take it and then change the store in place. -/
@[noinline] def budget (m : Workspace) : Budget := ⟨m.limit, m.heap.used⟩

def onTop (m : Workspace) (a : Activation) (next : Task) : Turn := ⟨m.heap, some a, next⟩

def quit (m : Workspace) (next : Task) : Turn := ⟨m.heap, none, next⟩

def complain (m : Workspace) (a : Activation) (line : Nat) (message : Bytes) : Turn :=
  let a := { a with line }
  m.onTop a (.raise (.ordinary (.str (a.place ++ message))) a.depth)

def callEvent (m : Workspace) (a : Activation) (line : Nat) (k : Kont) (f : Value) (args : List Value)
    (label : Option Label) : Turn :=
  let a := { a with line, kont := k :: a.kont }
  m.onTop a (.deeper (fun _ => a.place) f args label a.depth)

def resolved (m : Workspace) (a : Activation) (line : Nat) (labels : Nat → Option Label) (k : Kont)
    (event : Option Label) (r : Resolved) : Turn :=
  match r with
  | .value v => m.onTop a (.value v)
  | .call f args => m.callEvent a line k f args event
  | .trouble c => m.complain a line (c.message m.heap labels)

def twoLabels (x y : Option Label) (i : Nat) : Option Label := if i = 0 then x else y

def joinLeft (m : Workspace) (a : Activation) (line : Nat) :
    List (Value × Option Label) → Value → Option Label → Turn
  | [], v, _ => m.onTop a (.value v)
  | (u, label) :: left, v, right =>
    match m.heap.concat u v with
    | .value w => joinLeft (m.modifyHeap (·.charge ((w.text?.map (·.size)).getD 0))) a line left w label
    | .call f args =>
      m.callEvent { a with kont := .joinLeft line label left :: a.kont } line .only f args (eventLabel "__concat")
    | .trouble c => m.complain a line (c.message m.heap (twoLabels label right))

def perform (m : Workspace) (a : Activation) (e : Expr) (operands : List Operand) : Turn :=
  let values := operands.map fun o => o.now m.scope a
  match e, values with
  | .index line object _, [o, k] =>
    m.resolved a line (fun _ => object.label?) .only (eventLabel "__index") (m.heap.index o k)
  | .unary line op x, [v] =>
    m.resolved a line (fun _ => x.label?) .only (eventLabel op.event) (m.heap.unary op v)
  | .binary line .concat x y, values =>
    let b := m.budget
    match (values.zip ((Expr.binary line .concat x y).joined.map Expr.label?)).reverse with
    | (v, label) :: left => (m.joinLeft a line left v label).checked b a.depth
    | [] => m.onTop a (.value .nil)
  | .binary line op x y, [v, w] =>
    m.resolved a line (twoLabels x.label? y.label?) (.answer op.reading) (eventLabel op.event) (m.heap.binary op v w)
  | _, _ => m.onTop a (.value .nil)

def evalOperands (m : Workspace) (a : Activation) (e : Expr) (taken : List Operand) (rest : List Expr) : Turn :=
  match takeOperands m.scope a e.defers taken rest with
  | (taken, []) => m.perform a e taken.reverse
  | (taken, x :: rest) => m.onTop (a.pushKont (.operand e taken rest)) (.eval x)

def loopNumber (h : Heap) (what : String) (v : Value) : Except Bytes Value :=
  match v.number? with
  | some n => .ok n
  | none => .error (bytes s!"bad 'for' {what} (number expected, got " ++ h.typeLabel v ++ bytes ")")

inductive Counting where
  | skip
  | ints (first step : Int64) (left : Nat)
  | floats (first limit step : Float)

/-- The last number that a loop over whole numbers can reach; none if it does not run. -/
def intLimit? (first step : Int64) (limit : Value) : Option Int :=
  let clipped : Option Int :=
    match limit with
    | .int n => some n.toInt
    | .float x =>
      match Number.exactInt? (if step < 0 then x.ceil else x.floor) with
      | some n => some n.toInt
      | none =>
        if 0 < x then if step < 0 then none else some (2 ^ 63 - 1)
        else if x < 0 then if 0 < step then none else some (-(2 ^ 63))
        else none
    | _ => none
  clipped.filter fun n => if 0 < step then first.toInt ≤ n else n ≤ first.toInt

def counting (h : Heap) (bounds : List Value) : Except Bytes Counting := do
  let (first, limit, step) : Value × Value × Value :=
    match bounds with
    | [first, limit, step] => (first, limit, step)
    | [first, limit] => (first, limit, .int 1)
    | _ => (.nil, .nil, .nil)
  let zero : Except Bytes Counting := .error (bytes "'for' step is zero")
  match first, step with
  | .int i, .int s =>
    if s = 0 then zero
    else
      let limit ← loopNumber h "limit" limit
      match intLimit? i s limit with
      | some n => .ok (.ints i s ((n - i.toInt).natAbs / s.toInt.natAbs))
      | none => .ok .skip
  | first, step =>
    let limit := (Number.float? (← loopNumber h "limit" limit)).getD 0
    let step := (Number.float? (← loopNumber h "step" step)).getD 0
    let first := (Number.float? (← loopNumber h "initial value" first)).getD 0
    if step == 0 then zero
    else if (if 0 < step then limit < first else first < limit) then .ok .skip
    else .ok (.floats first limit step)

def runBody (m : Workspace) (a : Activation) (slot : Nat) (vs : List Value) (loop : Kont) (body : List Stmt) : Turn :=
  let a := a.declare slot vs
  m.onTop { a with kont := .block body body :: loop :: a.kont } (.leave .fall)

def startCounting (m : Workspace) (a : Activation) (line slot : Nat) (body : List Stmt) (bounds : List Value) : Turn :=
  match counting m.heap bounds with
  | .error message => m.complain a line message
  | .ok .skip => m.onTop a (.leave .fall)
  | .ok (.ints first step left) => m.runBody a slot [.int first] (.countLoop slot left first step body) body
  | .ok (.floats first limit step) => m.runBody a slot [.float first] (.floatLoop slot first limit step body) body

def isClosable (h : Heap) (v : Value) : Bool := !v.truthy || !(h.metamethod v "__close").isNil

def notClosable (name : Bytes) : Bytes := bytes "variable " ++ Lexer.quote name ++ bytes " got a non-closable value"

def startEach (m : Workspace) (a : Activation) (line closeLine slot count : Nat) (body : List Stmt) (vs : List Value) :
    Turn :=
  match adjusted 4 vs with
  | [f, state, control, closing] =>
    if !isClosable m.heap closing then m.complain a closeLine (notClosable (bytes "(for state)"))
    else
      let kont := if closing.truthy then .closing closing :: a.kont else a.kont
      m.onTop { a with kont := .eachLoop line slot count f state control body :: kont } (.leave .fall)
  | _ => m.onTop a (.leave .fall)

/-- Declares variables. From one that is to be closed on, the rest of the block is a scope of its own. -/
def declareAll (m : Workspace) (a : Activation) (line first count : Nat) (close : Option (Nat × Bytes))
    (vs : List Value) : Turn :=
  let a := a.declare first (adjusted count vs)
  match close with
  | none => m.onTop a (.leave .fall)
  | some (slot, name) =>
    let v := a.read m.scope slot
    if !isClosable m.heap v then m.complain a line (notClosable name)
    else if !v.truthy then m.onTop a (.leave .fall)
    else
      match a.kont with
      | .block rest whole :: ks =>
        m.onTop { a with kont := .block rest rest :: .closing v :: .block [] whole :: ks } (.leave .fall)
      | ks => m.onTop { a with kont := .closing v :: ks } (.leave .fall)

/-- Leaves a script function for the one that it calls last; a library function is called as any other. -/
def callLast (m : Workspace) (a : Activation) (line : Nat) (label : Option Label) (f : Value) (args : List Value) :
    Turn :=
  let replaces : Bool :=
    match m.heap.callee callLimit f args with
    | .ok (.closure r, _) => m.scope.replaces r
    | _ => false
  if replaces then m.quit (.call f args none a.depth)
  else m.onTop { a with line, kont := .spread [] .return :: a.kont } (.call f args label a.depth)

def reach (m : Workspace) (a : Activation) (goal : Goal) (vs : List Value) : Turn :=
  match goal with
  | .call line label => m.onTop { a with line } (.call (vs.headD .nil) (vs.drop 1) label a.depth)
  | .tailCall line label => m.callLast a line label (vs.headD .nil) (vs.drop 1)
  | .return => m.onTop a (.leave (.return vs))
  | .declare line first count close => m.declareAll a line first count close vs
  | .assign line places =>
    m.onTop a (.store line ((places.zip (adjusted places.length vs)).reverse))
  | .count line slot body => m.startCounting a line slot body vs
  | .forEach line closeLine slot count body => m.startEach a line closeLine slot count body vs
  | .items table next =>
    (m.modifyHeap (·.modifyTable table (·.storeRow next vs))).onTop a (.value (.table table))

def evalList (m : Workspace) (a : Activation) (taken : List Value) (rest : List Expr) (goal : Goal) : Turn :=
  match takeValues m.scope a taken rest with
  | (taken, []) => m.reach a goal taken.reverse
  | (taken, [e]) =>
    if e.isMulti then
      match e with
      | .vararg => m.reach a goal (taken.reverse ++ a.varargs)
      | e => m.onTop (a.pushKont (.spread taken goal)) (.evalAll e false)
    else m.onTop (a.pushKont (.element taken [] goal)) (.eval e)
  | (taken, e :: rest) => m.onTop (a.pushKont (.element taken rest goal)) (.eval e)

def callMethod (m : Workspace) (a : Activation) (tail : Bool) (object f : Value) (name : Bytes) (callLine : Nat)
    (args : List Expr) : Turn :=
  let label := some (Label.method name)
  m.evalList a [object, f] args (if tail then .tailCall callLine label else .call callLine label)

def findMethod (m : Workspace) (a : Activation) (tail : Bool) (line : Nat) (label : Option Label) (object : Value)
    (name : Bytes) (callLine : Nat) (args : List Expr) : Turn :=
  m.resolved (a.pushKont (.methodOf tail object name callLine args)) line (fun _ => label) .only (eventLabel "__index")
    (m.heap.index object (.str name))

def evalAll (m : Workspace) (a : Activation) (tail : Bool) (e : Expr) : Turn :=
  match e with
  | .call line f args => m.evalList a [] (f.one :: args) (if tail then .tailCall line f.label? else .call line f.label?)
  | .method line object name callLine args =>
    match object.value? m.scope a with
    | some o => m.findMethod a tail line object.label? o name callLine args
    | none => m.onTop (a.pushKont (.methodObject tail line object.label? name callLine args)) (.eval object)
  | .vararg => m.onTop a (.values a.varargs)
  | e => m.onTop a (.eval e)

def itemsPerStore : Nat := 50

def addItem (m : Workspace) (p : PendingTable) (v : Value) : Workspace × PendingTable :=
  let p := { p with waiting := v :: p.waiting }
  if p.waiting.length = itemsPerStore then
    (m.modifyHeap (·.modifyTable p.table (·.storeRow p.next p.waiting.reverse)),
      { p with waiting := [], next := p.next + itemsPerStore })
  else (m, p)

def fieldTrouble? (m : Workspace) (a : Activation) (p : PendingTable) (key : Operand) : Option Bytes :=
  match Heap.rawStore p.table (key.now m.scope a) with
  | .trouble c => some (c.message m.heap fun _ => none)
  | _ => none

def addField (m : Workspace) (a : Activation) (p : PendingTable) (key : Operand) (v : Value) : Workspace :=
  let k := key.now m.scope a
  m.modifyHeap (·.rawSet p.table k v)

def fillTable (m : Workspace) (a : Activation) (p : PendingTable) : List Field → Turn
  | [] =>
    (m.modifyHeap (·.modifyTable p.table (·.storeRow p.next p.waiting.reverse))).onTop a (.value (.table p.table))
  | .item e :: rest =>
    if rest.isEmpty && e.isMulti then m.evalList a p.waiting [e] (.items p.table p.next)
    else
      match e.value? m.scope a with
      | some v =>
        let (m, p) := m.addItem p v
        fillTable m a p rest
      | none => m.onTop (a.pushKont (.item { p with rest })) (.eval e)
  | .keyed line key value :: rest =>
    match key.operand? m.scope a with
    | none => m.onTop (a.pushKont (.fieldKey { p with rest } line value)) (.eval key)
    | some k =>
      match value.value? m.scope a with
      | none => m.onTop (a.pushKont (.fieldValue { p with rest } line k)) (.eval value)
      | some v =>
        match m.fieldTrouble? a p k with
        | none => fillTable (m.addField a p k v) a p rest
        | some message => m.complain a line message

def tableSizes : List Field → Nat × Nat
  | [] => (0, 0)
  | [.item e] => (if e.isMulti then 0 else 1, 0)
  | .item _ :: rest => let (items, keys) := tableSizes rest; (items + 1, keys)
  | .keyed .. :: rest => let (items, keys) := tableSizes rest; (items, keys + 1)

def startTable (m : Workspace) (a : Activation) (fields : List Field) : Turn :=
  let b := m.budget
  let (items, keys) := tableSizes fields
  let (r, m) := m.addTable (.sized items keys)
  (m.fillTable a ⟨r, 0, [], []⟩ fields).checked b a.depth

def eval (m : Workspace) (a : Activation) (e : Expr) : Turn :=
  match e with
  | .const v => m.onTop a (.value v)
  | .slot i _ => m.onTop a (.value (a.read m.scope i))
  | .captured i _ => m.onTop a (.value (m.scope.captured i))
  | .vararg => m.onTop a (.value (a.varargs.headD .nil))
  | .function p => m.onTop a (.make p none)
  | .and x y => m.onTop (a.pushKont (.shortcut true y)) (.eval x)
  | .or x y => m.onTop (a.pushKont (.shortcut false y)) (.eval x)
  | .table _ fields => m.startTable a fields
  | .single e => m.onTop a (.eval e)
  | .call line f args => m.onTop (a.pushKont .only) (.evalAll (.call line f args) false)
  | .method line object name callLine args =>
    m.onTop (a.pushKont .only) (.evalAll (.method line object name callLine args) false)
  | e => m.evalOperands a e [] e.operands

/-- Whether the object of a store is read only when the store is carried out. -/
def Expr.storedLate (object key : Expr) : Option Operand :=
  match object, key with
  | .captured i _, .const (.str s) => if s.size ≤ 40 then some (.captured i) else none
  | _, _ => none

def evalPlaces (m : Workspace) (a : Activation) (p : PendingStore) : List Target → Turn
  | [] => m.evalList a [] p.values (.assign p.line p.places.reverse)
  | .slot i :: rest => evalPlaces m a { p with places := .slot i :: p.places } rest
  | .captured i :: rest => evalPlaces m a { p with places := .captured i :: p.places } rest
  | .index object key :: rest =>
    let label := object.label?
    match (Expr.storedLate object key).or (object.operand? m.scope a) with
    | none => m.onTop (a.pushKont (.objectOf { p with rest } key label)) (.eval object)
    | some o =>
      match key.operand? m.scope a with
      | none => m.onTop (a.pushKont (.keyOf { p with rest } o label)) (.eval key)
      | some k => evalPlaces m a { p with places := .index o k label :: p.places } rest

def chooseBranch (m : Workspace) (a : Activation) (chosen : List Stmt) : Turn :=
  match chosen with
  | [] => m.onTop a (.leave .fall)
  | body => m.onTop (a.pushKont (.block body body)) (.leave .fall)

def exec (m : Workspace) (a : Activation) (s : Stmt) : Turn :=
  match s with
  | .declare line first count close values => m.evalList a [] values (.declare line first count close)
  | .declareFunction slot p => m.onTop (a.declare slot [.nil]) (.make p (some slot))
  | .assign line targets values => m.evalPlaces a ⟨line, values, [], []⟩ targets
  | .call e => m.onTop (a.pushKont .ignore) (.evalAll e false)
  | .block body => m.chooseBranch a body
  | .while cond body => m.onTop (a.pushKont (.whileLoop cond body)) (.leave .fall)
  | .if cond yes no =>
    match cond.value? m.scope a with
    | some v => m.chooseBranch a (if v.truthy then yes else no)
    | none => m.onTop (a.pushKont (.branch yes no)) (.eval cond)
  | .count line slot bounds body => m.evalList a [] bounds (.count line slot body)
  | .forEach line closeLine slot count values body => m.evalList a [] values (.forEach line closeLine slot count body)
  | .return values => m.evalList a [] values .return
  | .tailCall e => m.onTop a (.evalAll e true)
  | .break => m.onTop a (.leave .break)
  | .goto label => m.onTop a (.leave (.goto label))
  | .label _ => m.onTop a (.leave .fall)

def nextRound (m : Workspace) (a : Activation) (loop : Kont) : Turn :=
  match loop with
  | .whileLoop cond body =>
    match cond with
    | .const v =>
      if v.truthy then m.onTop { a with kont := .block body body :: loop :: a.kont } (.leave .fall)
      else m.onTop a (.leave .fall)
    | cond => m.onTop { a with kont := .loopTest body :: loop :: a.kont } (.eval cond)
  | .countLoop slot left current step body =>
    match left with
    | 0 => m.onTop a (.leave .fall)
    | left + 1 =>
      let current := current + step
      m.runBody a slot [.int current] (.countLoop slot left current step body) body
  | .floatLoop slot current limit step body =>
    let current := current + step
    if (if 0 < step then current ≤ limit else limit ≤ current) then
      m.runBody a slot [.float current] (.floatLoop slot current limit step body) body
    else m.onTop a (.leave .fall)
  | .eachLoop line slot count f state control body =>
    m.callEvent a line (.iterated line slot count f state body) f [state, control] (some .iterator)
  | _ => m.onTop a (.leave .fall)

/-- Leaves one continuation of a script function; at the end of all of them the function returns. -/
def leave (m : Workspace) (a : Activation) (x : Exit) : Turn :=
  match a.kont with
  | [] =>
    m.quit (.values (match x with
      | .return vs => vs
      | _ => []))
  | k :: kont =>
    let a := { a with kont }
    match k, x with
    | .block (s :: rest) whole, .fall => m.exec { a with kont := .block rest whole :: a.kont } s
    | .block _ whole, .goto label =>
      match afterLabel? label whole with
      | some rest => m.onTop { a with kont := .block rest whole :: a.kont } (.leave .fall)
      | none => m.onTop a (.leave x)
    | .closing v, x =>
      m.callEvent a a.line (.closed x) (m.heap.metamethod v "__close") [v, .nil] (eventLabel "__close")
    | .whileLoop .., .break | .countLoop .., .break | .floatLoop .., .break | .eachLoop .., .break =>
      m.onTop a (.leave .fall)
    | loop, .fall => m.nextRound a loop
    | _, x => m.onTop a (.leave x)

def receive (m : Workspace) (a : Activation) (v : Value) : Turn :=
  match a.kont with
  | [] => m.quit (.values [v])
  | k :: kont =>
    let a := { a with kont }
    match k with
    | .operand e taken rest => m.evalOperands a e (.value v :: taken) rest
    | .objectOf p key label =>
      match key.operand? m.scope a with
      | none => m.onTop (a.pushKont (.keyOf p (.value v) label)) (.eval key)
      | some k => m.evalPlaces a { p with places := .index (.value v) k label :: p.places } p.rest
    | .keyOf p object label => m.evalPlaces a { p with places := .index object (.value v) label :: p.places } p.rest
    | .shortcut isAnd b => if v.truthy == isAnd then m.onTop a (.eval b) else m.onTop a (.value v)
    | .branch yes no => m.chooseBranch a (if v.truthy then yes else no)
    | .loopTest body =>
      if v.truthy then m.onTop (a.pushKont (.block body body)) (.leave .fall)
      else m.onTop { a with kont := a.kont.drop 1 } (.leave .fall)
    | .element taken rest goal => m.evalList a (v :: taken) rest goal
    | .methodObject tail line label name callLine args => m.findMethod a tail line label v name callLine args
    | .methodOf tail object name callLine args => m.callMethod a tail object v name callLine args
    | .fieldKey p line value =>
      match value.value? m.scope a with
      | none => m.onTop (a.pushKont (.fieldValue p line (.value v))) (.eval value)
      | some w =>
        match m.fieldTrouble? a p (.value v) with
        | none => (m.addField a p (.value v) w).fillTable a p p.rest
        | some message => m.complain a line message
    | .fieldValue p line key =>
      match m.fieldTrouble? a p key with
      | none => (m.addField a p key v).fillTable a p p.rest
      | some message => m.complain a line message
    | .item p =>
      let (m, p) := m.addItem p v
      m.fillTable a p p.rest
    | .joinLeft line label left => m.joinLeft a line left v label
    | _ => m.onTop a (.value v)

def receiveAll (m : Workspace) (a : Activation) (vs : List Value) : Turn :=
  match a.kont with
  | [] => m.quit (.values vs)
  | k :: kont =>
    let a := { a with kont }
    match k with
    | .only => m.onTop a (.value (vs.headD .nil))
    | .answer kind => m.onTop a (.value (kind.apply (vs.headD .nil)))
    | .spread taken goal => m.reach a goal (taken.reverse ++ vs)
    | .ignore => m.onTop a (.leave .fall)
    | .stores line rest => m.onTop a (.store line rest)
    | .iterated line slot count f state body =>
      let vs := adjusted count vs
      match vs.headD .nil with
      | .nil => m.onTop a (.leave .fall)
      | control => m.runBody a slot vs (.eachLoop line slot count f state control body) body
    | .closed x => m.onTop a (.leave x)
    | _ => m.onTop a (.values vs)

end Workspace

end ScriptHost.Lua
