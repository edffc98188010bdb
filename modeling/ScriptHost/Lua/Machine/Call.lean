import ScriptHost.Lua.Machine.Evaluate

/-! # Calls

Entering functions, answering what library functions ask, raising errors and switching between coroutines. -/

namespace ScriptHost.Lua

def Activation.start (p : Proto) (args : List Value) (depth weight : Nat) : Activation where
  proto := p
  slots := fillSlots (Array.replicate p.slots (.plain .nil)) 0 (args.take p.params)
  varargs := if p.isVararg then args.drop p.params else []
  line := p.line
  kont := [.block p.body p.body]
  depth
  weight

def Proto.room (p : Proto) (args : List Value) : Nat := p.slots + 1 + if p.isVararg then args.length else 0

/-- Why a call cannot have so many more slots, if it cannot: the stack overflows at the first such call, and the error is
handled on the slots that are left for this. -/
@[inline] def overflow? (place : Unit → Bytes) (weight more depth : Nat) : Option Control :=
  if stackLimit < weight + more ∧ weight ≤ stackLimit then
    some (.task (.raise (.ordinary (.str (place () ++ bytes "stack overflow"))) depth))
  else if stackLimit + handlerStack < weight + more then some (.unwind .handler)
  else none

/-- The slots that a function takes which keeps values. Those of a proxy are functions of a script, and the function of a
name calls others of the library, which have twenty; the library counts its own. -/
def Bound.room (args : List Value) : Bound → Nat
  | namespaceField _ => 4
  | member .. => 26 + args.length
  | _ => 0

/-- The values that a function passes on to the host, which are put on the stack once more for this. -/
def Bound.passed (args : List Value) : Bound → Nat
  | member _ _ object => if (Native.arg args 1).rawEq object then args.length - 1 else 0
  | _ => 0

/-- Where the function of a name passes a call on, as the front of a diagnostic. -/
def memberPlace : Bytes := bytes "lb-prelude:18: "

/-- The bytes that the text of a complaint takes, by estimate. -/
def complaintSize : Nat := 100

def Bound.run (self : Nat) (f : Bound) (args : List Value) : Native (List Value) :=
  match f with
  | wrap t => Coroutine.wrapped t args
  | «matches» s pattern start lastEnd => Text.gmatchStep self s pattern start lastEnd
  | namespaceField space => Native.ask (.bind (.member space (Native.arg args 2) (Native.arg args 1)))
  | member space name object => do
    if !(Native.arg args 1).rawEq object then
      Native.claim complaintSize
      Native.error "use ns:func() syntax"
    Native.ask (.host (.str space :: name :: args.drop 1))

namespace Machine

def push (m : Machine) (f : Frame) : Machine := { m with frames := f :: m.frames }

def runNative (m : Machine) (c : Caller) (f : Heap → Resumption (List Value)) : Machine :=
  let h := m.heap
  let m := { m with heap := {} }
  m.goto (.native c (f h))

/-- Goes on with so many slots in use, if there is memory for the stack. -/
@[inline] def withStack (m : Machine) (slots depth : Nat) (f : Machine → Machine) : Machine :=
  if m.affords (m.growth slots) then f (m.grow slots) else m.proceed (.raise .memory depth)

def enterScript (m : Machine) (p : Proto) (captured : Array Captured) (args : List Value) (depth : Nat) : Machine :=
  match overflow? (fun _ => m.place) m.weight (p.room args) depth with
  | some control => m.goto control
  | none =>
    let weight := m.weight + p.room args
    m.withStack weight depth fun m => (m.push (.script captured (.start p args depth weight))).proceed (.leave .fall)

def enterBound (m : Machine) (r : Nat) (g : Bound) (args : List Value) (label : Option Label) (depth : Nat) : Machine :=
  let entry := overflow? (fun _ => m.place) m.weight (g.room args) depth
  match entry.or (overflow? (fun _ => memberPlace) (m.weight + g.room args) (g.passed args) depth) with
  | some control => m.goto control
  | none =>
    m.withStack (m.weight + g.room args + g.passed args) depth fun m =>
      m.runNative ⟨label, "?", depth, m.weight⟩ (g.run r args)

def call (m : Machine) (f : Value) (args : List Value) (label : Option Label) (depth : Nat) : Machine :=
  match m.heap.callee callLimit f args with
  | .error culprit =>
    m.fault (bytes "attempt to call a " ++ m.heap.typeLabel culprit ++ bytes " value"
      ++ (label.map Label.suffix).getD (bytes "")) depth
  | .ok (.builtin b, args) => m.runNative ⟨label, b.name, depth, m.weight⟩ (b.run m.platform args)
  | .ok (.closure r, args) =>
    match m.vault.closures[r]? with
    | some (.script p captured) => m.enterScript p captured args depth
    | some (.bound g) => m.enterBound r g args label depth
    | none => m.proceed (.values [])
  | .ok _ => m.proceed (.values [])

def callDeeper (m : Machine) (f : Value) (args : List Value) (label : Option Label) (depth : Nat) : Machine :=
  m.proceed (.deeper (fun _ => m.place) f args label depth)

def answer (m : Machine) (vs : List Value) : Machine :=
  match m.frames with
  | .native c _ k :: rest => { m with frames := rest }.runNative c (k vs)
  | _ => m.proceed (.values vs)

def setThread (m : Machine) (t : Nat) (s : Thread) : Machine := { m with threads := m.threads.setIfInBounds t s }

def threadStatus (m : Machine) (t : Nat) : String :=
  match m.threads[t]? with
  | some .running => "running"
  | some .normal => "normal"
  | some (.fresh _) | some (.suspended ..) => "suspended"
  | _ => "dead"

/-- Goes back to the coroutine that resumed the running one, with an answer for it. -/
def handBack (m : Machine) (state : Thread) (vs : List Value) : Machine :=
  match m.resumers with
  | [] => m.goto (.done (.ok vs))
  | r :: resumers =>
    let m := (m.setThread m.running state).setThread r.thread .running
    { m with frames := r.frames, running := r.thread, resumers }.answer vs

/-- Goes on with the frames of another coroutine; the running one waits for it. -/
def switchTo (m : Machine) (c : Caller) (k : Waiting) (t : Nat) (frames : List Frame) : Machine :=
  let m := (m.setThread m.running .normal).setThread t .running
  { m with
    resumers := ⟨m.running, .native c none k :: m.frames⟩ :: m.resumers
    running := t
    frames }

def resume (m : Machine) (c : Caller) (k : Waiting) (t : Nat) (args : List Value) : Machine :=
  let refuse (message : String) : Machine := m.runNative c (k [.bool false, .ofText message])
  if callLimit ≤ c.depth then refuse "C stack overflow"
  else
    match m.threads[t]? with
    | some (.fresh f) => (m.switchTo c k t []).proceed (.call f args none (c.depth + 1))
    | some (.suspended frames waiting answer) => (m.switchTo c k t frames).runNative waiting (answer args)
    | some (.dead ..) => refuse "cannot resume dead coroutine"
    | _ => refuse "cannot resume non-suspended coroutine"

def yield (m : Machine) (c : Caller) (k : Waiting) (vs : List Value) : Machine :=
  let refuse (message : String) : Machine := m.proceed (.raise (.ordinary (.ofText message)) c.depth)
  if m.running = 0 then refuse "attempt to yield from outside a coroutine"
  else if !m.frames.all Frame.letsYield then refuse "attempt to yield across a C-call boundary"
  else m.handBack (.suspended m.frames c k) (.bool true :: vs)

def closingValues (ks : List Kont) : List Value :=
  ks.filterMap fun k =>
    match k with
    | .closing v => some v
    | _ => none

/-- Drops frames up to one that catches errors, and gathers what they still had to close. -/
def dropFrames : List Frame → List Value → List Value × List Frame
  | .script _ a :: rest, pending => dropFrames rest (pending ++ closingValues a.kont)
  | .native _ none _ :: rest, pending => dropFrames rest pending
  | .report .. :: rest, pending => dropFrames rest pending
  | .glue _ :: rest, pending => dropFrames rest pending
  | frames, pending => (pending, frames)

/-- Closes the next value of the closing frame on top, or ends it. One at the bottom of a coroutine ends the coroutine. -/
def closeNext (m : Machine) : Machine :=
  match m.frames with
  | .closing [] failure _ _ _ :: rest =>
    let vs :=
      match failure with
      | some e => [.bool false, e.object]
      | none => [.bool true]
    if rest.isEmpty then { m with frames := [] }.handBack (.dead none []) vs else { m with frames := rest }.answer vs
  | .closing (v :: vs) failure inherits depth weight :: rest =>
    let e := (failure.map Raised.object).getD .nil
    { m with frames := .closing vs failure inherits depth weight :: rest }.callDeeper
      (m.heap.metamethod v "__close") [v, e] none depth
  | _ => m

def closeThread (m : Machine) (c : Caller) (k : Waiting) (t : Nat) : Machine :=
  let finish (pending : List Value) (failure : Option Raised) : Machine :=
    (m.switchTo c k t [.closing pending failure false c.depth c.weight]).closeNext
  match m.threads[t]? with
  | some (.suspended frames _ _) => finish (dropFrames frames []).1 none
  | some (.dead failure pending) => finish pending failure
  | _ => finish [] none

/-- The message handler that errors meet first. -/
def handlerOf : List Frame → Option Value
  | .native _ (some .none) _ :: _ => none
  | .native _ (some (.function f)) _ :: _ => some f
  | .closing _ _ inherits _ _ :: rest => if inherits then handlerOf rest else none
  | _ :: rest => handlerOf rest
  | [] => none

/-- Raises an error: an ordinary one meets the message handler first, on top of the stack. -/
def raise (m : Machine) (e : Raised) (depth : Nat) : Machine :=
  match e, handlerOf m.frames with
  | .ordinary v, some f =>
    if handlerLimit ≤ depth + 2 then m.goto (.unwind .handler)
    else if depth < callLimit ∧ callLimit ≤ depth + 2 then
      m.proceed (.raise (.ordinary (.ofText "C stack overflow")) callLimit)
    else (m.push (.report (depth + 2) m.weight)).proceed (.call f [v] none (depth + 2))
  | e, _ => m.goto (.unwind e)

def die (m : Machine) (e : Raised) (pending : List Value) : Machine :=
  let m := { m with frames := [] }
  match m.resumers with
  | [] => m.goto (.done (.error e))
  | _ => m.handBack (.dead (some e) pending) [.bool false, e.object]

def unwind (m : Machine) (e : Raised) : Machine :=
  let (pending, frames) := dropFrames m.frames []
  match frames with
  | .closing rest _ inherits depth weight :: below =>
    { m with frames := .closing (pending ++ rest) (some e) inherits depth weight :: below }.closeNext
  | .native c guard k :: below =>
    let m := { m with frames := .native c guard k :: below }
    (m.push (.closing pending (some e) true c.depth c.weight)).closeNext
  | _ => m.die e pending

def raiseObject (m : Machine) (v : Value) (depth : Nat) : Machine :=
  m.proceed (.raise (if v.rawEq (.str memoryMessage) then .memory else .ordinary v) depth)

/-- The complaint about an argument, in which the function has the name of its call. -/
def argumentMessage (c : Caller) (position : Nat) (text : Bytes) : Bytes :=
  let about (position : Nat) (name : Bytes) : Bytes :=
    bytes s!"bad argument #{position} to " ++ Lexer.quote name ++ bytes " (" ++ text ++ bytes ")"
  match c.name with
  | some (.method name) =>
    if position = 1 then bytes "calling " ++ Lexer.quote name ++ bytes " on bad self (" ++ text ++ bytes ")"
    else about (position - 1) name
  | some l => about position l.parts.2
  | none => about position (bytes c.own)

def failNative (m : Machine) (c : Caller) : Fault → Machine
  | .object v => m.raiseObject v c.depth
  | .message text => m.raiseObject (.str (m.place ++ text)) c.depth
  | .bare text => m.proceed (.raise (.ordinary (.str text)) c.depth)
  | .argument position text => m.raiseObject (.str (m.place ++ argumentMessage c position text)) c.depth
  | .memory => m.proceed (.raise .memory c.depth)

def placeAt (m : Machine) (level : Nat) : Bytes :=
  let levels := m.frames.filter Frame.isLevel
  ((levels[level - 1]?).map Frame.place).getD (bytes "")

def addChunk (m : Machine) (p : Proto) (environment : Option Value) : Value × Machine :=
  m.addToVault fun v =>
    let (cell, v) := v.addCell (environment.getD (.table v.globals))
    v.addClosure (.script p #[.cell cell])

/-- Does what a library function asks for; there is memory for it. -/
def grant (m : Machine) (c : Caller) (r : Request) (k : Waiting) : Machine :=
  let reply (vs : List Value) : Machine := m.runNative c (k vs)
  match r with
  | .call f args => (m.push (.native c none k)).callDeeper f args none c.depth
  | .protect handler f args => (m.push (.native c (some handler) k)).callDeeper f args none c.depth
  | .spawn f =>
    let t := m.threads.size
    { m with threads := m.threads.push (.fresh f) }.runNative c (k [.thread t])
  | .resume t args => m.resume c k t args
  | .yield vs => m.yield c k vs
  | .close t => m.closeThread c k t
  | .status t => reply [.ofText (m.threadStatus t)]
  | .failed t =>
    match m.threads[t]? with
    | some (.dead (some e) _) => reply [.bool true, .bool e.isMemory]
    | _ => reply [.bool false, .bool false]
  | .running => reply [.thread m.running, .bool (m.running == 0)]
  | .yieldable => reply [.bool (m.running != 0 && m.frames.all Frame.letsYield)]
  | .position level => reply [.str (m.placeAt level)]
  | .depth => reply [.int (Int64.ofNat c.depth)]
  | .claim size =>
    if m.heap.admits m.limit size then (m.modifyHeap (·.charge size)).runNative c (k []) else m.failNative c .memory
  | .host frame => m.goto (.host frame c k)
  | .bind f =>
    let (g, m) := m.addToVault (·.addClosure (.bound f))
    m.runNative c (k [g])
  | .advance r position => (m.modifyVault (·.advance r position)).runNative c (k [])
  | .chunk p environment =>
    let (f, m) := m.addChunk p environment
    m.runNative c (k [f])
  | .errorText r => reply [.str (((m.vault.errors[r]?).map fun e => bytes e.text).getD (bytes ""))]
  | .trap => { m with trapped := true }.runNative c (k [])

def request (m : Machine) (c : Caller) (r : Request) (k : Waiting) : Machine :=
  if m.affords r.size then m.grant c r k else m.failNative c .memory

def stepNative (m : Machine) (c : Caller) : Resumption (List Value) → Machine
  | .done vs h => { m with heap := h }.proceed (.values vs)
  | .fault f h => { m with heap := h }.failNative c f
  | .ask r h k => { m with heap := h }.request c r k

end Machine

end ScriptHost.Lua
