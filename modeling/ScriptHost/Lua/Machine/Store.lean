import ScriptHost.Lua.Machine.Evaluate

/-! # Captured variables

Where script functions make closures and assign variables that closures captured: besides the function itself this takes
the vault. -/

namespace ScriptHost.Lua

def Closure.replacesCaller : Closure → Bool
  | script .. | bound (.member ..) | bound (.namespaceField _) => true
  | _ => false

def Vault.scope (v : Vault) (captured : Array Captured) : Scope where
  cells := v.cells
  captured i := v.read captured[i]!
  replaces r := (v.closures[r]?).any Closure.replacesCaller

def capture (captured : Array Captured) (v : Vault) (a : Activation) :
    List Capture → Array Captured → (Activation × Array Captured) × Vault
  | [], taken => ((a, taken), v)
  | .outer i :: rest, taken => capture captured v a rest (taken.push captured[i]!)
  | .slot i :: rest, taken =>
    match a.slots[i]? with
    | some (.shared c) => capture captured v a rest (taken.push (.cell c))
    | slot =>
      let x := match slot with
        | some (.plain x) => x
        | _ => .nil
      let (c, v) := v.addCell x
      capture captured v { a with slots := a.slots.setIfInBounds i (.shared c) } rest (taken.push (.cell c))

def makeClosure (captured : Array Captured) (a : Activation) (p : Proto) (v : Vault) : (Activation × Value) × Vault :=
  let ((a, taken), v) := capture captured v a p.captures #[]
  let (f, v) := v.addClosure (.script p taken)
  ((a, f), v)

def writeSlot (v : Vault) (a : Activation) (i : Nat) (x : Value) : Vault × Activation :=
  match a.slots[i]? with
  | some (.shared c) => (v.setCell c x, a)
  | _ => (v, { a with slots := a.slots.setIfInBounds i (.plain x) })

/-- Stores values in places, one after the other, unless the store outgrows a budget. -/
def storeAll (captured : Array Captured) (v : Vault) (h : Heap) (a : Activation) (line : Nat) (b : Budget) :
    List (Place × Value) → Vault × Turn
  | [] => (v, Turn.checked ⟨h, some a, .leave .fall⟩ b a.depth)
  | (.slot i, x) :: rest =>
    let (v, a) := writeSlot v a i x
    storeAll captured v h a line b rest
  | (.captured i, x) :: rest => storeAll captured (v.write captured[i]! x) h a line b rest
  | (.index object key label, x) :: rest =>
    let o := object.now (v.scope captured) a
    let k := key.now (v.scope captured) a
    match h.store o k x with
    | .into r => storeAll captured v (h.rawSet r k x) a line b rest
    | .call f args =>
      let m : Workspace := ⟨h, b.limit, v.scope captured⟩
      (v, (m.callEvent a line (.stores line rest) f args (eventLabel "__newindex")).checked b a.depth)
    | .trouble c =>
      let m : Workspace := ⟨h, b.limit, v.scope captured⟩
      (v, (m.complain a line (c.message h fun _ => label)).checked b a.depth)

namespace Machine

def settle (m : Machine) (captured : Array Captured) (t : Turn) : Machine :=
  match t.top with
  | some a => { m with heap := t.heap, frames := .script captured a :: m.frames, control := .task t.next }
  | none => { m with heap := t.heap, control := .task t.next }

@[inline] def inScript (m : Machine) (f : Workspace → Activation → Turn) : Machine :=
  match m.frames with
  | .script captured a :: rest =>
    let scope := m.vault.scope captured
    let h := m.heap
    let m := { m with heap := {}, frames := rest }
    m.settle captured (f ⟨h, m.limit, scope⟩ a)
  | _ => m.proceed (.values [])

def make (m : Machine) (p : Proto) (slot : Option Nat) : Machine :=
  match m.frames with
  | .script captured a :: rest =>
    if !m.affords (Vault.closureSize * (p.captures.length + 1)) then m.proceed (.raise .memory a.depth) else
    let m := { m with frames := rest }
    let ((a, f), m) := m.addToVault (makeClosure captured a p)
    match slot with
    | none => { m with frames := .script captured a :: m.frames, control := .task (.value f) }
    | some i =>
      let v := m.vault
      let m := { m with vault := {} }
      let (v, a) := writeSlot v a i f
      { m with vault := v, frames := .script captured a :: m.frames, control := .task (.leave .fall) }
  | _ => m.proceed (.values [])

/-- The budget at a time. It is no mere projection, so that a step can take it and then change the store in place. -/
@[noinline] def budget (m : Machine) : Budget := ⟨m.limit, m.heap.used⟩

def store (m : Machine) (line : Nat) (pairs : List (Place × Value)) : Machine :=
  match m.frames with
  | .script captured a :: rest =>
    let b := m.budget
    let v := m.vault
    let h := m.heap
    let m := { m with vault := {}, heap := {}, frames := rest }
    let (v, t) := storeAll captured v h a line b pairs
    { m with vault := v }.settle captured t
  | _ => m.proceed (.values [])

end Machine

end ScriptHost.Lua
