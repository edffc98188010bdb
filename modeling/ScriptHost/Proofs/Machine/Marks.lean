import ScriptHost.Lua.Machine.Step
import Std.Data.TreeMap.Lemmas

/-! # What a step may mark

What happens in a run leaves its marks on the vault of a machine, and on the note whether the message handler was called.
Almost no step touches these. The handler is noted by one request alone; environments are assigned only by stores, and
only those that the function on top captured; a closure stays what it is unless it gives matches; and no step changes what
is kept for the host. -/

namespace ScriptHost.Lua

namespace Vault

/-- What is kept for the host: the error objects, and the tables of the globals and of the proxies. -/
def hostPart (v : Vault) : Array GuestError × Nat × Nat := (v.errors, v.globals, v.proxies)

end Vault

/-- A closure that nothing advances. -/
def Closure.Fixed (c : Closure) : Prop := ∀ position, c.advanced position = c

/-- Of one vault, another one has the closures, the assigned environments, and what is kept for the host. -/
structure Vault.Lasts (v w : Vault) : Prop where
  assigned : w.assigned = v.assigned
  hostPart : w.hostPart = v.hostPart
  closures : ∀ (r : Nat) (c : Closure), c.Fixed → v.closures[r]? = some c → w.closures[r]? = some c

namespace Vault.Lasts

theorem refl (v : Vault) : v.Lasts v := ⟨rfl, rfl, fun _ _ _ h => h⟩

theorem trans {u v w : Vault} (h : u.Lasts v) (h' : v.Lasts w) : u.Lasts w :=
  ⟨h'.assigned.trans h.assigned, h'.hostPart.trans h.hostPart,
    fun r c hc hr => h'.closures r c hc (h.closures r c hc hr)⟩

theorem addClosure (v : Vault) (c : Closure) : v.Lasts (v.addClosure c).2 := by
  refine ⟨rfl, rfl, fun r d _ hr => ?_⟩
  have hother : r ≠ v.closures.size := Nat.ne_of_lt (Array.getElem?_eq_some_iff.mp hr).1
  simp only [Vault.addClosure, Array.getElem?_push, if_neg hother, hr]

theorem addCell (v : Vault) (x : Value) : v.Lasts (v.addCell x).2 := ⟨rfl, rfl, fun _ _ _ h => h⟩

theorem setCell (v : Vault) (r : Nat) (x : Value) : v.Lasts (v.setCell r x) := ⟨rfl, rfl, fun _ _ _ h => h⟩

theorem advance (v : Vault) (r position : Nat) : v.Lasts (v.advance r position) := by
  refine ⟨rfl, rfl, fun i c hc hi => ?_⟩
  simp only [Vault.advance, Array.getElem?_modify, hi, Option.map_some, hc position]
  split <;> rfl

end Vault.Lasts

namespace Machine

def marks (m : Machine) : Vault × Bool := (m.vault, m.trapped)

@[simp] theorem marks_mk (heap : Heap) (vault : Vault) (control : Control) (frames : List Frame) (threads : Array Thread)
    (running : Nat) (resumers : List Resumer) (grownStacks : Std.TreeMap Nat Nat) (limit : Option Nat) (platform : Platform)
    (trapped : Bool) :
    (Machine.mk heap vault control frames threads running resumers grownStacks limit platform trapped).marks =
      (vault, trapped) := rfl

@[simp] theorem marks_eta (m : Machine) : (m.vault, m.trapped) = m.marks := rfl

@[simp] theorem goto_marks (m : Machine) (c : Control) : (m.goto c).marks = m.marks := rfl

@[simp] theorem proceed_marks (m : Machine) (t : Task) : (m.proceed t).marks = m.marks := rfl

@[simp] theorem fault_marks (m : Machine) (message : Bytes) (depth : Nat) :
    (m.fault message depth).marks = m.marks := rfl

@[simp] theorem push_marks (m : Machine) (f : Frame) : (m.push f).marks = m.marks := rfl

@[simp] theorem runNative_marks (m : Machine) (c : Caller) (f : Heap → Resumption (List Value)) :
    (m.runNative c f).marks = m.marks := rfl

@[simp] theorem callDeeper_marks (m : Machine) (f : Value) (args : List Value) (label : Option Label) (depth : Nat) :
    (m.callDeeper f args label depth).marks = m.marks := rfl

@[simp] theorem setThread_marks (m : Machine) (t : Nat) (s : Thread) :
    (m.setThread t s).marks = m.marks := rfl

@[simp] theorem switchTo_marks (m : Machine) (c : Caller) (k : Waiting) (t : Nat) (frames : List Frame) :
    (m.switchTo c k t frames).marks = m.marks := rfl

@[simp] theorem settle_marks (m : Machine) (captured : Array Captured) (t : Turn) :
    (m.settle captured t).marks = m.marks := by
  unfold settle
  split <;> rfl

theorem settle_vault (m : Machine) (captured : Array Captured) (t : Turn) : (m.settle captured t).vault = m.vault :=
  congrArg Prod.fst (m.settle_marks captured t)

@[simp] theorem inScript_marks (m : Machine) (f : Workspace → Activation → Turn) :
    (m.inScript f).marks = m.marks := by
  unfold inScript
  split <;> simp

theorem withStack_marks {m : Machine} {slots : Nat} {f : Machine → Machine} (hf : (f (m.grow slots)).marks = m.marks)
    (depth : Nat) : (m.withStack slots depth f).marks = m.marks := by
  unfold withStack
  split
  · exact hf
  · rfl

@[simp] theorem enterScript_marks (m : Machine) (p : Proto) (captured : Array Captured) (args : List Value)
    (depth : Nat) : (m.enterScript p captured args depth).marks = m.marks := by
  unfold enterScript
  split
  · rfl
  · exact withStack_marks rfl depth

@[simp] theorem enterBound_marks (m : Machine) (r : Nat) (g : Bound) (args : List Value) (label : Option Label)
    (depth : Nat) : (m.enterBound r g args label depth).marks = m.marks := by
  unfold enterBound
  simp only
  split
  · rfl
  · exact withStack_marks rfl depth

theorem enterScript_vault (m : Machine) (p : Proto) (captured : Array Captured) (args : List Value) (depth : Nat) :
    (m.enterScript p captured args depth).vault = m.vault := congrArg Prod.fst (m.enterScript_marks p captured args depth)

@[simp] theorem call_marks (m : Machine) (f : Value) (args : List Value) (label : Option Label) (depth : Nat) :
    (m.call f args label depth).marks = m.marks := by
  unfold call
  split
  · rfl
  · rfl
  · split <;> simp
  · rfl

@[simp] theorem answer_marks (m : Machine) (vs : List Value) : (m.answer vs).marks = m.marks := by
  unfold answer
  split <;> simp

@[simp] theorem handBack_marks (m : Machine) (s : Thread) (vs : List Value) :
    (m.handBack s vs).marks = m.marks := by
  unfold handBack
  split <;> simp

@[simp] theorem resume_marks (m : Machine) (c : Caller) (k : Waiting) (t : Nat) (args : List Value) :
    (m.resume c k t args).marks = m.marks := by
  unfold resume
  simp only
  split
  · rfl
  · split <;> simp

@[simp] theorem yield_marks (m : Machine) (c : Caller) (k : Waiting) (vs : List Value) :
    (m.yield c k vs).marks = m.marks := by
  unfold yield
  simp only
  split
  · rfl
  · split <;> simp

@[simp] theorem closeNext_marks (m : Machine) : m.closeNext.marks = m.marks := by
  unfold closeNext
  split
  · simp only
    split <;> simp
  · rfl
  · rfl

@[simp] theorem closeThread_marks (m : Machine) (c : Caller) (k : Waiting) (t : Nat) :
    (m.closeThread c k t).marks = m.marks := by
  unfold closeThread
  simp only
  split <;> simp

@[simp] theorem raise_marks (m : Machine) (e : Raised) (depth : Nat) :
    (m.raise e depth).marks = m.marks := by
  unfold raise
  split
  · split
    · rfl
    · split <;> rfl
  · rfl

@[simp] theorem die_marks (m : Machine) (e : Raised) (pending : List Value) : (m.die e pending).marks = m.marks := by
  unfold die
  simp only
  split <;> simp

@[simp] theorem unwind_marks (m : Machine) (e : Raised) : (m.unwind e).marks = m.marks := by
  unfold unwind
  simp only
  split
  · simp
  · simp
  · simp

@[simp] theorem failNative_marks (m : Machine) (c : Caller) (f : Fault) :
    (m.failNative c f).marks = m.marks := by
  cases f <;> rfl

theorem hostAnswer_trapped (m : Machine) (answer : Except GuestError Value) (c : Caller) (k : Waiting) :
    (m.hostAnswer answer c k).trapped = m.trapped := by
  cases answer <;> rfl

theorem hostAnswer_assigned (m : Machine) (answer : Except GuestError Value) (c : Caller) (k : Waiting) :
    (m.hostAnswer answer c k).vault.assigned = m.vault.assigned := by
  cases answer <;> rfl

theorem hostAnswer_closures (m : Machine) (answer : Except GuestError Value) (c : Caller) (k : Waiting) :
    (m.hostAnswer answer c k).vault.closures = m.vault.closures := by
  cases answer <;> rfl

theorem lasts_of_marks {m m' : Machine} (h : m'.marks = m.marks) : m.vault.Lasts m'.vault := by
  have hvault : m'.vault = m.vault := congrArg Prod.fst h
  rw [hvault]
  exact .refl _

/-- Library functions can add closures and advance them, and one request notes the message handler; that is all. -/
theorem grant_marks (m : Machine) (c : Caller) (r : Request) (k : Waiting) :
    m.vault.Lasts (m.grant c r k).vault ∧ (r ≠ .trap → (m.grant c r k).trapped = m.trapped) := by
  have of_marks {m' : Machine} (h : m'.marks = m.marks) :
      m.vault.Lasts m'.vault ∧ (r ≠ .trap → m'.trapped = m.trapped) :=
    ⟨lasts_of_marks h, fun _ => congrArg Prod.snd h⟩
  cases r with
  | failed t | claim size =>
    simp only [grant]
    split <;> exact of_marks rfl
  | resume t args => exact of_marks (m.resume_marks c k t args)
  | yield vs => exact of_marks (m.yield_marks c k vs)
  | close t => exact of_marks (m.closeThread_marks c k t)
  | bind f => exact ⟨.addClosure m.vault (.bound f), fun _ => rfl⟩
  | advance r position => exact ⟨.advance m.vault r position, fun _ => rfl⟩
  | chunk p environment =>
    exact ⟨(Vault.Lasts.addCell m.vault _).trans (.addClosure _ _), fun _ => rfl⟩
  | trap => exact ⟨.refl _, fun h => absurd rfl h⟩
  | _ => exact of_marks rfl

theorem request_marks (m : Machine) (c : Caller) (r : Request) (k : Waiting) :
    m.vault.Lasts (m.request c r k).vault ∧ (r ≠ .trap → (m.request c r k).trapped = m.trapped) := by
  unfold request
  split
  · exact m.grant_marks c r k
  · exact ⟨.refl _, fun _ => rfl⟩

theorem request_trapped (m : Machine) (c : Caller) {r : Request} (k : Waiting) (h : r ≠ .trap) :
    (m.request c r k).trapped = m.trapped := (m.request_marks c r k).2 h

theorem stepNative_lasts (m : Machine) (c : Caller) (r : Resumption (List Value)) :
    m.vault.Lasts (m.stepNative c r).vault := by
  cases r with
  | done vs h => exact .refl _
  | fault f h => exact lasts_of_marks (failNative_marks { m with heap := h } c f)
  | ask r h k => exact (request_marks { m with heap := h } c r k).1

@[simp] theorem arrive_marks (m : Machine) (vs : List Value) : (m.arrive vs).marks = m.marks := by
  unfold arrive
  split <;> simp

end Machine

/-- The environments that were assigned before are assigned still, and what came since was captured. What is kept for the
host is the same, and so are the closures. -/
structure Grown (captured : Array Captured) (before after : Vault) : Prop where
  kept : ∀ j ∈ before.assigned, j ∈ after.assigned
  new : ∀ j ∈ after.assigned, j ∈ before.assigned ∨ ∃ i : Nat, captured[i]! = .environment j
  hostPart : after.hostPart = before.hostPart
  closures : ∀ (r : Nat) (c : Closure), c.Fixed → before.closures[r]? = some c → after.closures[r]? = some c

namespace Grown

variable {captured : Array Captured} {u v w : Vault}

theorem refl (captured : Array Captured) (v : Vault) : Grown captured v v :=
  ⟨fun _ h => h, fun _ h => Or.inl h, rfl, fun _ _ _ h => h⟩

theorem of_lasts (captured : Array Captured) (h : v.Lasts w) : Grown captured v w :=
  ⟨fun _ hj => h.assigned ▸ hj, fun _ hj => Or.inl (h.assigned ▸ hj), h.hostPart, h.closures⟩

theorem trans (h : Grown captured u v) (h' : Grown captured v w) : Grown captured u w := by
  refine ⟨fun j hj => h'.kept j (h.kept j hj), fun j hj => ?_, h'.hostPart.trans h.hostPart,
    fun r c hc hr => h'.closures r c hc (h.closures r c hc hr)⟩
  rcases h'.new j hj with hj | hj
  · exact h.new j hj
  · exact Or.inr hj

end Grown

theorem write_grown (captured : Array Captured) (v : Vault) (i : Nat) (x : Value) :
    Grown captured v (v.write captured[i]! x) := by
  cases hc : captured[i]! with
  | cell c => exact Grown.of_lasts captured (.setCell v c x)
  | environment n =>
    refine ⟨fun j hj => ?_, fun j hj => ?_, rfl, fun _ _ _ h => h⟩
    · exact Std.TreeMap.mem_insert.mpr (Or.inr hj)
    · rcases Std.TreeMap.mem_insert.mp hj with h | h
      · exact Or.inr ⟨i, by rw [hc, Nat.compare_eq_eq.mp h]⟩
      · exact Or.inl h

theorem writeSlot_lasts (v : Vault) (a : Activation) (i : Nat) (x : Value) : v.Lasts (writeSlot v a i x).1 := by
  unfold writeSlot
  split
  · exact .setCell ..
  · exact .refl _

theorem storeAll_grown (captured : Array Captured) (line : Nat) (b : Budget) (pairs : List (Place × Value))
    (v : Vault) (h : Heap) (a : Activation) : Grown captured v (storeAll captured v h a line b pairs).1 := by
  induction pairs generalizing v h a with
  | nil => exact Grown.refl captured _
  | cons pair rest ih =>
    obtain ⟨place, x⟩ := pair
    cases place with
    | slot i =>
      simp only [storeAll]
      exact (Grown.of_lasts captured (writeSlot_lasts v a i x)).trans (ih ..)
    | captured i =>
      simp only [storeAll]
      exact (write_grown captured v i x).trans (ih ..)
    | index object key label =>
      simp only [storeAll]
      split
      · exact ih ..
      · exact Grown.refl captured _
      · exact Grown.refl captured _

theorem capture_lasts (captured : Array Captured) (caps : List Capture) (v : Vault) (a : Activation)
    (taken : Array Captured) : v.Lasts (capture captured v a caps taken).2 := by
  induction caps generalizing v a taken with
  | nil => exact .refl _
  | cons cap rest ih =>
    cases cap with
    | outer i => exact ih ..
    | slot i =>
      rw [capture]
      split
      · exact ih ..
      · exact (Vault.Lasts.addCell v _).trans (ih ..)

namespace Machine

theorem make_marks (m : Machine) (p : Proto) (slot : Option Nat) :
    m.vault.Lasts (m.make p slot).vault ∧ (m.make p slot).trapped = m.trapped := by
  unfold make
  split
  · next captured a rest hframes =>
    have hmade (v : Vault) : v.Lasts (makeClosure captured a p v).2 := (capture_lasts ..).trans (.addClosure ..)
    split
    · exact ⟨.refl _, rfl⟩
    · cases slot with
      | none => exact ⟨hmade m.vault, rfl⟩
      | some i => exact ⟨(hmade m.vault).trans (writeSlot_lasts ..), rfl⟩
  · exact ⟨.refl _, rfl⟩

def topCaptured (m : Machine) : Array Captured :=
  match m.frames with
  | .script captured _ :: _ => captured
  | _ => #[]

theorem store_grown (m : Machine) (line : Nat) (pairs : List (Place × Value)) :
    Grown m.topCaptured m.vault (m.store line pairs).vault := by
  unfold store topCaptured
  rcases m.frames with - | ⟨f, rest⟩
  · exact Grown.refl ..
  · cases f with
    | script captured a =>
      simp only [settle_vault]
      exact storeAll_grown ..
    | _ => exact Grown.refl ..

/-- A step assigns no environments but those that the function on top captured, and forgets none. -/
theorem step_grown (m : Machine) : Grown m.topCaptured m.vault m.step.vault := by
  have of_marks {m' : Machine} (h : m'.marks = m.marks) : Grown m.topCaptured m.vault m'.vault :=
    Grown.of_lasts _ (lasts_of_marks h)
  unfold step
  cases m.control with
  | task t =>
    cases t with
    | store line pairs => exact m.store_grown line pairs
    | make p slot => exact Grown.of_lasts _ (m.make_marks p slot).1
    | values vs => exact of_marks (m.arrive_marks vs)
    | call f args label depth => exact of_marks (m.call_marks f args label depth)
    | raise e depth => exact of_marks (m.raise_marks e depth)
    | _ => exact of_marks (m.inScript_marks _)
  | native c r => exact Grown.of_lasts _ (m.stepNative_lasts c r)
  | unwind e => exact of_marks (m.unwind_marks e)
  | _ => exact Grown.refl ..

/-- Only an answer of the host adds an error object. -/
theorem step_errors (m : Machine) : m.step.vault.errors = m.vault.errors :=
  congrArg Prod.fst m.step_grown.hostPart

end Machine

end ScriptHost.Lua
