import ScriptHost.Engine

/-! # Where steps lead

A machine leads to another if steps alone take it there: the host is asked nothing on the way, and a run goes on from the
other machine in the session that it came with. Where a script function is on top, a step is a turn of this function, so
its steps are found by evaluating the turn. -/

namespace ScriptHost

namespace Lua

/-- Steps alone lead from a machine to another. -/
inductive Leads : Machine → Machine → Prop where
  | refl (m : Machine) : Leads m m
  | step {m m' : Machine} (hgoing : m.isResting = false) (hrest : Leads m.step m') : Leads m m'

namespace Leads

theorem single {m m' : Machine} (hgoing : m.isResting = false) (h : m.step = m') : Leads m m' :=
  .step hgoing (h ▸ .refl _)

theorem trans {m m' m'' : Machine} (h : Leads m m') (h' : Leads m' m'') : Leads m m'' := by
  induction h with
  | refl => exact h'
  | step hgoing _ ih => exact .step hgoing (ih h')

/-- A machine leads to one machine at most that rests. -/
theorem unique {m m₁ m₂ : Machine} (h₁ : Leads m m₁) (h₂ : Leads m m₂) (hrests₁ : m₁.isResting)
    (hrests₂ : m₂.isResting) : m₁ = m₂ := by
  induction h₁ with
  | refl m =>
    cases h₂ with
    | refl => rfl
    | step hgoing _ => exact absurd hrests₁ (by rw [hgoing]; exact Bool.false_ne_true)
  | step hgoing _ ih =>
    cases h₂ with
    | refl => exact absurd hrests₂ (by rw [hgoing]; exact Bool.false_ne_true)
    | step _ hrest => exact ih hrest hrests₁

end Leads

/-- Steps alone lead from a machine to another, and at most `n` of them. -/
inductive Within : Nat → Machine → Machine → Prop where
  | refl {n : Nat} (m : Machine) : Within n m m
  | step {n : Nat} {m m' : Machine} (hgoing : m.isResting = false) (hrest : Within n m.step m') : Within (n + 1) m m'

namespace Within

variable {n l : Nat} {m m' m'' : Machine}

theorem single (hgoing : m.isResting = false) (h : m.step = m') : Within 1 m m' := .step hgoing (h ▸ .refl _)

theorem mono (h : Within n m m') (hl : n ≤ l) : Within l m m' := by
  induction h generalizing l with
  | refl m => exact .refl m
  | step hgoing _ ih =>
    obtain ⟨l, rfl⟩ : ∃ k, l = k + 1 := ⟨l - 1, by omega⟩
    exact .step hgoing (ih (by omega))

theorem trans (h : Within n m m') (h' : Within l m' m'') : Within (n + l) m m'' := by
  induction h with
  | refl => exact h'.mono (by omega)
  | step hgoing _ ih =>
    rw [Nat.add_right_comm]
    exact .step hgoing (ih h')

theorem leads (h : Within n m m') : Leads m m' := by
  induction h with
  | refl m => exact .refl m
  | step hgoing _ ih => exact .step hgoing ih

theorem run (n : Nat) (m : Machine) : Within n m (Machine.run n m) := by
  induction n generalizing m with
  | zero => exact .refl m
  | succ n ih =>
    rw [Machine.run]
    split
    · exact .refl m
    · next hgoing => exact .step (Bool.eq_false_iff.mpr hgoing) (ih m.step)

theorem drive {α σ : Type} (h : Within n m m') (host : Host α σ) :
    ∃ l ≤ n, ∀ fuel s, Engine.drive host (fuel + l) s m = Engine.drive host fuel s m' := by
  induction h with
  | refl => exact ⟨0, Nat.zero_le _, fun _ _ => rfl⟩
  | @step n m m' hgoing _ ih =>
    obtain ⟨l, hl, hrest⟩ := ih
    refine ⟨l + 1, Nat.succ_le_succ hl, fun fuel s => ?_⟩
    rw [← hrest, ← Nat.add_assoc, Engine.drive]
    unfold Machine.isResting at hgoing
    cases hcontrol : m.control with
    | host frame c k => simp [hcontrol] at hgoing
    | done outcome => simp [hcontrol] at hgoing
    | _ => rfl

end Within

namespace Leads

theorem within {m m' : Machine} (h : Leads m m') : ∃ n, Within n m m' := by
  induction h with
  | refl m => exact ⟨0, .refl m⟩
  | step hgoing _ ih =>
    obtain ⟨n, hn⟩ := ih
    exact ⟨n + 1, .step hgoing hn⟩

theorem run (n : Nat) (m : Machine) : Leads m (Machine.run n m) := (Within.run n m).leads

end Leads

namespace Machine

/-- A machine with a script function on top, and what this has to do. -/
def onTop (m : Machine) (captured : Array Captured) (a : Activation) (rest : List Frame) (t : Task) : Machine :=
  { m with frames := .script captured a :: rest, control := .task t }

def workspace (m : Machine) (captured : Array Captured) : Workspace := ⟨m.heap, m.limit, m.vault.scope captured⟩

def turned (m : Machine) (captured : Array Captured) (rest : List Frame) (t : Turn) : Machine :=
  { m with
    heap := t.heap
    frames := t.top.elim rest fun a => .script captured a :: rest
    control := .task t.next }

variable {m : Machine} {captured : Array Captured} {a a' : Activation} {rest : List Frame} {t next : Task}

theorem inScript_onTop (f : Workspace → Activation → Turn) :
    (m.onTop captured a rest t).inScript f = m.turned captured rest (f (m.workspace captured) a) := by
  simp only [inScript, onTop, turned, workspace, settle]
  rcases f ⟨m.heap, m.limit, m.vault.scope captured⟩ a with ⟨heap, - | b, next⟩ <;> rfl

theorem step_evalAll (e : Expr) (tail : Bool) : (m.onTop captured a rest (.evalAll e tail)).step =
    m.turned captured rest ((m.workspace captured).evalAll a tail e) := inScript_onTop fun w a => w.evalAll a tail e

theorem step_eval (e : Expr) : (m.onTop captured a rest (.eval e)).step =
    m.turned captured rest ((m.workspace captured).eval a e) := inScript_onTop fun w a => w.eval a e

theorem step_value (v : Value) : (m.onTop captured a rest (.value v)).step =
    m.turned captured rest ((m.workspace captured).receive a v) := inScript_onTop fun w a => w.receive a v

theorem step_values (vs : List Value) : (m.onTop captured a rest (.values vs)).step =
    m.turned captured rest ((m.workspace captured).receiveAll a vs) := inScript_onTop fun w a => w.receiveAll a vs

theorem step_leave (x : Exit) : (m.onTop captured a rest (.leave x)).step =
    m.turned captured rest ((m.workspace captured).leave a x) := inScript_onTop fun w a => w.leave a x

/-- The step is found if the turn is known, and the function stays on top. -/
theorem within_turn {turn : Turn} (hstep : (m.onTop captured a rest t).step = m.turned captured rest turn)
    (hturn : turn = (m.workspace captured).onTop a' next) :
    Within 1 (m.onTop captured a rest t) (m.onTop captured a' rest next) :=
  .single rfl (hstep.trans (congrArg (m.turned captured rest) hturn))

end Machine

end Lua

namespace Engine

open Lua (Machine)

variable {α σ : Type}

/-- A run goes on from a session and a machine to others. -/
def Goes (host : Host α σ) (s : Session α σ) (m : Machine) (s' : Session α σ) (m' : Machine) : Prop :=
  ∃ n, ∀ fuel, drive host (fuel + n) s m = drive host fuel s' m'

namespace Goes

variable {host : Host α σ} {s s' s'' : Session α σ} {m m' m'' : Machine}

theorem refl (host : Host α σ) (s : Session α σ) (m : Machine) : Goes host s m s m := ⟨0, fun _ => rfl⟩

theorem trans (h : Goes host s m s' m') (h' : Goes host s' m' s'' m'') : Goes host s m s'' m'' := by
  obtain ⟨n, hn⟩ := h
  obtain ⟨n', hn'⟩ := h'
  exact ⟨n' + n, fun fuel => by rw [← Nat.add_assoc, hn, hn']⟩

theorem of_leads (h : Lua.Leads m m') (host : Host α σ) (s : Session α σ) : Goes host s m s m' := by
  obtain ⟨n, hn⟩ := h.within
  obtain ⟨l, -, hl⟩ := hn.drive host
  exact ⟨l, fun fuel => hl fuel s⟩

theorem answered {frame : List Lua.Value} {c : Lua.Caller} {k : Lua.Waiting} (h : m.control = .host frame c k)
    {answer : Except Lua.GuestError Lua.Value} (hrun : Dispatch.run host s frame = (answer, s')) :
    Goes host s m s' (m.hostAnswer answer c k) :=
  ⟨1, fun fuel => by rw [drive, h]; simp only [hrun]⟩

theorem drive_eq (h : Goes host s m s' m') : ∃ n, drive host n s m = (s', m') := by
  obtain ⟨n, hn⟩ := h
  exact ⟨0 + n, hn 0⟩

end Goes

end Engine

end ScriptHost
