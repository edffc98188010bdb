import ScriptHost.Proofs.Dispatch
import ScriptHost.Proofs.Numbering

/-! # Running a script again and loading it again

A chunk keeps its environment between runs, and a chunk that was compiled again has a new one. That is the only
difference: running the chunk that is there is running the script as if loaded afresh into the same environment, and as
long as no run assigns the environment of its script, as if loaded afresh. The engine that compiled only once has pooled
the environments of all chunks that the other engine compiled since. -/

namespace ScriptHost

open Lua (Value Machine Interpreter Chunk Keeps bytes)
open Session (Alike)

variable {α σ : Type}

namespace Lua.Interpreter

/-- Without a limit a script that was compiled once is compiled again, whatever is in use by then. -/
theorem load_again {i i' j : Interpreter} {script : String} {c : Chunk} (hi : i.limit = none) (hj : j.limit = none)
    (h : i.load script = .ok (c, i')) :
    j.load script = .ok ({ c with environment := j.loaded },
      { j with heap := j.heap.charge c.size, loaded := j.loaded + 1 }) := by
  have hadmits : j.heap.admits j.limit (chunkSize (bytes script)) = i.heap.admits i.limit (chunkSize (bytes script)) := by
    simp only [Heap.admits, Heap.hasRoom, hi, hj, Option.all_none]
  obtain ⟨hcompile, -, hsize, -⟩ := load_eq_ok h
  simp only [load, bind, Except.bind, pure, Except.pure, throw, throwThe, MonadExceptOf.throw] at h ⊢
  rw [hadmits]
  cases hrefusal : refusal? (bytes script) with
  | some e => simp [hrefusal] at h
  | none =>
    cases hroom : i.heap.admits i.limit (chunkSize (bytes script)) with
    | false => simp [hrefusal, hroom] at h
    | true => simp [hcompile, hsize]

end Lua.Interpreter

namespace Engine

/-- Does an operation a number of times: what it answered each time, and the engine at the end. -/
def times {β : Type} (op : Engine α σ → β × Engine α σ) : Nat → Engine α σ → List β × Engine α σ
  | 0, e => ([], e)
  | n + 1, e =>
    let (answer, e) := op e
    let (answers, e) := times op n e
    (answer :: answers, e)

/-- Loads a script and runs it in an environment that is there already, in place of one of its own. -/
def executeInto (host : Host α σ) (e : Engine α σ) (environment : Nat) (script : String) :
    Except ExecutionError Unit × Engine α σ :=
  match e.load script with
  | (.ok (), e) => execute host { e with compiled := e.compiled.map fun c => { c with environment } }
  | (.error error, e) => (.error error, e)

theorem executeInto_of_load_ok (host : Host α σ) {e : Engine α σ} {environment : Nat} {script : String}
    (h : (e.load script).1 = .ok ()) : e.executeInto host environment script =
      execute host { (e.load script).2 with
        compiled := (e.load script).2.compiled.map fun c => { c with environment } } := by
  have hload : e.load script = (.ok (), (e.load script).2) := Prod.ext h rfl
  rw [executeInto, hload]

theorem executeInto_of_load_error (host : Host α σ) {e : Engine α σ} {environment : Nat} {script : String}
    {error : ExecutionError} (h : (e.load script).1 = .error error) :
    e.executeInto host environment script = e.load script := by
  have hload : e.load script = (.error error, (e.load script).2) := Prod.ext h rfl
  rw [executeInto, hload]

/-- An engine that reuses the chunk `c`, and one that compiled its script again: `ρ` takes the environments of the second
engine to those that stand for them in the first. -/
structure Reuses (ρ : Nat → Nat) (c : Chunk) (e r : Engine α σ) : Prop where
  session : Alike e.session r.session
  heap : e.interpreter.heap = r.interpreter.heap
  vault : e.interpreter.vault = r.interpreter.vault.rename ρ
  threads : e.interpreter.threads = r.interpreter.threads.map (·.rename ρ)
  unlimited : e.interpreter.limit = none
  unlimited' : r.interpreter.limit = none
  platform : e.interpreter.platform = r.interpreter.platform
  compiled : e.compiled = some c
  recompiled : ∃ n, ρ n = c.environment ∧ r.compiled = some { c with environment := n }
  later : c.environment ≤ r.interpreter.loaded

namespace Reuses

variable {ρ : Nat → Nat} {c : Chunk} {e r : Engine α σ}

theorem announce (h : Reuses ρ c e r) : Reuses ρ c e.announce r.announce := by
  have hemit (e : Engine α σ) : ∃ message, e.announce = e.emit .trace message := ⟨_, rfl⟩
  obtain ⟨message, he⟩ := hemit e
  obtain ⟨message', hr⟩ := hemit r
  rw [he, hr]
  exact { h with session := h.session.emit .trace message message' }

theorem fail (h : Reuses ρ c e r) (operation : String) (error : ExecutionError) :
    Reuses ρ c (e.fail operation error) (r.fail operation error) := { h with session := (h.session.emit ..).remember _ }

theorem lent (h : Reuses ρ c e r) :
    Reuses ρ c { e with interpreter := e.interpreter.lent } { r with interpreter := r.interpreter.lent } :=
  { h with heap := rfl, vault := by simp [Interpreter.lent, Lua.Vault.rename], threads := by simp [Interpreter.lent] }

theorem conclude (h : Reuses ρ c e r) {s t : Session α σ} (hst : Alike s t) (m : Machine) :
    (e.conclude s (m.rename ρ)).1 = (r.conclude t m).1 ∧
      Reuses ρ c (e.conclude s (m.rename ρ)).2 (r.conclude t m).2 := by
  have hback (state : EngineState) : Reuses ρ c
      { e with session := s, interpreter := e.interpreter.takeBack (m.rename ρ), state }
      { r with session := t, interpreter := r.interpreter.takeBack m, state } :=
    { h with session := hst, heap := rfl, vault := rfl, threads := rfl }
  have hrecord : recordOf (m.rename ρ) = recordOf m := rfl
  unfold Engine.conclude
  simp only [hrecord]
  cases (recordOf m).toResult with
  | ok => exact ⟨rfl, hback _⟩
  | error error => exact ⟨rfl, (hback _).fail "pcall()" error⟩

theorem start (h : Reuses ρ c e r) {n : Nat} (hn : ρ n = c.environment) :
    e.interpreter.start c = (r.interpreter.start { c with environment := n }).rename ρ := by
  rw [← Interpreter.start_rename]
  simp only [hn, Interpreter.start, Interpreter.ready, Interpreter.rename, h.heap, h.vault, h.threads, h.unlimited,
    h.unlimited', h.platform]

theorem run (host : Host α σ) (h : Reuses ρ c e r) {n : Nat} (hn : ρ n = c.environment)
    (hkeeps : Keeps ρ (r.run host { c with environment := n }).2.interpreter.vault.assigned) :
    (e.run host c).1 = (r.run host { c with environment := n }).1 ∧
      Reuses ρ c (e.run host c).2 (r.run host { c with environment := n }).2 := by
  rw [run_eq, vault_conclude] at hkeeps
  obtain ⟨hsession, hmachine⟩ := drive_rename host stepLimit h.session hkeeps
  rw [run_eq, run_eq, h.start hn, hmachine]
  exact h.lent.conclude hsession _

theorem execute (host : Host α σ) (h : Reuses ρ c e r)
    (hkeeps : Keeps ρ (r.execute host).2.interpreter.vault.assigned) :
    (e.execute host).1 = (r.execute host).1 ∧ Reuses ρ c (e.execute host).2 (r.execute host).2 := by
  obtain ⟨n, hn, hr⟩ := h.recompiled
  rw [execute_of_compiled host hr] at hkeeps ⊢
  rw [execute_of_compiled host h.compiled]
  exact h.announce.run host hn hkeeps

theorem reload (h : Reuses ρ c e r) {i i' : Interpreter} {script : String} (hload : i.load script = .ok (c, i'))
    (hi : i.limit = none) : (r.load script).1 = .ok () ∧
      (r.load script).2.compiled = some { c with environment := r.interpreter.loaded } ∧
      ∀ n, ρ n = c.environment →
        Reuses ρ c e { (r.load script).2 with compiled := some { c with environment := n } } := by
  obtain ⟨n, -, hcompiled⟩ := h.recompiled
  obtain ⟨message, hresult⟩ := load_of_interpreter (Interpreter.load_again hi h.unlimited' hload)
  have hheap : (r.interpreter.heap.charge c.size).release c.size = r.interpreter.heap := by
    simp [Lua.Heap.charge, Lua.Heap.release]
  rw [hresult, hcompiled]
  refine ⟨rfl, rfl, fun n hn => ?_⟩
  exact
    { h with
      session := h.session.trans (Alike.emit_self r.session .trace message).symm
      heap := h.heap.trans hheap.symm
      recompiled := ⟨n, hn, rfl⟩
      later := Nat.le_succ_of_le h.later }

end Reuses

/-- Only environments of scripts loaded before `e` were assigned in `e'`. -/
def Unassigned (e e' : Engine α σ) : Prop := ∀ j ∈ e'.interpreter.vault.assigned, j < e.interpreter.loaded

instance (e e' : Engine α σ) : Decidable (Unassigned e e') :=
  decidable_of_iff (∀ j ∈ e'.interpreter.vault.assigned.keys, j < e.interpreter.loaded) (by simp [Unassigned])

theorem assigned_execute (host : Host α σ) {e : Engine α σ} {j : Nat} (h : j ∈ e.interpreter.vault.assigned) :
    j ∈ (e.execute host).2.interpreter.vault.assigned := by
  cases hcompiled : e.compiled with
  | none =>
    rw [execute_without_script host hcompiled]
    exact h
  | some c =>
    rw [execute_of_compiled host hcompiled, run_eq, vault_conclude]
    refine drive_kept host stepLimit ?_
    rw [Interpreter.start_assigned]
    exact h

/-- A way to run a script again that compiles it once more, for all that `ρ` can tell, and forgets no environment. -/
structure Recompiles (host : Host α σ) (ρ : Nat → Nat) (c : Chunk)
    (again : Engine α σ → Except ExecutionError Unit × Engine α σ) : Prop where
  runs : ∀ {e r}, Reuses ρ c e r → ∃ r', again r = r'.execute host ∧ Reuses ρ c e r'
  keeps : ∀ {r j}, j ∈ r.interpreter.vault.assigned → j ∈ (again r).2.interpreter.vault.assigned

/-- Two series of runs that answered the same and did the same to the host. -/
structure SameRuns (s t : List (Except ExecutionError Unit) × Engine α σ) : Prop where
  answers : s.1 = t.1
  host : s.2.session.host = t.2.session.host

namespace Recompiles

variable {host : Host α σ} {ρ : Nat → Nat} {c : Chunk} {again : Engine α σ → Except ExecutionError Unit × Engine α σ}
variable {script : String} {i i' : Interpreter}

theorem executeScript (hload : i.load script = .ok (c, i')) (hi : i.limit = none) :
    Recompiles host (pool c.environment) c (Engine.executeScript host · script) where
  runs := by
    intro e r h
    obtain ⟨hok, hcompiled, hreuses⟩ := h.reload hload hi
    refine ⟨(r.load script).2, executeScript_of_load_ok host hok, ?_⟩
    have hpool : pool c.environment r.interpreter.loaded = c.environment := if_neg (Nat.not_lt.mpr h.later)
    have hnext := hreuses _ hpool
    rw [← hcompiled] at hnext
    exact hnext
  keeps := by
    intro r j hj
    rw [← vault_load r script] at hj
    cases hok : (r.load script).1 with
    | error error =>
      rw [executeScript_of_load_error host hok]
      exact hj
    | ok =>
      rw [executeScript_of_load_ok host hok]
      exact assigned_execute host hj

theorem executeInto (hload : i.load script = .ok (c, i')) (hi : i.limit = none) :
    Recompiles host id c (Engine.executeInto host · c.environment script) where
  runs := by
    intro e r h
    obtain ⟨hok, hcompiled, hreuses⟩ := h.reload hload hi
    refine ⟨_, ?_, hreuses c.environment rfl⟩
    rw [executeInto_of_load_ok host hok, hcompiled, Option.map_some]
  keeps := by
    intro r j hj
    rw [← vault_load r script] at hj
    cases hok : (r.load script).1 with
    | error error =>
      rw [executeInto_of_load_error host hok]
      exact hj
    | ok =>
      rw [executeInto_of_load_ok host hok]
      exact assigned_execute host hj

theorem assigned_times (hagain : Recompiles host ρ c again) (n : Nat) {r : Engine α σ} {j : Nat}
    (h : j ∈ r.interpreter.vault.assigned) : j ∈ (Engine.times again n r).2.interpreter.vault.assigned := by
  induction n generalizing r with
  | zero => exact h
  | succ n ih => exact ih (hagain.keeps h)

/-- Runs of the chunk that is there go as runs that compile its script again each time. -/
theorem times (hagain : Recompiles host ρ c again) (n : Nat) {e r : Engine α σ} (h : Reuses ρ c e r)
    (hkeeps : Keeps ρ (Engine.times again n r).2.interpreter.vault.assigned) :
    SameRuns (Engine.times (execute host) n e) (Engine.times again n r) := by
  induction n generalizing e r with
  | zero => exact ⟨rfl, h.session.host⟩
  | succ n ih =>
    obtain ⟨r', hagain', hrecompiled⟩ := hagain.runs h
    -- what the first run assigned is still assigned after the others
    have hfirst : Keeps ρ (r'.execute host).2.interpreter.vault.assigned := by
      intro j hj
      rw [← hagain'] at hj
      exact hkeeps j (hagain.assigned_times n hj)
    obtain ⟨hanswer, hafter⟩ := hrecompiled.execute host hfirst
    rw [← hagain'] at hanswer hafter
    obtain ⟨hanswers, hhost⟩ := ih hafter hkeeps
    refine ⟨?_, hhost⟩
    simp only [Engine.times, hanswer, hanswers]

end Recompiles

theorem Numbered.reuses {e : Engine α σ} (h : e.Numbered) (hlimit : e.interpreter.limit = none) {script : String}
    {c : Chunk} {i : Interpreter} (hload : e.interpreter.load script = .ok (c, i)) {ρ : Nat → Nat}
    (hbelow : KeepsBelow c.environment ρ) (hown : ρ c.environment = c.environment) :
    Reuses ρ c (e.load script).2 (e.load script).2 := by
  obtain ⟨message, hresult⟩ := load_of_interpreter hload
  obtain ⟨-, henvironment, -, rfl⟩ := Interpreter.load_eq_ok hload
  rw [henvironment] at hbelow
  have hvault := (h.interpreter.vault ρ hbelow).symm
  have hthreads := (h.interpreter.threads ρ hbelow).symm
  have hlater : c.environment ≤ e.interpreter.loaded + 1 := by omega
  rw [hresult]
  cases e.compiled with
  | none => exact ⟨.refl _, rfl, hvault, hthreads, hlimit, hlimit, rfl, rfl, ⟨_, hown, rfl⟩, hlater⟩
  | some earlier => exact ⟨.refl _, rfl, hvault, hthreads, hlimit, hlimit, rfl, rfl, ⟨_, hown, rfl⟩, hlater⟩

/-- The first run after a load cannot tell the chunk from a new one; from the second on it matters which environments
stand for others. -/
theorem times_of_numbered {host : Host α σ} {e : Engine α σ} (h : e.Numbered) (hlimit : e.interpreter.limit = none)
    {script : String} {c : Chunk} {i : Interpreter} (hload : e.interpreter.load script = .ok (c, i)) {ρ : Nat → Nat}
    (hbelow : KeepsBelow c.environment ρ) (hown : ρ c.environment = c.environment)
    {again : Engine α σ → Except ExecutionError Unit × Engine α σ} (hagain : Recompiles host ρ c again)
    (hfirst : again e = (e.load script).2.execute host) (n : Nat)
    (hkeeps : 2 ≤ n → Keeps ρ (times again n e).2.interpreter.vault.assigned) :
    SameRuns (times (execute host) n (e.load script).2) (times again n e) := by
  match n with
  | 0 =>
    obtain ⟨message, hresult⟩ := load_of_interpreter hload
    refine ⟨rfl, ?_⟩
    simp only [times, hresult]
    exact (Alike.emit_self e.session .trace message).host
  | 1 =>
    rw [times, times, hfirst]
    exact ⟨rfl, rfl⟩
  | n + 2 =>
    have hlast := hkeeps (by omega)
    have hthen : Keeps ρ ((e.load script).2.execute host).2.interpreter.vault.assigned := by
      intro j hj
      rw [← hfirst] at hj
      exact hlast j (hagain.assigned_times (n + 1) hj)
    have hreuses := ((h.reuses hlimit hload hbelow hown).execute host hthen).2
    rw [← hfirst] at hreuses
    obtain ⟨hanswers, hhost⟩ := hagain.times (n + 1) hreuses hlast
    refine ⟨?_, ?_⟩
    · rw [times, times, ← hfirst]
      simp only [hanswers]
    · rw [times, times, ← hfirst]
      exact hhost

theorem exists_chunk_of_load_ok {e : Engine α σ} {script : String} (hok : (e.load script).1 = .ok ()) :
    ∃ c i, e.interpreter.load script = .ok (c, i) ∧ c.environment = e.interpreter.loaded := by
  cases hload : e.interpreter.load script with
  | error error =>
    rw [(load_of_interpreter_error hload).1] at hok
    cases hok
  | ok loaded => exact ⟨loaded.1, loaded.2, rfl, (Interpreter.load_eq_ok hload).2.1⟩

theorem executeInto_own (host : Host α σ) {e : Engine α σ} {script : String} (hok : (e.load script).1 = .ok ()) :
    e.executeInto host e.interpreter.loaded script = (e.load script).2.execute host := by
  obtain ⟨c, i, hload, henvironment⟩ := exists_chunk_of_load_ok hok
  obtain ⟨message, hresult⟩ := load_of_interpreter hload
  rw [executeInto_of_load_ok host hok, hresult, ← henvironment]
  rfl

/-- Loading a script and running it any number of times answers and does to the host what loading it for every run into
the environment of the first does: nothing else is left of a run in the chunk. If from two runs on none of them assigns
the environment of its script, it is also what loading it afresh for every run answers and does. -/
theorem execute_again (host : Host α σ) (options : EngineOptions) (world : σ) (platform : Lua.Platform)
    (ops : List (Operation α)) (script : String) (n : Nat) {e : Engine α (σ × List (α × List Argument))}
    (he : e = after host.recording ops (create options (world, []) platform)) (hlimit : e.interpreter.limit = none)
    (hload : (e.load script).1 = .ok ()) :
    SameRuns (times (execute host.recording) n (e.load script).2)
        (times (executeInto host.recording · e.interpreter.loaded script) n e) ∧
      ((2 ≤ n → Unassigned e (times (executeScript host.recording · script) n e).2) →
        SameRuns (times (execute host.recording) n (e.load script).2)
          (times (executeScript host.recording · script) n e)) := by
  have hnumbered : e.Numbered := he ▸ (Numbered.create options (world, []) platform).after host.recording ops
  obtain ⟨c, i, hchunk, henvironment⟩ := exists_chunk_of_load_ok hload
  refine ⟨?_, fun hassigned => ?_⟩
  · have hinto : Recompiles host.recording id c (executeInto host.recording · e.interpreter.loaded script) :=
      henvironment ▸ .executeInto hchunk hlimit
    exact times_of_numbered hnumbered hlimit hchunk (fun _ _ _ => Iff.rfl) rfl hinto (executeInto_own _ hload) n
      fun _ _ _ _ => Iff.rfl
  · have hown : pool c.environment c.environment = c.environment := if_neg (Nat.lt_irrefl _)
    refine times_of_numbered hnumbered hlimit hchunk (.pool c.environment) hown (.executeScript hchunk hlimit)
      (executeScript_of_load_ok _ hload) n fun htwo => ?_
    have hbelow := hassigned htwo
    simp only [Unassigned, ← henvironment] at hbelow
    exact (KeepsBelow.pool c.environment).keeps hbelow

-- The engine of the two runs below has one function, which answers how many arguments it got.

def counting : Host Unit Unit where
  call _ args _ := (.ok (.ofNat args.length), ())

def countingEngine : Engine Unit (Unit × List (Unit × List Argument)) :=
  after counting.recording [.register ⟨"app", "note"⟩ ()] (create {} ((), []))

/-- A script that counts its runs in a global variable counts on when it is run again. -/
theorem execute_again_counts :
    let script := "n = (n or 0) + 1 app:note(n)"
    SameRuns (times (execute counting.recording) 2 (countingEngine.load script).2)
        (times (executeInto counting.recording · countingEngine.interpreter.loaded script) 2 countingEngine) ∧
      SameRuns (times (execute counting.recording) 2 (countingEngine.load script).2)
        (times (executeScript counting.recording · script) 2 countingEngine) := by
  have hruns := execute_again counting {} () {} [.register ⟨"app", "note"⟩ ()] "n = (n or 0) + 1 app:note(n)" 2
    (e := countingEngine) rfl (by decide +kernel) (by decide +kernel)
  exact ⟨hruns.1, hruns.2 (by decide +kernel)⟩

/-- A script that takes its environment away cannot be run again, but can be loaded again. -/
theorem execute_again_without_environment :
    let script := "app:note(1) _ENV = nil"
    (countingEngine.load script).1 = .ok () ∧ countingEngine.interpreter.limit = none ∧
      (times (execute counting.recording) 2 (countingEngine.load script).2).1.map Event.codeOf = [.ok, .runtimeError] ∧
      (times (executeScript counting.recording · script) 2 countingEngine).1.map Event.codeOf = [.ok, .ok] ∧
      (times (execute counting.recording) 2 (countingEngine.load script).2).2.session.host.2.length = 1 ∧
      (times (executeScript counting.recording · script) 2 countingEngine).2.session.host.2.length = 2 := by
  decide +kernel

end Engine

end ScriptHost
