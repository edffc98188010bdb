import ScriptHost.Engine

/-! # The scripts of an engine over its life

An engine keeps what it loaded in three places: the texts, the chunk that the next run calls, and the state. They are
held here against the events of its life, which are the loads that succeeded and the runs with what they answered.
Operations that fail may be anywhere in between; what the scripts do is not looked at. -/

namespace ScriptHost

namespace Lua.Interpreter

/-- A load that succeeds has compiled the script, and takes the next environment and the size of the chunk. -/
theorem load_eq_ok {i j : Interpreter} {script : String} {c : Chunk} (h : i.load script = .ok (c, j)) :
    compile (bytes script) (bytes script) 0 = .ok c.proto ∧ c.environment = i.loaded ∧
      c.size = chunkSize (bytes script) ∧ j = { i with heap := i.heap.charge c.size, loaded := i.loaded + 1 } := by
  simp only [load, bind, Except.bind, pure, Except.pure, throw, throwThe, MonadExceptOf.throw] at h
  cases hrefusal : refusal? (bytes script) with
  | some e => simp [hrefusal] at h
  | none =>
    cases hadmits : i.heap.admits i.limit (chunkSize (bytes script)) with
    | false => simp [hrefusal, hadmits] at h
    | true =>
      cases hcompile : compile (bytes script) (bytes script) 0 with
      | error e => simp [hrefusal, hadmits, hcompile] at h
      | ok p =>
        simp only [hrefusal, hadmits, hcompile, Bool.not_true, Bool.false_eq_true, if_false, Except.ok.injEq,
          Prod.mk.injEq] at h
        obtain ⟨rfl, rfl⟩ := h
        exact ⟨rfl, rfl, rfl, rfl⟩

theorem proxyOf_cases {i j : Interpreter} {space : Bytes} {proxy : Value} (h : i.proxyOf space = some (proxy, j)) :
    (i.heap.rawGet i.vault.proxies (.str space) = .nil ∧ (proxy, j) = i.addProxy space) ∨
      (i.heap.rawGet i.vault.proxies (.str space) = proxy ∧ proxy ≠ .nil ∧ j = i) := by
  unfold proxyOf at h
  split at h
  · next hnil =>
    split at h
    · exact Or.inl ⟨hnil, (Option.some.inj h).symm⟩
    · cases h
  · next hsome =>
    cases h
    exact Or.inr ⟨rfl, hsome, rfl⟩

theorem install_cases {i j : Interpreter} {space : String} {shadowed : Bool} (h : i.install space = .ok (shadowed, j)) :
    ∃ proxy k, i.proxyOf (bytes space) = some (proxy, k) ∧
      j = { k with heap := k.heap.rawSet k.vault.globals (.ofText space) proxy } := by
  unfold install at h
  split at h
  · next proxy k hproxy =>
    cases h
    exact ⟨proxy, k, hproxy, rfl⟩
  · cases h

/-- An installation writes to the store and adds closures, and nothing else. -/
theorem install_frame {i j : Interpreter} {space : String} {shadowed : Bool} (h : i.install space = .ok (shadowed, j)) :
    ∃ heap closures, j = { i with heap, vault := { i.vault with closures } } := by
  obtain ⟨proxy, k, hproxy, rfl⟩ := install_cases h
  rcases proxyOf_cases hproxy with ⟨-, hnew⟩ | ⟨-, -, rfl⟩
  · cases hnew
    exact ⟨_, _, rfl⟩
  · exact ⟨_, k.vault.closures, rfl⟩

end Lua.Interpreter

namespace ExecutionError

theorem toResult_eq_error {r e : ExecutionError} (h : r.toResult = .error e) : e = r ∧ e.code ≠ .ok := by
  unfold toResult at h
  split at h
  · cases h
  · next hcode =>
    cases h
    exact ⟨rfl, fun hok => hcode (by simp [ReturnCode.isOk, hok])⟩

theorem toResult_eq_ok {r : ExecutionError} (h : r.toResult = .ok ()) : r.code = .ok := by
  unfold toResult at h
  split at h
  · next hcode => simpa [ReturnCode.isOk] using hcode
  · cases h

theorem toResult_of_ne {r : ExecutionError} (h : r.code ≠ .ok) : r.toResult = .error r :=
  if_neg fun hok => h (by simpa [ReturnCode.isOk] using hok)

end ExecutionError

namespace Engine

open Lua (Interpreter Machine Chunk bytes compile)

variable {α σ : Type}

/-- What the host can ask of an engine. -/
inductive Operation (α : Type) where
  | load (script : String)
  | execute
  | executeScript (script : String)
  | invoke (key : Key) (args : List Argument)
  | register (key : Key) (handle : α)
  | setLogLevel (word : String)

/-- What happens to the scripts of an engine: one is loaded, or the one loaded last is run. -/
inductive Event where
  | loaded (script : String)
  | ran (result : Except ExecutionError Unit)

namespace Operation

def apply (host : Host α σ) (e : Engine α σ) : Operation α → Engine α σ
  | load script => (e.load script).2
  | execute => (e.execute host).2
  | executeScript script => (e.executeScript host script).2
  | invoke key args => (e.invoke host key args).2
  | register key handle => (e.register key handle).2
  | setLogLevel word => e.setLogLevel word

/-- The events of an operation. A load that fails is none, and neither is a run without a script. -/
def events (host : Host α σ) (e : Engine α σ) : Operation α → List Event
  | load script =>
    match (e.load script).1 with
    | .ok () => [.loaded script]
    | .error _ => []
  | execute => if e.source?.isSome then [.ran (e.execute host).1] else []
  | executeScript script =>
    match (e.load script).1 with
    | .ok () => [.loaded script, .ran (e.executeScript host script).1]
    | .error _ => []
  | _ => []

end Operation

def after (host : Host α σ) (ops : List (Operation α)) (e : Engine α σ) : Engine α σ :=
  ops.foldl (fun e op => op.apply host e) e

def eventsOf (host : Host α σ) : List (Operation α) → Engine α σ → List Event
  | [], _ => []
  | op :: ops, e => op.events host e ++ eventsOf host ops (op.apply host e)

namespace Event

def script? : Event → Option String
  | loaded script => some script
  | ran _ => none

def scripts (evs : List Event) : List String := evs.filterMap script?

theorem scripts_append (evs evs' : List Event) : scripts (evs ++ evs') = scripts evs ++ scripts evs' :=
  List.filterMap_append

def codeOf : Except ExecutionError Unit → ReturnCode
  | .ok () => .ok
  | .error error => error.code

def stateAfter (evs : List Event) : EngineState :=
  match evs.getLast? with
  | none => .created
  | some (loaded _) => .loaded
  | some (ran result) => .executed (codeOf result)

end Event

/-- The part of an engine that its scripts are kept in. -/
def kept (e : Engine α σ) : Array String × Option Chunk × EngineState := (e.history, e.compiled, e.state)

@[simp] theorem kept_emit (e : Engine α σ) (severity : Severity) (message : Unit → String) :
    (e.emit severity message).kept = e.kept := rfl

@[simp] theorem kept_fail (e : Engine α σ) (operation : String) (error : ExecutionError) :
    (e.fail operation error).kept = e.kept := rfl

theorem kept_setLogLevel (e : Engine α σ) (word : String) : (e.setLogLevel word).kept = e.kept := by
  unfold setLogLevel
  split <;> rfl

theorem kept_register (e : Engine α σ) (key : Key) (handle : α) : (e.register key handle).2.kept = e.kept := by
  unfold register
  simp only
  split
  · rfl
  · split <;> rfl

theorem register_frame (e : Engine α σ) (key : Key) (handle : α) : ∃ heap closures,
    (e.register key handle).2.interpreter = { e.interpreter with heap, vault := { e.interpreter.vault with closures } } := by
  unfold register
  simp only
  split
  · exact ⟨e.interpreter.heap, e.interpreter.vault.closures, rfl⟩
  · next hinstall =>
    obtain ⟨heap, closures, rfl⟩ := Interpreter.install_frame hinstall
    split <;> exact ⟨heap, closures, rfl⟩

theorem create_frame (options : EngineOptions) (world : σ) (platform : Lua.Platform) : ∃ heap closures limit,
    (create options world platform : Engine α σ).interpreter =
      { Interpreter.fresh platform with
        heap, limit, vault := { (Interpreter.fresh platform).vault with closures } } := by
  unfold create
  cases hinstall : (Interpreter.fresh platform).install defaultNamespace with
  | ok installed =>
    obtain ⟨heap, closures, hframe⟩ := Interpreter.install_frame (j := installed.2) hinstall
    refine ⟨heap, closures, options.memoryLimit.filter (0 < ·), ?_⟩
    simp only [hframe]
    rfl
  | error _ => exact ⟨(Interpreter.fresh platform).heap, (Interpreter.fresh platform).vault.closures, _, rfl⟩

theorem invoke_frame (host : Host α σ) (e : Engine α σ) (key : Key) (args : List Argument) :
    (e.invoke host key args).2 = { e with session := (e.invoke host key args).2.session } := by
  unfold invoke
  simp only
  split
  · rfl
  · split
    · rfl
    · split <;> rfl

theorem kept_invoke (host : Host α σ) (e : Engine α σ) (key : Key) (args : List Argument) :
    (e.invoke host key args).2.kept = e.kept := by
  rw [invoke_frame]
  rfl

theorem execute_without_script (host : Host α σ) {e : Engine α σ} (h : e.compiled = none) :
    e.execute host = (.error noScript, e.fail "execute()" noScript) := by
  simp only [execute, h]

/-- A load either fails and leaves the scripts alone, or puts the script at the end of the history and its compilation
in place of the chunk. -/
theorem load_cases (e : Engine α σ) (script : String) :
    (∃ error, (e.load script).1 = .error error ∧ (e.load script).2.kept = e.kept) ∨
      ∃ chunk, (e.load script).1 = .ok () ∧ compile (bytes script) (bytes script) 0 = .ok chunk.proto ∧
        (e.load script).2.kept = (e.history.push script, some chunk, .loaded) := by
  unfold load
  simp only
  split
  · next chunk interpreter hload =>
    exact Or.inr ⟨chunk, rfl, (Interpreter.load_eq_ok hload).1, rfl⟩
  · exact Or.inl ⟨_, rfl, rfl⟩

theorem vault_load (e : Engine α σ) (script : String) :
    (e.load script).2.interpreter.vault = e.interpreter.vault := by
  unfold load
  simp only
  split
  · next chunk interpreter hload =>
    obtain ⟨-, -, -, rfl⟩ := Interpreter.load_eq_ok hload
    unfold emit
    cases e.compiled <;> rfl
  · rfl

theorem executeScript_of_load_error (host : Host α σ) {e : Engine α σ} {script : String} {error : ExecutionError}
    (h : (e.load script).1 = .error error) : e.executeScript host script = e.load script := by
  have hload : e.load script = (.error error, (e.load script).2) := Prod.ext h rfl
  rw [executeScript, hload]

theorem executeScript_of_load_ok (host : Host α σ) {e : Engine α σ} {script : String} (h : (e.load script).1 = .ok ()) :
    e.executeScript host script = (e.load script).2.execute host := by
  have hload : e.load script = (.ok (), (e.load script).2) := Prod.ext h rfl
  rw [executeScript, hload]

theorem kept_conclude (e : Engine α σ) (session : Session α σ) (m : Machine) :
    (e.conclude session m).2.kept = (e.history, e.compiled, .executed (Event.codeOf (e.conclude session m).1)) := by
  unfold conclude
  simp only
  split
  · next hresult =>
    rw [ExecutionError.toResult_eq_ok hresult]
    rfl
  · next error hresult =>
    obtain ⟨rfl, -⟩ := ExecutionError.toResult_eq_error hresult
    rfl

theorem conclude_error_code (e : Engine α σ) (session : Session α σ) (m : Machine) {error : ExecutionError}
    (h : (e.conclude session m).1 = .error error) : error.code ≠ .ok := by
  unfold conclude at h
  simp only at h
  split at h
  · cases h
  · next hresult =>
    cases h
    exact (ExecutionError.toResult_eq_error hresult).2

theorem conclude_answer (e : Engine α σ) (session : Session α σ) (m : Machine) :
    (e.conclude session m).1 = (recordOf m).toResult := by
  unfold conclude
  simp only
  split
  · next hresult => exact hresult.symm
  · next hresult => exact hresult.symm

theorem vault_conclude (e : Engine α σ) (session : Session α σ) (m : Machine) :
    (e.conclude session m).2.interpreter.vault = m.vault := by
  unfold conclude
  simp only
  split <;> rfl

/-- A run drives the machine to its end, while the engine has lent it its interpreter. -/
theorem run_eq (host : Host α σ) (e : Engine α σ) (c : Chunk) :
    e.run host c = ({ e with interpreter := e.interpreter.lent } : Engine α σ).conclude
      (drive host stepLimit e.session (e.interpreter.start c)).1
      (drive host stepLimit e.session (e.interpreter.start c)).2 := rfl

/-- The code of what a run answers becomes the state. -/
theorem kept_run (host : Host α σ) (e : Engine α σ) (chunk : Chunk) :
    (e.run host chunk).2.kept = (e.history, e.compiled, .executed (Event.codeOf (e.run host chunk).1)) :=
  kept_conclude { e with interpreter := e.interpreter.lent } _ _

theorem run_error_code (host : Host α σ) (e : Engine α σ) (chunk : Chunk) {error : ExecutionError}
    (h : (e.run host chunk).1 = .error error) : error.code ≠ .ok :=
  conclude_error_code { e with interpreter := e.interpreter.lent } _ _ h

theorem execute_of_compiled (host : Host α σ) {e : Engine α σ} {chunk : Chunk} (h : e.compiled = some chunk) :
    e.execute host = e.announce.run host chunk := by
  simp only [execute, h]

theorem kept_execute (host : Host α σ) {e : Engine α σ} {chunk : Chunk} (h : e.compiled = some chunk) :
    (e.execute host).2.kept = (e.history, e.compiled, .executed (Event.codeOf (e.execute host).1)) := by
  rw [execute_of_compiled host h]
  exact kept_run host e.announce chunk

theorem execute_error_code (host : Host α σ) (e : Engine α σ) {error : ExecutionError}
    (h : (e.execute host).1 = .error error) : error.code ≠ .ok := by
  cases hcompiled : e.compiled with
  | none =>
    rw [execute_without_script host hcompiled] at h
    cases h
    decide
  | some chunk =>
    rw [execute_of_compiled host hcompiled] at h
    exact run_error_code host _ chunk h

/-- What an engine keeps of its scripts is what the events of its life say. -/
structure Coherent (e : Engine α σ) (evs : List Event) : Prop where
  history : e.history.toList = Event.scripts evs
  /-- There is a chunk to run if anything was loaded. -/
  runnable : e.compiled.isSome ↔ e.history ≠ #[]
  /-- The chunk is the compilation of the last text. -/
  latest : ∀ chunk, e.compiled = some chunk →
    ∃ script, e.source? = some script ∧ compile (bytes script) (bytes script) 0 = .ok chunk.proto
  created : e.state ≠ .created ↔ e.history ≠ #[]
  state : e.state = Event.stateAfter evs

theorem Coherent.create (options : EngineOptions) (world : σ) (platform : Lua.Platform) :
    Coherent (create options world platform : Engine α σ) [] where
  history := rfl
  runnable := by simp [Engine.create, emit]
  latest := by simp [Engine.create, emit]
  created := by simp [Engine.create, emit]
  state := rfl

theorem Coherent.of_kept {e e' : Engine α σ} {evs : List Event} (h : Coherent e evs) (hkept : e'.kept = e.kept) :
    Coherent e' evs := by
  simp only [kept, Prod.mk.injEq] at hkept
  obtain ⟨hhistory, hcompiled, hstate⟩ := hkept
  refine ⟨hhistory ▸ h.history, ?_, ?_, ?_, hstate ▸ h.state⟩
  · rw [hcompiled, hhistory]
    exact h.runnable
  · rw [hcompiled, source?, hhistory]
    exact h.latest
  · rw [hstate, hhistory]
    exact h.created

theorem Coherent.loaded {e e' : Engine α σ} {evs : List Event} (h : Coherent e evs) {script : String} {chunk : Chunk}
    (hcompile : compile (bytes script) (bytes script) 0 = .ok chunk.proto)
    (hkept : e'.kept = (e.history.push script, some chunk, .loaded)) : Coherent e' (evs ++ [.loaded script]) := by
  simp only [kept, Prod.mk.injEq] at hkept
  obtain ⟨hhistory, hcompiled, hstate⟩ := hkept
  refine ⟨?_, ?_, ?_, ?_, ?_⟩
  · rw [hhistory, Event.scripts_append, ← h.history, Array.toList_push]
    rfl
  · simp [hcompiled, hhistory]
  · intro c hc
    rw [hcompiled, Option.some.injEq] at hc
    subst hc
    exact ⟨script, by simp [source?, hhistory], hcompile⟩
  · simp [hstate, hhistory]
  · simp [hstate, Event.stateAfter]

theorem Coherent.ran {e e' : Engine α σ} {evs : List Event} (h : Coherent e evs) (hsome : e.history ≠ #[])
    {result : Except ExecutionError Unit}
    (hkept : e'.kept = (e.history, e.compiled, .executed (Event.codeOf result))) : Coherent e' (evs ++ [.ran result]) := by
  simp only [kept, Prod.mk.injEq] at hkept
  obtain ⟨hhistory, hcompiled, hstate⟩ := hkept
  refine ⟨?_, ?_, ?_, ?_, ?_⟩
  · rw [hhistory, Event.scripts_append, h.history]
    simp [Event.scripts, Event.script?]
  · rw [hcompiled, hhistory]
    exact h.runnable
  · rw [hcompiled, source?, hhistory]
    exact h.latest
  · simp [hstate, hhistory, hsome]
  · simp [hstate, Event.stateAfter]

theorem Coherent.execute (host : Host α σ) {e : Engine α σ} {evs : List Event} (h : Coherent e evs)
    (hsome : e.history ≠ #[]) : Coherent (e.execute host).2 (evs ++ [.ran (e.execute host).1]) := by
  obtain ⟨chunk, hchunk⟩ := Option.isSome_iff_exists.mp (h.runnable.mpr hsome)
  exact h.ran hsome (kept_execute host hchunk)

/-- One operation keeps what is kept in step with the events. -/
theorem Coherent.apply (host : Host α σ) {e : Engine α σ} {evs : List Event} (h : Coherent e evs) (op : Operation α) :
    Coherent (op.apply host e) (evs ++ op.events host e) := by
  cases op with
  | load script =>
    rcases load_cases e script with ⟨error, hresult, hkept⟩ | ⟨chunk, hresult, hcompile, hkept⟩
    · simpa [Operation.apply, Operation.events, hresult] using h.of_kept hkept
    · simpa [Operation.apply, Operation.events, hresult] using h.loaded hcompile hkept
  | execute =>
    by_cases hsome : e.history = #[]
    · have hnone : e.compiled = none := by simpa [hsome] using h.runnable
      have hsource : e.source? = none := by simp [source?, hsome]
      have hkept : (e.fail "execute()" noScript).kept = e.kept := rfl
      simpa [Operation.apply, Operation.events, hsource, execute_without_script host hnone] using h.of_kept hkept
    · have hsource : e.source?.isSome := by
        rw [source?, Option.isSome_iff_ne_none]
        exact fun hnone => hsome (Array.back?_eq_none_iff.mp hnone)
      simpa [Operation.apply, Operation.events, hsource] using h.execute host hsome
  | executeScript script =>
    rcases load_cases e script with ⟨error, hresult, hkept⟩ | ⟨chunk, hresult, hcompile, hkept⟩
    · simpa [Operation.apply, Operation.events, hresult, executeScript_of_load_error host hresult] using h.of_kept hkept
    · have hloaded := h.loaded hcompile hkept
      have hsome : (e.load script).2.history ≠ #[] := by
        have hhistory : (e.load script).2.history = e.history.push script := congrArg Prod.fst hkept
        simp [hhistory]
      simpa [Operation.apply, Operation.events, hresult, executeScript_of_load_ok host hresult] using
        hloaded.execute host hsome
  | invoke key args => simpa [Operation.apply, Operation.events] using h.of_kept (kept_invoke host e key args)
  | register key handle => simpa [Operation.apply, Operation.events] using h.of_kept (kept_register e key handle)
  | setLogLevel word => simpa [Operation.apply, Operation.events] using h.of_kept (kept_setLogLevel e word)

theorem Coherent.after (host : Host α σ) (ops : List (Operation α)) {e : Engine α σ} {evs : List Event}
    (h : Coherent e evs) : Coherent (after host ops e) (evs ++ eventsOf host ops e) := by
  induction ops generalizing e evs with
  | nil => simpa [Engine.after, eventsOf] using h
  | cons op ops ih => simpa [Engine.after, eventsOf] using ih (h.apply host op)

/-- What an engine does with its scripts next, whatever happened before: only a load that succeeds and a run of a loaded
script touch what is kept, and a run is one of the chunk that is kept. -/
structure Disciplined (host : Host α σ) (e : Engine α σ) : Prop where
  failed_load : ∀ script error, (e.load script).1 = .error error →
    (e.load script).2.kept = e.kept ∧ e.executeScript host script = e.load script
  invoke : ∀ key args, (e.invoke host key args).2.kept = e.kept
  register : ∀ key handle, (e.register key handle).2.kept = e.kept
  setLogLevel : ∀ word, (e.setLogLevel word).kept = e.kept
  no_script : e.compiled = none →
    ∃ error, (e.execute host).1 = .error error ∧ error.code = .runtimeError ∧ (e.execute host).2.kept = e.kept
  runs_chunk : ∀ chunk, e.compiled = some chunk → e.execute host = e.announce.run host chunk
  error_code : ∀ error, (e.execute host).1 = .error error → error.code ≠ .ok

theorem disciplined (host : Host α σ) (e : Engine α σ) : Disciplined host e where
  failed_load script error h := by
    rcases load_cases e script with ⟨_, _, hkept⟩ | ⟨_, hresult, _, _⟩
    · exact ⟨hkept, executeScript_of_load_error host h⟩
    · rw [h] at hresult
      cases hresult
  invoke := kept_invoke host e
  register := kept_register e
  setLogLevel := kept_setLogLevel e
  no_script h := ⟨noScript, by rw [execute_without_script host h], rfl, by rw [execute_without_script host h]; rfl⟩
  runs_chunk _ h := execute_of_compiled host h
  error_code _ := execute_error_code host e

/-- After any operations on a new engine, in any order and with whatever failures, the scripts that the engine keeps are
those of the events so far, and the next operation treats them with the same discipline. -/
theorem coherent_after_create (host : Host α σ) (options : EngineOptions) (world : σ) (platform : Lua.Platform)
    (ops : List (Operation α)) :
    Coherent (after host ops (create options world platform)) (eventsOf host ops (create options world platform)) ∧
      Disciplined host (after host ops (create options world platform)) :=
  ⟨by simpa using (Coherent.create options world platform).after host ops, disciplined host _⟩

end Engine

end ScriptHost
