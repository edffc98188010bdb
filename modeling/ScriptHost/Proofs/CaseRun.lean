import ScriptHost.Case.Run
import ScriptHost.Proofs.Calls
import ScriptHost.Proofs.Codes
import ScriptHost.Proofs.Sources

/-! # The run of a case

A run of a case is a series of steps on an engine: the helper scripts, the loading of the main script, and its
executions. The steps are operations like any others and are taken up to the first that fails; what the report says is
read off the steps that were begun. -/

namespace ScriptHost

open Lua (Machine Chunk bytes compile)

variable {α σ : Type}

namespace Engine

theorem after_append (host : Host α σ) (ops ops' : List (Operation α)) (e : Engine α σ) :
    after host (ops ++ ops') e = after host ops' (after host ops e) := List.foldl_append

/-- The operations of a series that are begun if the first that fails is the last, and its error. -/
def untilFailure (host : Host α σ) : List (Operation α) → Engine α σ → List (Operation α) × Option ExecutionError
  | [], _ => ([], none)
  | op :: ops, e =>
    match op.returned? host e with
    | some error => ([op], some error)
    | none =>
      let (begun, failure) := untilFailure host ops (op.apply host e)
      (op :: begun, failure)

def answerOf : Option ExecutionError → Except ExecutionError Unit
  | none => .ok ()
  | some error => .error error

section UntilFailure

variable {host : Host α σ} {e : Engine α σ} {op : Operation α}

theorem untilFailure_of_error {error : ExecutionError} (h : op.returned? host e = some error)
    (ops : List (Operation α)) : untilFailure host (op :: ops) e = ([op], some error) := by
  simp only [untilFailure, h]

theorem untilFailure_of_ok (h : op.returned? host e = none) (ops : List (Operation α)) :
    untilFailure host (op :: ops) e =
      (op :: (untilFailure host ops (op.apply host e)).1, (untilFailure host ops (op.apply host e)).2) := by
  simp only [untilFailure, h]

variable (host)

/-- Either all operations are begun and none fails, or the last that is begun fails. -/
theorem untilFailure_cases (ops : List (Operation α)) (e : Engine α σ) :
    untilFailure host ops e = (ops, none) ∨
      ∃ begun error, untilFailure host ops e = (begun, some error) ∧ begun <+: ops ∧ begun ≠ [] := by
  induction ops generalizing e with
  | nil => exact Or.inl rfl
  | cons op ops ih =>
    cases hreturned : op.returned? host e with
    | some error => exact Or.inr ⟨[op], error, untilFailure_of_error hreturned ops, by simp, by simp⟩
    | none =>
      rw [untilFailure_of_ok hreturned]
      rcases ih (op.apply host e) with h | ⟨begun, error, h, hprefix, -⟩
      · exact Or.inl (by rw [h])
      · exact Or.inr ⟨op :: begun, error, by rw [h], by simpa using hprefix, by simp⟩

theorem untilFailure_begun (ops : List (Operation α)) (e : Engine α σ) : (untilFailure host ops e).1 <+: ops := by
  rcases untilFailure_cases host ops e with h | ⟨begun, error, h, hprefix, -⟩
  · exact h ▸ List.prefix_rfl
  · exact h ▸ hprefix

variable {host}

theorem untilFailure_append_of_failure {ops begun : List (Operation α)} {error : ExecutionError}
    (h : untilFailure host ops e = (begun, some error)) (rest : List (Operation α)) :
    untilFailure host (ops ++ rest) e = (begun, some error) := by
  induction ops generalizing e begun with
  | nil => cases h
  | cons op ops ih =>
    rw [List.cons_append]
    cases hreturned : op.returned? host e with
    | some error' => rwa [untilFailure_of_error hreturned] at h ⊢
    | none =>
      rw [untilFailure_of_ok hreturned, Prod.mk.injEq] at h
      rw [untilFailure_of_ok hreturned, ih (Prod.ext rfl h.2), ← h.1]

theorem untilFailure_append_of_success {ops : List (Operation α)} (h : untilFailure host ops e = (ops, none))
    (rest : List (Operation α)) : untilFailure host (ops ++ rest) e =
      (ops ++ (untilFailure host rest (after host ops e)).1, (untilFailure host rest (after host ops e)).2) := by
  induction ops generalizing e with
  | nil => rfl
  | cons op ops ih =>
    rw [List.cons_append]
    cases hreturned : op.returned? host e with
    | some error => simp [untilFailure_of_error hreturned] at h
    | none =>
      rw [untilFailure_of_ok hreturned, Prod.mk.injEq, List.cons.injEq] at h
      rw [untilFailure_of_ok hreturned, ih (Prod.ext h.1.2 h.2)]
      rfl

/-- What comes before an operation that is begun has succeeded. -/
theorem untilFailure_of_begun {ops earlier later : List (Operation α)}
    (h : (untilFailure host ops e).1 = earlier ++ op :: later) : untilFailure host earlier e = (earlier, none) := by
  have hprefix : earlier <+: ops :=
    (List.prefix_append earlier (op :: later)).trans (h ▸ untilFailure_begun host ops e)
  obtain ⟨rest, rfl⟩ := hprefix
  rcases untilFailure_cases host earlier e with hall | ⟨begun, error, hfails, hbegun, -⟩
  · exact hall
  · -- otherwise no more than a beginning of `earlier` would be begun
    rw [untilFailure_append_of_failure hfails] at h
    have hlength := hbegun.length_le
    have hbegunLength := congrArg List.length h
    simp only [List.length_append, List.length_cons] at hbegunLength
    omega

theorem returned_of_untilFailure {ops begun : List (Operation α)} {error : ExecutionError}
    (h : untilFailure host ops e = (begun, some error)) : ∃ op ∈ ops, ∃ e', op.returned? host e' = some error := by
  induction ops generalizing e begun with
  | nil => cases h
  | cons op ops ih =>
    cases hreturned : op.returned? host e with
    | some error' =>
      rw [untilFailure_of_error hreturned, Prod.mk.injEq] at h
      exact ⟨op, List.mem_cons_self, e, hreturned.trans h.2⟩
    | none =>
      rw [untilFailure_of_ok hreturned, Prod.mk.injEq] at h
      obtain ⟨op', hop', e', hreturned'⟩ := ih (Prod.ext rfl h.2)
      exact ⟨op', List.mem_cons_of_mem _ hop', e', hreturned'⟩

end UntilFailure

theorem load_error_code {e : Engine α σ} {script : String} {error : ExecutionError}
    (h : (e.load script).1 = .error error) : error.code ≠ .ok := by
  have hcode := code_of_load_error h
  intro hok
  rw [hok] at hcode
  simp at hcode

theorem executeScript_error_code (host : Host α σ) {e : Engine α σ} {script : String} {error : ExecutionError}
    (h : (e.executeScript host script).1 = .error error) : error.code ≠ .ok := by
  cases hload : (e.load script).1 with
  | error error' =>
    rw [executeScript_of_load_error host hload] at h
    exact load_error_code h
  | ok =>
    rw [executeScript_of_load_ok host hload] at h
    exact execute_error_code host _ h

/-- The script of the next run, which is there as it was compiled. -/
def Ready (script : String) (e : Engine α σ) : Prop :=
  ∃ chunk, e.source? = some script ∧ e.compiled = some chunk ∧ compile (bytes script) (bytes script) 0 = .ok chunk.proto

theorem ready_load {e : Engine α σ} {script : String} (h : (e.load script).1 = .ok ()) :
    Ready script (e.load script).2 := by
  rcases load_cases e script with ⟨error, hresult, -⟩ | ⟨chunk, -, hcompile, hkept⟩
  · rw [h] at hresult
    cases hresult
  · simp only [kept, Prod.mk.injEq] at hkept
    exact ⟨chunk, by simp [source?, hkept.1], hkept.2.1, hcompile⟩

theorem Ready.execute {script : String} {e : Engine α σ} (h : Ready script e) (host : Host α σ) :
    Ready script (e.execute host).2 := by
  obtain ⟨chunk, hsource, hcompiled, hcompile⟩ := h
  have hkept := kept_execute host hcompiled
  simp only [kept, Prod.mk.injEq] at hkept
  exact ⟨chunk, by rw [source?, hkept.1]; exact hsource, hkept.2.1.trans hcompiled, hcompile⟩

theorem Ready.executes {script : String} {e : Engine α σ} (h : Ready script e) (host : Host α σ) (n : Nat) :
    Ready script (after host (List.replicate n .execute) e) := by
  induction n generalizing e with
  | zero => exact h
  | succ n ih => exact ih (h.execute host)

end Engine

namespace Case

open Engine (Operation after untilFailure untilFailure_of_error untilFailure_of_ok untilFailure_cases
  untilFailure_append_of_failure untilFailure_append_of_success answerOf errorOf callsOf closingCalls Ready)

def helpers (sources : Sources) : List String := (sources.filter (·.1 ≠ mainScript)).map Prod.snd

def preparation (sources : Sources) (main : String) : List (Operation FunctionSpec) :=
  (helpers sources).map .executeScript ++ [.load main]

def steps (sources : Sources) (main : String) (times : Nat) : List (Operation FunctionSpec) :=
  preparation sources main ++ List.replicate times .execute

/-- The answer and the engine of operations that are taken up to the first that fails. -/
def taken (ops : List (Operation FunctionSpec)) (e : CaseEngine) : Except ExecutionError Unit × CaseEngine :=
  (answerOf (untilFailure recorder ops e).2, after recorder (untilFailure recorder ops e).1 e)

theorem taken_cons_of_error {op : Operation FunctionSpec} {e : CaseEngine} {error : ExecutionError}
    (h : op.returned? recorder e = some error) (ops : List (Operation FunctionSpec)) :
    taken (op :: ops) e = (.error error, op.apply recorder e) := by
  rw [taken, untilFailure_of_error h]
  rfl

theorem taken_cons_of_ok {op : Operation FunctionSpec} {e : CaseEngine} (h : op.returned? recorder e = none)
    (ops : List (Operation FunctionSpec)) : taken (op :: ops) e = taken ops (op.apply recorder e) := by
  rw [taken, untilFailure_of_ok h]
  rfl

theorem runHelpers_eq (sources : Sources) (e : CaseEngine) :
    runHelpers sources e = taken ((helpers sources).map .executeScript) e := by
  induction sources generalizing e with
  | nil => rfl
  | cons source rest ih =>
    obtain ⟨path, script⟩ := source
    unfold runHelpers
    by_cases hmain : path = mainScript
    · simp only [hmain, beq_self_eq_true, if_true, ih]
      rfl
    · have hhelpers : helpers ((path, script) :: rest) = script :: helpers rest := by simp [helpers, hmain]
      have hbeq : (path == mainScript) = false := by simpa using hmain
      rw [hhelpers, List.map_cons, hbeq]
      obtain ⟨⟨answer, e'⟩, hrun⟩ : ∃ r, e.executeScript recorder script = r := ⟨_, rfl⟩
      have happly : (Operation.executeScript script).apply recorder e = e' := congrArg Prod.snd hrun
      have hreturned : (Operation.executeScript script).returned? recorder e = errorOf answer :=
        congrArg (errorOf ∘ Prod.fst) hrun
      simp only [Bool.false_eq_true, if_false, hrun]
      cases answer with
      | error error => rw [taken_cons_of_error hreturned, happly]
      | ok =>
        rw [taken_cons_of_ok hreturned, happly]
        exact ih e'

theorem taken_append (ops rest : List (Operation FunctionSpec)) (e : CaseEngine) :
    taken (ops ++ rest) e =
      match taken ops e with
      | (.error error, e) => (.error error, e)
      | (.ok (), e) => taken rest e := by
  rcases untilFailure_cases recorder ops e with h | ⟨begun, error, h, -, -⟩
  · simp only [taken, h, untilFailure_append_of_success h, answerOf, Engine.after_append]
  · simp only [taken, h, untilFailure_append_of_failure h, answerOf]

theorem taken_load (main : String) (e : CaseEngine) : taken [.load main] e = e.load main := by
  obtain ⟨⟨answer, e'⟩, hload⟩ : ∃ r, e.load main = r := ⟨_, rfl⟩
  have happly : (Operation.load main : Operation FunctionSpec).apply recorder e = e' := congrArg Prod.snd hload
  have hreturned : (Operation.load main : Operation FunctionSpec).returned? recorder e = errorOf answer :=
    congrArg (errorOf ∘ Prod.fst) hload
  rw [hload]
  cases answer with
  | error error => rw [taken_cons_of_error hreturned, happly]
  | ok =>
    rw [taken_cons_of_ok hreturned, happly]
    rfl

theorem prepare_eq {sources : Sources} {main : String}
    (hmain : sources.find? (·.1 == mainScript) = some (mainScript, main)) (e : CaseEngine) :
    prepare sources e = taken (preparation sources main) e := by
  rw [preparation, taken_append, prepare, runHelpers_eq, hmain]
  generalize taken ((helpers sources).map .executeScript) e = helped
  obtain ⟨answer, e⟩ := helped
  cases answer with
  | error error => rfl
  | ok => exact (taken_load main e).symm

theorem repeatRun_eq (times done : Nat) (e : CaseEngine) :
    repeatRun times done e =
      (((taken (List.replicate times .execute) e).1,
          done + (untilFailure recorder (List.replicate times .execute) e).1.length),
        (taken (List.replicate times .execute) e).2) := by
  induction times generalizing done e with
  | zero => rfl
  | succ times ih =>
    unfold repeatRun
    obtain ⟨⟨answer, e'⟩, hrun⟩ : ∃ r, e.execute recorder = r := ⟨_, rfl⟩
    have happly : (Operation.execute : Operation FunctionSpec).apply recorder e = e' := congrArg Prod.snd hrun
    have hreturned : (Operation.execute : Operation FunctionSpec).returned? recorder e = errorOf answer :=
      congrArg (errorOf ∘ Prod.fst) hrun
    rw [List.replicate_succ, hrun]
    cases answer with
    | error error => rw [taken_cons_of_error hreturned, untilFailure_of_error hreturned, happly]; rfl
    | ok =>
      rw [taken_cons_of_ok hreturned, untilFailure_of_ok hreturned, happly]
      simp only [ih, List.length_cons, Nat.add_assoc, Nat.add_comm 1]

/-- Where the steps of a case stop, with the error of the last step, and how many executions were begun by then. -/
inductive Stops (before : List (Operation FunctionSpec)) (times : Nat) :
    List (Operation FunctionSpec) → Option ExecutionError → Nat → Prop
  | preparing {begun : List (Operation FunctionSpec)} {error : ExecutionError} (hbegun : begun <+: before)
    (hsome : begun ≠ []) : Stops before times begun (some error) 0
  | executing {k : Nat} {error : ExecutionError} (hk : k < times) :
    Stops before times (before ++ List.replicate (k + 1) .execute) (some error) (k + 1)
  | completed : Stops before times (before ++ List.replicate times .execute) none times

/-- What the report of a case says about the steps that are taken on an engine. -/
structure Reports (sources : Sources) (main : String) (times : Nat) (e : CaseEngine)
    (begun : List (Operation FunctionSpec)) (failure : Option ExecutionError) (report : Report) : Prop where
  stops : Stops (preparation sources main) times begun failure report.executions
  completed : failure = none → report.outcome = {}
  failed : ∀ error, failure = some error →
    error.code ≠ .ok ∧ report.outcome = { code := error.code, message := some error.message }
  calls : report.calls =
    (callsOf recorder begun e ++ closingCalls recorder (after recorder begun e)).map fun c => ⟨c.key, c.args⟩
  main : ∀ earlier later, begun = earlier ++ .execute :: later → Ready main (after recorder earlier e)

def setupOf (level : LogLevel) (case : TestCase) (platform : Lua.Platform) : Engine.Setup FunctionSpec :=
  { options := { logLevel := level }, functions := case.functions.map fun spec => (spec.key, spec), platform }

def started (level : LogLevel) (case : TestCase) (platform : Lua.Platform) : CaseEngine :=
  let setup := setupOf level case platform
  (Engine.registerAll setup.functions (Engine.create setup.options #[] setup.platform)).2

theorem ofSetup_started (level : LogLevel) (case : TestCase) (platform : Lua.Platform) :
    Engine.ofSetup recorder (setupOf level case platform) #[] = (.ok (), started level case platform) := by
  have hok : (Engine.registerAll (setupOf level case platform).functions
      (Engine.create (setupOf level case platform).options (#[] : Array Call) platform)).1 = .ok () :=
    Engine.registerAll_ok_of_unlimited _ rfl
  have hregister : Engine.registerAll (setupOf level case platform).functions
      (Engine.create (setupOf level case platform).options (#[] : Array Call) platform) =
        (.ok (), started level case platform) := Prod.ext hok rfl
  have hplatform : (setupOf level case platform).platform = platform := rfl
  unfold Engine.ofSetup
  rw [hplatform, hregister]
  rfl

theorem key_of_started {level : LogLevel} {case : TestCase} {platform : Lua.Platform} {key : Key} {spec : FunctionSpec}
    (h : (started level case platform).registry.resolve key = some spec) : spec.key = key := by
  rw [started, Engine.registry_registerAll recorder (Engine.registerAll_ok_of_unlimited _ rfl)] at h
  rcases Registry.resolve_ofList (setupOf level case platform).functions key with
    ⟨spec', hresolve, earlier, later, hlist, -⟩ | ⟨hnone, -⟩
  · cases hresolve.symm.trans h
    have hmem : (key, spec) ∈ (setupOf level case platform).functions := by simp [hlist]
    obtain ⟨_, -, hspec⟩ := List.mem_map.mp hmem
    cases hspec
    rfl
  · cases hnone.symm.trans h

theorem recorder_notes : recorder.Notes Array.toList fun spec args => (⟨spec.key, args⟩ : Call) := by
  intro spec args calls
  simp [recorder]

/-- No step of a case registers a function. -/
theorem registration_steps {sources : Sources} {main : String} {times : Nat} {op : Operation FunctionSpec}
    (h : op ∈ steps sources main times) : op.registration? = none := by
  simp only [steps, preparation, List.mem_append, List.mem_map, List.mem_singleton, List.mem_replicate] at h
  rcases h with (⟨script, -, rfl⟩ | rfl) | ⟨-, rfl⟩ <;> rfl

theorem code_of_steps {sources : Sources} {main : String} {times : Nat} {e : CaseEngine}
    {begun : List (Operation FunctionSpec)} {error : ExecutionError}
    (h : untilFailure recorder (steps sources main times) e = (begun, some error)) : error.code ≠ .ok := by
  obtain ⟨op, hop, e', hreturned⟩ := Engine.returned_of_untilFailure h
  simp only [steps, preparation, List.mem_append, List.mem_map, List.mem_singleton, List.mem_replicate] at hop
  rcases hop with (⟨script, -, rfl⟩ | rfl) | ⟨-, rfl⟩
  · exact Engine.executeScript_error_code recorder (Engine.eq_error_of_errorOf hreturned)
  · exact Engine.load_error_code (Engine.eq_error_of_errorOf hreturned)
  · exact Engine.execute_error_code recorder e' (Engine.eq_error_of_errorOf hreturned)

theorem before_execution {sources : Sources} {main : String} {times : Nat} {earlier later : List (Operation FunctionSpec)}
    (h : earlier ++ .execute :: later <+: steps sources main times) :
    ∃ n, earlier = preparation sources main ++ List.replicate n .execute := by
  obtain ⟨rest, hrest⟩ := h
  rw [List.append_assoc, steps] at hrest
  rcases List.append_eq_append_iff.mp hrest with ⟨between, hbefore, hafter⟩ | ⟨between, hearlier, hafter⟩
  · -- no step of the preparation is an execution
    cases between with
    | nil => exact ⟨0, by simpa using hbefore.symm⟩
    | cons op ops =>
      have hop : op = .execute := by simpa using (List.cons.inj hafter).1.symm
      have hmem : op ∈ preparation sources main := by simp [hbefore]
      simp [hop, preparation] at hmem
  · have hexecutions : between = List.replicate between.length .execute :=
      List.eq_replicate_of_mem fun op hop => (List.mem_replicate.mp (hafter ▸ List.mem_append_left _ hop)).2
    exact ⟨between.length, hearlier.trans (congrArg _ hexecutions)⟩

/-- The executions that come before one that is begun run the main script, and so does that one. -/
theorem ready_of_begun {sources : Sources} {main : String} {times : Nat} {e : CaseEngine}
    {earlier later : List (Operation FunctionSpec)}
    (h : (untilFailure recorder (steps sources main times) e).1 = earlier ++ .execute :: later) :
    Ready main (after recorder earlier e) := by
  have hsucceeded := Engine.untilFailure_of_begun h
  have hprefix : earlier ++ .execute :: later <+: steps sources main times :=
    h ▸ Engine.untilFailure_begun recorder (steps sources main times) e
  obtain ⟨n, rfl⟩ := before_execution hprefix
  rw [preparation, List.append_assoc, List.singleton_append] at hsucceeded ⊢
  have hhelpers := Engine.untilFailure_of_begun (congrArg Prod.fst hsucceeded)
  rw [untilFailure_append_of_success hhelpers] at hsucceeded
  have hloaded : errorOf ((after recorder ((helpers sources).map .executeScript) e).load main).1 = none := by
    cases hreturned : (Operation.load main).returned? recorder
        (after recorder ((helpers sources).map .executeScript) e) with
    | none => exact hreturned
    | some error =>
      rw [untilFailure_of_error hreturned] at hsucceeded
      cases congrArg Prod.snd hsucceeded
  have hafter : after recorder ((helpers sources).map .executeScript ++ .load main :: List.replicate n .execute) e =
      after recorder (List.replicate n .execute)
        ((after recorder ((helpers sources).map .executeScript) e).load main).2 := by
    rw [Engine.after_append]
    rfl
  rw [hafter]
  exact (Engine.ready_load (Engine.eq_ok_of_errorOf hloaded)).executes recorder n

/-- What a case does with its engine before it gives it up. -/
def followed (sources : Sources) (times : Nat) (e : CaseEngine) : (Except ExecutionError Unit × Nat) × CaseEngine :=
  match prepare sources e with
  | (.ok (), e) => repeatRun times 0 e
  | (.error error, e) => ((.error error, 0), e)

theorem runAt_eq (level : LogLevel) (sources : Sources) (case : TestCase) (platform : Lua.Platform) :
    runAt level sources case platform =
      let ended := followed sources case.executions (started level case platform)
      let e := ended.2.close recorder
      (.ok ⟨e.session.host.toList, outcomeOf ended.1.1, ended.1.2⟩, e.session.log.toList) := by
  have hsetup := ofSetup_started level case platform
  unfold setupOf at hsetup
  simp only [runAt, hsetup]
  rfl

/-- The preparation and the executions do what the steps do. -/
theorem steps_stops {sources : Sources} {main : String}
    (hmain : sources.find? (·.1 == mainScript) = some (mainScript, main)) (times : Nat) (e : CaseEngine) :
    ∃ begun failure executions, untilFailure recorder (steps sources main times) e = (begun, failure) ∧
      Stops (preparation sources main) times begun failure executions ∧
      followed sources times e = ((answerOf failure, executions), after recorder begun e) := by
  rw [followed, prepare_eq hmain]
  rcases untilFailure_cases recorder (preparation sources main) e with hprepared | ⟨begun, error, hfails, hbegun, hsome⟩
  · have hrest := untilFailure_append_of_success hprepared (List.replicate times .execute)
    simp only [taken, hprepared, answerOf, repeatRun_eq, Nat.zero_add]
    rcases untilFailure_cases recorder (List.replicate times .execute)
      (after recorder (preparation sources main) e) with hall | ⟨begun, error, hfails, hbegun, hsome⟩
    · rw [hall] at hrest
      refine ⟨_, _, times, hrest, .completed, ?_⟩
      simp only [hall, Engine.after_append, List.length_replicate]
    · obtain ⟨k, hk⟩ : ∃ k, begun.length = k + 1 := Nat.exists_eq_succ_of_ne_zero (by simpa using hsome)
      have hreplicate : begun = List.replicate (k + 1) .execute := List.eq_replicate_iff.mpr
        ⟨hk, fun op hop => (List.mem_replicate.mp (hbegun.subset hop)).2⟩
      have hlt : k < times := by
        have hle := hbegun.length_le
        rw [hk, List.length_replicate] at hle
        omega
      rw [hfails] at hrest
      refine ⟨_, _, k + 1, hrest, hreplicate ▸ .executing hlt, ?_⟩
      simp only [hfails, Engine.after_append, hk]
  · refine ⟨begun, some error, 0, untilFailure_append_of_failure hfails _, .preparing hbegun hsome, ?_⟩
    simp only [taken, hfails, answerOf]

theorem noted_calls (level : LogLevel) (case : TestCase) (platform : Lua.Platform) {calls : List (HostCall FunctionSpec)}
    (h : ∀ c ∈ calls, (started level case platform).registry.resolve c.key = some c.handle) :
    calls.map (HostCall.noted fun spec args => (⟨spec.key, args⟩ : Call)) = calls.map fun c => ⟨c.key, c.args⟩ := by
  refine List.map_congr_left fun c hc => ?_
  rw [HostCall.noted, key_of_started (h c hc)]

theorem runAt_reports (level : LogLevel) {sources : Sources} {main : String}
    (hmain : sources.find? (·.1 == mainScript) = some (mainScript, main)) (case : TestCase) (platform : Lua.Platform) :
    ∃ report log, runAt level sources case platform = (.ok report, log) ∧
      Reports sources main case.executions (started level case platform)
        (untilFailure recorder (steps sources main case.executions) (started level case platform)).1
        (untilFailure recorder (steps sources main case.executions) (started level case platform)).2 report := by
  obtain ⟨begun, failure, executions, htaken, hstops, hfollowed⟩ :=
    steps_stops hmain case.executions (started level case platform)
  have hsteps : ∀ op ∈ begun, op.registration? = none := fun op hop => by
    have hbegun := Engine.untilFailure_begun recorder (steps sources main case.executions) (started level case platform)
    rw [htaken] at hbegun
    exact registration_steps (hbegun.subset hop)
  rw [htaken]
  refine ⟨_, _, runAt_eq level sources case platform, ?_⟩
  rw [hfollowed]
  refine ⟨hstops, ?_, ?_, ?_, ?_⟩
  · rintro rfl
    rfl
  · rintro error rfl
    exact ⟨code_of_steps htaken, rfl⟩
  · have hnone : (started level case platform).session.host = #[] :=
      (Engine.host_registerAll _ _).trans (Engine.host_emit ..)
    rw [Engine.close_notes recorder_notes, Engine.after_notes recorder_notes, hnone, List.nil_append, ← List.map_append]
    refine noted_calls level case platform fun c hc => ?_
    rcases List.mem_append.mp hc with hc | hc
    · exact Engine.resolve_of_mem_callsOf hsteps hc
    · have hresolve := Engine.resolve_of_mem_closingCalls hc
      rwa [Engine.registry_after, List.filterMap_eq_nil_iff.mpr hsteps] at hresolve
  · intro earlier later hbegun
    rw [← htaken] at hbegun
    exact ready_of_begun hbegun

/-- Running a case on a folder is taking its steps: the helper scripts in the order of the bytes of their paths, the
loading of the main script, and its executions, up to the first step that fails. The report counts the executions that
were begun, has the error of the failed step, and lists the calls of all steps that were begun and of the finalizers. -/
theorem run_reports {folder : Folder} {sources : Sources} (hsources : readSources folder = .ok sources)
    {case : TestCase} {level : LogLevel} (hlevel : levelOf case = .ok level) (platform : Lua.Platform) :
    sources.Ascending ∧ ∃ main report log, sources.find? (·.1 == mainScript) = some (mainScript, main) ∧
      Engine.ofSetup recorder (setupOf level case platform) #[] = (.ok (), started level case platform) ∧
      run folder case platform = (.ok report, log) ∧
      Reports sources main case.executions (started level case platform)
        (untilFailure recorder (steps sources main case.executions) (started level case platform)).1
        (untilFailure recorder (steps sources main case.executions) (started level case platform)).2 report := by
  obtain ⟨hascending, main, hmain⟩ := readSources_eq_ok hsources
  obtain ⟨report, log, hrun, hreports⟩ := runAt_reports level hmain case platform
  refine ⟨hascending, main, report, log, hmain, ofSetup_started level case platform, ?_, hreports⟩
  simp only [run, hsources, hlevel, bind, Except.bind, pure, Except.pure]
  exact hrun

-- The main script below fails when it runs for the second time.

def countingFolder : Folder where
  files := [("main.lua", "app:note(n) if n == 2 then error('enough', 0) end n = n + 1".toUTF8),
    ("later.lua", "n = n or 0".toUTF8), ("z/one.lua", "n = n + 1".toUTF8), ("readme.txt", "".toUTF8)]

def countingCase : TestCase := { schema := schemaVersion, executions := 5, functions := [{ key := ⟨"app", "note"⟩ }] }

/-- The second execution fails, with one call before it and one in it. -/
theorem run_reports_counting :
    ∃ sources, readSources countingFolder = .ok sources ∧ levelOf countingCase = .ok .off ∧
      sources.map Prod.fst = ["later.lua", "main.lua", "z/one.lua"] ∧
      ∃ main report log, run countingFolder countingCase = (.ok report, log) ∧
        Reports sources main 5 (started .off countingCase {})
          (untilFailure recorder (steps sources main 5) (started .off countingCase {})).1
          (untilFailure recorder (steps sources main 5) (started .off countingCase {})).2 report ∧
        report.executions = 2 ∧ report.outcome = { code := .runtimeError, message := some "enough" } ∧
        report.calls.map Call.key = [⟨"app", "note"⟩, ⟨"app", "note"⟩] := by
  have hpaths : (readSources countingFolder).toOption.map (·.map Prod.fst) =
      some ["later.lua", "main.lua", "z/one.lua"] := by decide +kernel
  have hran : (run countingFolder countingCase).1.toOption.map
      (fun r => (r.executions, r.outcome, r.calls.map Call.key)) =
        some (2, { code := .runtimeError, message := some "enough" }, [⟨"app", "note"⟩, ⟨"app", "note"⟩]) := by
    decide +kernel
  cases hsources : readSources countingFolder with
  | error error => simp [hsources, Except.toOption] at hpaths
  | ok sources =>
    have hlevel : levelOf countingCase = .ok .off := rfl
    obtain ⟨-, main, report, log, -, -, hrun, hreports⟩ := run_reports hsources hlevel {}
    simp only [hsources, Except.toOption, Option.map_some, Option.some.injEq] at hpaths
    simp only [hrun, Except.toOption, Option.map_some, Option.some.injEq, Prod.mk.injEq] at hran
    exact ⟨sources, rfl, hlevel, hpaths, main, report, log, hrun, hreports, hran⟩

end Case

end ScriptHost
