import ScriptHost.Proofs.HostCall
import ScriptHost.Proofs.Lifecycle

/-! # Logging has no influence

An engine at a lower level does all that it would do at the most talkative one, and of the events that are reported
there it reports those that its level admits. The two are held side by side: every report is made on both sides, at the
same point and with the same message, and adds to the log of the one what is left of the report on the other. -/

namespace ScriptHost

open Lua (Value GuestError Interpreter Machine Chunk)

variable {α σ : Type}

/-- The events that a level shows. -/
def LogLevel.share (l : LogLevel) (events : List LogEvent) : List LogEvent := events.filter (l.admits ·.severity)

theorem LogLevel.trace_admits (severity : Severity) : LogLevel.trace.admits severity := by
  cases severity <;> rfl

/-- A session at the level `l` next to the one that reports everything. -/
structure Session.Dimmed (l : LogLevel) (full s : Session α σ) : Prop where
  level : full.bridge.logLevel = .trace
  bridge : s.bridge = { full.bridge with logLevel := l }
  host : s.host = full.host
  log : s.log.toList = l.share full.log.toList

namespace Session.Dimmed

variable {l : LogLevel} {full s : Session α σ}

theorem registry (h : Dimmed l full s) : s.bridge.registry = full.bridge.registry := by
  rw [h.bridge]

theorem emit (h : Dimmed l full s) (severity : Severity) (message : Unit → String) :
    Dimmed l (full.emit severity message) (s.emit severity message) := by
  have hfull : full.emit severity message = { full with log := full.log.push ⟨severity, message ()⟩ } := by
    rw [Session.emit, h.level, if_pos (LogLevel.trace_admits severity)]
  have hlevel : s.bridge.logLevel = l := congrArg Bridge.logLevel h.bridge
  rw [hfull, Session.emit, hlevel]
  split
  · next hadmits => exact ⟨h.level, h.bridge, h.host, by simp [h.log, LogLevel.share, hadmits]⟩
  · next hadmits => exact ⟨h.level, h.bridge, h.host, by simp [h.log, LogLevel.share, hadmits]⟩

theorem remember (h : Dimmed l full s) (message : String) : Dimmed l (full.remember message) (s.remember message) :=
  ⟨h.level, by simp only [Session.remember, h.bridge], h.host, h.log⟩

theorem failCall (h : Dimmed l full s) (f : CallFailure) : Dimmed l (full.failCall f) (s.failCall f) :=
  (h.emit ..).remember _

theorem withHost (h : Dimmed l full s) (world : σ) : Dimmed l { full with host := world } { s with host := world } :=
  ⟨h.level, h.bridge, rfl, h.log⟩

theorem register (h : Dimmed l full s) (key : Key) (handle : α) :
    Dimmed l { full with bridge := { full.bridge with registry := full.bridge.registry.register key handle } }
      { s with bridge := { s.bridge with registry := s.bridge.registry.register key handle } } :=
  ⟨h.level, by simp only [h.bridge], h.host, h.log⟩

end Session.Dimmed

open Session (Dimmed)

namespace Dispatch

variable {l : LogLevel} {full s : Session α σ}

theorem reportArguments_dimmed (h : Dimmed l full s) (position : Nat) (args : List Argument) :
    Dimmed l (reportArguments full position args) (reportArguments s position args) := by
  induction args generalizing full s position with
  | nil => exact h
  | cons a as ih => exact ih (h.emit ..) (position + 1)

theorem invoke_dimmed (host : Host α σ) (h : Dimmed l full s) (key : Key) (args : List Argument) :
    (invoke host s key args).1 = (invoke host full key args).1 ∧
      Dimmed l (invoke host full key args).2 (invoke host s key args).2 := by
  unfold invoke
  rw [h.registry, h.host]
  cases full.bridge.registry.resolve key with
  | none => exact ⟨rfl, h⟩
  | some handle =>
    obtain ⟨⟨answer, world⟩, hcall⟩ : ∃ r, host.call handle args full.host = r := ⟨_, rfl⟩
    simp only [hcall]
    rcases answer with error | n
    · exact ⟨rfl, h.withHost world⟩
    · refine ⟨rfl, ?_⟩
      simp only
      exact (h.withHost world).emit ..

theorem callKey_dimmed (host : Host α σ) (h : Dimmed l full s) (key : Key) (trailing : List Value) :
    (callKey host s key trailing).1 = (callKey host full key trailing).1 ∧
      Dimmed l (callKey host full key trailing).2 (callKey host s key trailing).2 := by
  have htrace := h.emit .trace fun _ => s!"call frame: function={key.text}\n{Marshal.dump trailing}"
  unfold callKey
  cases Marshal.toArguments trailing with
  | error error => exact ⟨rfl, htrace⟩
  | ok args => exact invoke_dimmed host (reportArguments_dimmed htrace 1 args) key args

theorem run_dimmed (host : Host α σ) (h : Dimmed l full s) (frame : List Value) :
    (run host s frame).1 = (run host full frame).1 ∧ Dimmed l (run host full frame).2 (run host s frame).2 := by
  unfold run
  cases target frame with
  | error error => exact ⟨rfl, h⟩
  | ok key =>
    obtain ⟨hanswer, hdimmed⟩ := callKey_dimmed host h key (frame.drop 2)
    simp only
    revert hanswer hdimmed
    rcases callKey host s key (frame.drop 2) with ⟨answer, s'⟩
    rcases callKey host full key (frame.drop 2) with ⟨answer', full'⟩
    rintro rfl hdimmed
    rcases answer with f | n
    · exact ⟨rfl, hdimmed.failCall f⟩
    · exact ⟨rfl, hdimmed⟩

end Dispatch

namespace Engine

theorem drive_dimmed (host : Host α σ) (fuel : Nat) {l : LogLevel} {full s : Session α σ} (h : Session.Dimmed l full s)
    (m : Machine) :
    (drive host fuel s m).2 = (drive host fuel full m).2 ∧
      Session.Dimmed l (drive host fuel full m).1 (drive host fuel s m).1 := by
  induction fuel generalizing full s m with
  | zero => exact ⟨rfl, h⟩
  | succ fuel ih =>
    unfold drive
    cases m.control with
    | done outcome => exact ⟨rfl, h⟩
    | host frame c k =>
      obtain ⟨hanswer, hdimmed⟩ := Dispatch.run_dimmed host h frame
      simp only [hanswer]
      exact ih hdimmed _
    | _ => exact ih h _

/-- An engine at the level `l` next to the one that reports everything. -/
structure Dimmed (l : LogLevel) (full e : Engine α σ) : Prop where
  session : Session.Dimmed l full.session e.session
  interpreter : e.interpreter = full.interpreter
  history : e.history = full.history
  compiled : e.compiled = full.compiled
  state : e.state = full.state

namespace Dimmed

variable {l : LogLevel} {full e : Engine α σ}

theorem emit (h : Dimmed l full e) (severity : Severity) (message : Unit → String) :
    Dimmed l (full.emit severity message) (e.emit severity message) :=
  { h with session := h.session.emit severity message }

theorem fail (h : Dimmed l full e) (operation : String) (error : ExecutionError) :
    Dimmed l (full.fail operation error) (e.fail operation error) :=
  { h with session := (h.session.emit ..).remember _ }

theorem withSession (h : Dimmed l full e) {s t : Session α σ} (hst : Session.Dimmed l s t) :
    Dimmed l { full with session := s } { e with session := t } :=
  { h with session := hst }

theorem withInterpreter (h : Dimmed l full e) (i : Interpreter) :
    Dimmed l { full with interpreter := i } { e with interpreter := i } :=
  { h with interpreter := rfl }

theorem register (h : Dimmed l full e) (key : Key) (handle : α) :
    (e.register key handle).1 = (full.register key handle).1 ∧
      Dimmed l (full.register key handle).2 (e.register key handle).2 := by
  have hregistered := (h.withSession (h.session.register key handle)).emit .debug fun _ =>
    s!"registered function: {key.text} (replaced={full.session.bridge.registry.contains key})"
  rw [← h.session.registry] at hregistered
  unfold Engine.register
  simp only [Registry.put, ← h.session.registry, hregistered.interpreter]
  split
  · exact ⟨rfl, hregistered⟩
  · next shadowed i _ =>
    refine ⟨rfl, ?_⟩
    cases shadowed
    · exact hregistered.withInterpreter i
    · exact (hregistered.withInterpreter i).emit ..

theorem load (h : Dimmed l full e) (script : String) :
    (e.load script).1 = (full.load script).1 ∧ Dimmed l (full.load script).2 (e.load script).2 := by
  have htrace := h.emit .trace fun _ => s!"load script:\n'''\n{script}\n'''"
  unfold Engine.load
  simp only [htrace.interpreter, htrace.compiled, htrace.history]
  split
  · exact ⟨rfl, htrace.session, rfl, rfl, rfl, rfl⟩
  · exact ⟨rfl, htrace.fail ..⟩

theorem conclude (h : Dimmed l full e) {s t : Session α σ} (hst : Session.Dimmed l s t) (m : Machine) :
    (e.conclude t m).1 = (full.conclude s m).1 ∧ Dimmed l (full.conclude s m).2 (e.conclude t m).2 := by
  have hback : Dimmed l
      { full with session := s, interpreter := full.interpreter.takeBack m, state := .executed (recordOf m).code }
      { e with session := t, interpreter := e.interpreter.takeBack m, state := .executed (recordOf m).code } :=
    ⟨hst, congrArg (Interpreter.takeBack · m) h.interpreter, h.history, h.compiled, rfl⟩
  unfold Engine.conclude
  simp only
  cases (recordOf m).toResult with
  | ok => exact ⟨rfl, hback⟩
  | error error => exact ⟨rfl, hback.fail ..⟩

theorem run (host : Host α σ) (h : Dimmed l full e) (c : Chunk) :
    (e.run host c).1 = (full.run host c).1 ∧ Dimmed l (full.run host c).2 (e.run host c).2 := by
  obtain ⟨hmachine, hsession⟩ := drive_dimmed host stepLimit h.session (full.interpreter.start c)
  rw [run_eq, run_eq, h.interpreter, hmachine]
  exact (h.withInterpreter _).conclude hsession _

theorem announce (h : Dimmed l full e) : Dimmed l full.announce e.announce := by
  have hsource : e.source? = full.source? := congrArg Array.back? h.history
  unfold Engine.announce
  rw [hsource]
  exact h.emit ..

theorem execute (host : Host α σ) (h : Dimmed l full e) :
    (e.execute host).1 = (full.execute host).1 ∧ Dimmed l (full.execute host).2 (e.execute host).2 := by
  unfold Engine.execute
  rw [h.compiled]
  cases full.compiled with
  | none => exact ⟨rfl, h.fail ..⟩
  | some c => exact h.announce.run host c

theorem executeScript (host : Host α σ) (h : Dimmed l full e) (script : String) :
    (e.executeScript host script).1 = (full.executeScript host script).1 ∧
      Dimmed l (full.executeScript host script).2 (e.executeScript host script).2 := by
  obtain ⟨hanswer, hloaded⟩ := h.load script
  cases hload : (full.load script).1 with
  | error error =>
    rw [executeScript_of_load_error host hload, executeScript_of_load_error host (hanswer.trans hload)]
    exact h.load script
  | ok =>
    rw [executeScript_of_load_ok host hload, executeScript_of_load_ok host (hanswer.trans hload)]
    exact hloaded.execute host

theorem invoke (host : Host α σ) (h : Dimmed l full e) (key : Key) (args : List Argument) :
    (e.invoke host key args).1 = (full.invoke host key args).1 ∧
      Dimmed l (full.invoke host key args).2 (e.invoke host key args).2 := by
  obtain ⟨hanswer, hsession⟩ := Dispatch.run_dimmed host h.session (frame key args)
  have hcalled := h.withSession hsession
  rw [h.interpreter] at hcalled
  unfold Engine.invoke
  simp only [h.interpreter, hanswer]
  split
  · exact ⟨rfl, h.fail ..⟩
  · cases (Dispatch.run host full.session (frame key args)).1 with
    | error error =>
      refine ⟨rfl, ?_⟩
      simp only
      exact hcalled.fail ..
    | ok v =>
      simp only
      cases Marshal.toResult v with
      | error error =>
        refine ⟨rfl, ?_⟩
        simp only
        exact hcalled.fail ..
      | ok n => exact ⟨rfl, hcalled⟩

/-- A word that names no level changes no level. -/
theorem setLogLevel (h : Dimmed l full e) {word : String} (hword : LogLevel.parse? word = none) :
    Dimmed l (full.setLogLevel word) (e.setLogLevel word) := by
  simp only [Engine.setLogLevel, hword]
  exact h.emit ..

end Dimmed

inductive Answer where
  | ran (result : Except ExecutionError Unit)
  | returned (result : Except ExecutionError Int32)
  | registered (result : Except HostError Unit)
  | none

namespace Operation

def answer (host : Host α σ) (e : Engine α σ) : Operation α → Answer
  | load script => .ran (e.load script).1
  | execute => .ran (e.execute host).1
  | executeScript script => .ran (e.executeScript host script).1
  | invoke key args => .returned (e.invoke host key args).1
  | register key handle => .registered (e.register key handle).1
  | setLogLevel _ => .none

def SetsLevel : Operation α → Prop
  | setLogLevel word => LogLevel.parse? word ≠ none
  | _ => False

end Operation

def answersOf (host : Host α σ) : List (Operation α) → Engine α σ → List Answer
  | [], _ => []
  | op :: ops, e => op.answer host e :: answersOf host ops (op.apply host e)

/-- Engines of which the host sees the same, and which will go on in the same way. -/
structure Indistinct (e e' : Engine α σ) : Prop where
  host : e'.session.host = e.session.host
  registry : e'.session.bridge.registry = e.session.bridge.registry
  lastError : e'.lastError = e.lastError
  interpreter : e'.interpreter = e.interpreter
  kept : e'.kept = e.kept

theorem Indistinct.symm {e e' : Engine α σ} (h : Indistinct e e') : Indistinct e' e :=
  ⟨h.host.symm, h.registry.symm, h.lastError.symm, h.interpreter.symm, h.kept.symm⟩

theorem Indistinct.trans {e e' e'' : Engine α σ} (h : Indistinct e e') (h' : Indistinct e' e'') : Indistinct e e'' :=
  ⟨h'.host.trans h.host, h'.registry.trans h.registry, h'.lastError.trans h.lastError,
    h'.interpreter.trans h.interpreter, h'.kept.trans h.kept⟩

def Setup.withLevel (setup : Setup α) (logLevel : LogLevel) : Setup α :=
  { setup with options := { setup.options with logLevel } }

namespace Dimmed

variable {l : LogLevel} {full e : Engine α σ}

theorem indistinct (h : Dimmed l full e) : Indistinct full e where
  host := h.session.host
  registry := h.session.registry
  lastError := by rw [lastError, lastError, h.session.bridge]
  interpreter := h.interpreter
  kept := by rw [kept, kept, h.history, h.compiled, h.state]

/-- One operation keeps the engines side by side, and answers the same on both sides. -/
theorem apply (host : Host α σ) (h : Dimmed l full e) {op : Operation α} (hop : ¬ op.SetsLevel) :
    op.answer host e = op.answer host full ∧ Dimmed l (op.apply host full) (op.apply host e) := by
  cases op with
  | load script => exact (h.load script).imp_left (congrArg Answer.ran)
  | execute => exact (h.execute host).imp_left (congrArg Answer.ran)
  | executeScript script => exact (h.executeScript host script).imp_left (congrArg Answer.ran)
  | invoke key args => exact (h.invoke host key args).imp_left (congrArg Answer.returned)
  | register key handle => exact (h.register key handle).imp_left (congrArg Answer.registered)
  | setLogLevel word => exact ⟨rfl, h.setLogLevel (Classical.not_not.mp hop)⟩

theorem after (host : Host α σ) (h : Dimmed l full e) {ops : List (Operation α)} (hops : ∀ op ∈ ops, ¬ op.SetsLevel) :
    answersOf host ops e = answersOf host ops full ∧
      Dimmed l (Engine.after host ops full) (Engine.after host ops e) := by
  induction ops generalizing full e with
  | nil => exact ⟨rfl, h⟩
  | cons op ops ih =>
    obtain ⟨hanswer, happly⟩ := h.apply host (hops op List.mem_cons_self)
    obtain ⟨hanswers, hafter⟩ := ih happly fun op hop => hops op (List.mem_cons_of_mem _ hop)
    exact ⟨by rw [answersOf, answersOf, hanswer, hanswers], hafter⟩

theorem finalize (host : Host α σ) (tables : List Nat) (h : Dimmed l full e) :
    Dimmed l (Engine.finalize host tables full) (Engine.finalize host tables e) := by
  induction tables generalizing full e with
  | nil => exact h
  | cons table rest ih =>
    obtain ⟨hmachine, hsession⟩ := drive_dimmed host stepLimit h.session (full.interpreter.startFinalizer table)
    unfold Engine.finalize
    simp only [h.interpreter, hmachine]
    exact ih ((h.withSession hsession).withInterpreter _)

theorem close (host : Host α σ) (h : Dimmed l full e) : Dimmed l (full.close host) (e.close host) := by
  have hdestroyed := h.emit .info fun _ => "destroyed"
  unfold Engine.close
  simp only [hdestroyed.interpreter]
  exact hdestroyed.finalize host _

theorem create (options : EngineOptions) (world : σ) (platform : Lua.Platform) :
    Dimmed l (Engine.create { options with logLevel := .trace } world platform : Engine α σ)
      (Engine.create { options with logLevel := l } world platform) := by
  refine emit ?_ ..
  exact ⟨⟨rfl, rfl, rfl, rfl⟩, rfl, rfl, rfl, rfl⟩

theorem registerAll (functions : List (Key × α)) (h : Dimmed l full e) :
    (Engine.registerAll functions e).1 = (Engine.registerAll functions full).1 ∧
      Dimmed l (Engine.registerAll functions full).2 (Engine.registerAll functions e).2 := by
  induction functions generalizing full e with
  | nil => exact ⟨rfl, h⟩
  | cons p rest ih =>
    obtain ⟨key, handle⟩ := p
    obtain ⟨hanswer, hregistered⟩ := h.register key handle
    unfold Engine.registerAll
    revert hanswer hregistered
    rcases e.register key handle with ⟨answer, e'⟩
    rcases full.register key handle with ⟨answer', full'⟩
    rintro rfl hregistered
    rcases answer with error | _
    · exact ⟨rfl, hregistered⟩
    · exact ih hregistered

theorem ofSetup (host : Host α σ) (setup : Setup α) (world : σ) (l : LogLevel) :
    (Engine.ofSetup host (setup.withLevel l) world).1 = (Engine.ofSetup host (setup.withLevel .trace) world).1 ∧
      Dimmed l (Engine.ofSetup host (setup.withLevel .trace) world).2
        (Engine.ofSetup host (setup.withLevel l) world).2 := by
  obtain ⟨hanswer, hregistered⟩ := (create (l := l) setup.options world setup.platform).registerAll
    setup.functions
  unfold Engine.ofSetup Setup.withLevel
  simp only
  revert hanswer hregistered
  rcases Engine.registerAll setup.functions (Engine.create { setup.options with logLevel := l } world setup.platform)
    with ⟨answer, e⟩
  rcases Engine.registerAll setup.functions
    (Engine.create { setup.options with logLevel := .trace } world setup.platform) with ⟨answer', full⟩
  rintro rfl hregistered
  rcases answer with error | _
  · exact ⟨rfl, hregistered.close host⟩
  cases setup.preload with
  | none => exact ⟨rfl, hregistered⟩
  | some script =>
    obtain ⟨hloads, hloaded⟩ := hregistered.load script
    simp only at hloads hloaded ⊢
    revert hloads hloaded
    rcases e.load script with ⟨answer, e'⟩
    rcases full.load script with ⟨answer', full'⟩
    rintro rfl hloaded
    rcases answer with error | _
    · exact ⟨rfl, hloaded.close host⟩
    · exact ⟨rfl, hloaded⟩

end Dimmed

/-- On one platform the level that an engine is made with has no influence on the making, on what operations answer, on
the calls of host functions and on what the host can see at any time, as long as no operation sets a level; and the engine
reports at each time, and also when it is closed, the share of its level in what it would have reported at the most
talkative one. -/
theorem logging_inert (host : Host α σ) (setup : Setup α) (world : σ) {ops : List (Operation α)}
    (hops : ∀ op ∈ ops, ¬ op.SetsLevel) (l l' : LogLevel) :
    let made (l : LogLevel) := Engine.ofSetup host (setup.withLevel l) world
    (made l').1 = (made l).1 ∧ answersOf host ops (made l').2 = answersOf host ops (made l).2 ∧
      ∀ n,
        let lived (l : LogLevel) := Engine.after host (ops.take n) (made l).2
        Indistinct (lived l) (lived l') ∧ Indistinct ((lived l).close host) ((lived l').close host) ∧
          (lived l).session.log.toList = l.share (lived .trace).session.log.toList ∧
          ((lived l).close host).session.log.toList = l.share ((lived .trace).close host).session.log.toList := by
  intro made
  obtain ⟨hmade, hdimmed⟩ := Dimmed.ofSetup host setup world l
  obtain ⟨hmade', hdimmed'⟩ := Dimmed.ofSetup host setup world l'
  refine ⟨hmade'.trans hmade.symm, (hdimmed'.after host hops).1.trans (hdimmed.after host hops).1.symm, fun n => ?_⟩
  have htake : ∀ op ∈ ops.take n, ¬ op.SetsLevel := fun op hop => hops op (List.mem_of_mem_take hop)
  have hlived := (hdimmed.after host htake).2
  have hlived' := (hdimmed'.after host htake).2
  exact ⟨hlived.indistinct.symm.trans hlived'.indistinct,
    (hlived.close host).indistinct.symm.trans (hlived'.close host).indistinct,
    hlived.session.log, (hlived.close host).session.log⟩

-- The engine below serves a function that returns its handle, and is asked for a level that there is not.

def leastSetup : Setup Int32 := { functions := [(⟨"app", "least"⟩, Int32.minValue)] }

def wordOperations : List (Operation Int32) :=
  [.setLogLevel "loud", .executeScript "app:least('x')", .executeScript "app:least({})", .invoke ⟨"app", "most"⟩ []]

theorem not_setsLevel_wordOperations : ∀ op ∈ wordOperations, ¬ op.SetsLevel := by
  simp only [wordOperations, List.forall_mem_cons, Operation.SetsLevel, not_false_iff, not_not]
  exact ⟨by decide +kernel, trivial, trivial, trivial, by simp⟩

/-- The host gets the one call whose arguments can cross, at either level; the other failures are what the lower level
shows. -/
theorem logging_inert_least :
    let lived (l : LogLevel) := Engine.after numerals.recording wordOperations
      (Engine.ofSetup numerals.recording (leastSetup.withLevel l) ((), [])).2
    (∀ op ∈ wordOperations, ¬ op.SetsLevel) ∧
      (lived .error).session.host.2.map Prod.fst = [Int32.minValue] ∧
      (lived .error).lastError = some "function not found: app:most" ∧
      (LogLevel.error.share (lived .trace).session.log.toList).map LogEvent.severity = List.replicate 4 .error := by
  intro lived
  have hcalls : (lived .trace).session.host.2.map Prod.fst = [Int32.minValue] := by decide +kernel
  have hlast : (lived .trace).lastError = some "function not found: app:most" := by decide +kernel
  have hevents : (lived .error).session.log.toList.map LogEvent.severity = List.replicate 4 .error := by decide +kernel
  have hlived := (logging_inert numerals.recording leastSetup ((), []) not_setsLevel_wordOperations .error .trace).2.2 4
  have hsame : Indistinct (lived .error) (lived .trace) := hlived.1
  have hlog : (lived .error).session.log.toList = LogLevel.error.share (lived .trace).session.log.toList := hlived.2.2.1
  exact ⟨not_setsLevel_wordOperations, by rw [← hsame.host, hcalls], hsame.lastError.symm.trans hlast,
    hlog ▸ hevents⟩

end Engine

end ScriptHost
