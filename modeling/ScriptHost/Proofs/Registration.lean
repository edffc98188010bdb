import ScriptHost.Proofs.Raised
import ScriptHost.Proofs.Registry

/-! # Registrations that fail

A registration writes the registry first and makes the namespace a global variable of the scripts afterwards. The
second part fails if there is no memory for the proxy of the namespace, and the registry is not taken back then. The
registry of an engine is therefore the one that all registrations of its life make, whatever they answered. -/

namespace ScriptHost

open Lua (GuestError Interpreter Machine Value bytes)

variable {α σ : Type}

namespace Lua.Interpreter

/-- A namespace cannot be installed if it has no proxy yet and there is no memory for one, and for no other reason. -/
theorem install_eq_error_iff {i : Interpreter} {space : String} {error : GuestError} :
    i.install space = .error error ↔
      i.heap.rawGet i.vault.proxies (.str (bytes space)) = .nil ∧ i.heap.admits i.limit proxySize = false ∧
        error = outOfMemory := by
  unfold install proxyOf
  cases hproxy : i.heap.rawGet i.vault.proxies (.str (bytes space)) with
  | nil => cases hroom : i.heap.admits i.limit proxySize <;> simp [eq_comm]
  | _ => simp

theorem limit_install {i j : Interpreter} {space : String} {shadowed : Bool}
    (h : i.install space = .ok (shadowed, j)) : j.limit = i.limit := by
  obtain ⟨heap, closures, rfl⟩ := install_frame h
  rfl

end Lua.Interpreter

theorem Dispatch.run_registry (host : Host α σ) (s : Session α σ) (frame : List Value) :
    (run host s frame).2.bridge.registry = s.bridge.registry := by
  rcases run_cases host s frame with ⟨v, t, hrun, hbridge⟩ | ⟨message, hrun⟩ | ⟨f, t, hrun, hbridge⟩
  · rw [hrun, hbridge]
  · rw [hrun]
  · rw [hrun, hbridge]

namespace Engine

def registry (e : Engine α σ) : Registry α := e.session.bridge.registry

@[simp] theorem registry_emit (e : Engine α σ) (severity : Severity) (message : Unit → String) :
    (e.emit severity message).registry = e.registry :=
  congrArg Bridge.registry (Session.emit_bridge ..)

@[simp] theorem registry_fail (e : Engine α σ) (operation : String) (error : ExecutionError) :
    (e.fail operation error).registry = e.registry := registry_emit ..

/-- The registry is written first, whatever the registration answers. -/
theorem registry_register (e : Engine α σ) (key : Key) (handle : α) :
    (e.register key handle).2.registry = e.registry.register key handle := by
  unfold register
  simp only
  split
  · exact registry_emit ..
  · split
    · exact (registry_emit ..).trans (registry_emit ..)
    · exact registry_emit ..

theorem drive_registry (host : Host α σ) (fuel : Nat) (s : Session α σ) (m : Machine) :
    (drive host fuel s m).1.bridge.registry = s.bridge.registry := by
  have hnext {s' t : Session α σ} {frame : List Value} {answer : Except GuestError Value}
      (h : s'.bridge.registry = s.bridge.registry) (hrun : Dispatch.run host s' frame = (answer, t)) :
      t.bridge.registry = s.bridge.registry := by
    have hkept := Dispatch.run_registry host s' frame
    rw [hrun] at hkept
    exact hkept.trans h
  exact drive_induction (P := fun s' _ _ => s'.bridge.registry = s.bridge.registry) (fun h => h) hnext hnext fuel s m []
    rfl

theorem registry_load (e : Engine α σ) (script : String) : (e.load script).2.registry = e.registry := by
  unfold load
  simp only
  split
  · exact registry_emit ..
  · exact (registry_fail ..).trans (registry_emit ..)

theorem registry_conclude (e : Engine α σ) (session : Session α σ) (m : Machine) :
    (e.conclude session m).2.registry = session.bridge.registry := by
  unfold conclude
  simp only
  split
  · rfl
  · exact registry_fail ..

theorem registry_execute (host : Host α σ) (e : Engine α σ) : (e.execute host).2.registry = e.registry := by
  cases hcompiled : e.compiled with
  | none =>
    rw [execute_without_script host hcompiled]
    exact registry_fail ..
  | some c =>
    rw [execute_of_compiled host hcompiled, run_eq, registry_conclude, drive_registry]
    exact registry_emit ..

theorem registry_executeScript (host : Host α σ) (e : Engine α σ) (script : String) :
    (e.executeScript host script).2.registry = e.registry := by
  cases hload : (e.load script).1 with
  | error error =>
    rw [executeScript_of_load_error host hload]
    exact registry_load ..
  | ok =>
    rw [executeScript_of_load_ok host hload, registry_execute]
    exact registry_load ..

theorem registry_invoke (host : Host α σ) (e : Engine α σ) (key : Key) (args : List Argument) :
    (e.invoke host key args).2.registry = e.registry := by
  unfold invoke
  simp only
  split
  · exact registry_fail ..
  · rcases Dispatch.run_cases host e.session (frame key args) with
      ⟨v, t, hrun, hbridge⟩ | ⟨message, hrun⟩ | ⟨f, t, hrun, hbridge⟩ <;> simp only [hrun]
    · have hkept : ({ e with session := t } : Engine α σ).registry = e.registry := congrArg Bridge.registry hbridge
      split
      · exact hkept
      · exact (registry_fail ..).trans hkept
    · exact registry_fail ..
    · exact (registry_fail ..).trans (congrArg Bridge.registry hbridge :)

theorem registry_setLogLevel (e : Engine α σ) (word : String) : (e.setLogLevel word).registry = e.registry := by
  unfold setLogLevel
  split
  · rfl
  · exact registry_emit ..

def Operation.registration? : Operation α → Option (Key × α)
  | register key handle => some (key, handle)
  | _ => none

/-- The registry changes by registrations alone, and by those that fail too. -/
theorem registry_apply (host : Host α σ) (e : Engine α σ) (op : Operation α) :
    (op.apply host e).registry =
      op.registration?.elim e.registry fun p => e.registry.register p.1 p.2 := by
  cases op with
  | load script => exact registry_load e script
  | execute => exact registry_execute host e
  | executeScript script => exact registry_executeScript host e script
  | invoke key args => exact registry_invoke host e key args
  | register key handle => exact registry_register e key handle
  | setLogLevel word => exact registry_setLogLevel e word

theorem registry_after (host : Host α σ) (ops : List (Operation α)) (e : Engine α σ) :
    (after host ops e).registry =
      (ops.filterMap Operation.registration?).foldl (fun r p => r.register p.1 p.2) e.registry := by
  induction ops generalizing e with
  | nil => rfl
  | cons op ops ih =>
    have hrest : (after host (op :: ops) e).registry = _ := ih (op.apply host e)
    rw [hrest, registry_apply, List.filterMap_cons]
    cases op.registration? <;> rfl

/-- The registry of an engine is the one that all registrations made, those that failed among them. -/
theorem registry_after_create (host : Host α σ) (options : EngineOptions) (world : σ) (platform : Lua.Platform)
    (ops : List (Operation α)) :
    (after host ops (create options world platform)).registry = .ofList (ops.filterMap Operation.registration?) := by
  have hnew : (create options world platform : Engine α σ).registry = .empty := registry_emit ..
  rw [registry_after, hnew, Registry.ofList]

theorem register_ok_of_unlimited {e : Engine α σ} (hlimit : e.interpreter.limit = none) (key : Key) (handle : α) :
    (e.register key handle).1 = .ok () ∧ (e.register key handle).2.interpreter.limit = none := by
  have hroom (h : Lua.Heap) : h.admits e.interpreter.limit Interpreter.proxySize = true := by
    rw [hlimit]
    rfl
  cases hinstall : e.interpreter.install key.space with
  | error cause =>
    obtain ⟨-, hno, -⟩ := Interpreter.install_eq_error_iff.mp hinstall
    rw [hroom] at hno
    cases hno
  | ok installed =>
    obtain ⟨shadowed, i⟩ := installed
    have hi : i.limit = none := (Interpreter.limit_install hinstall).trans hlimit
    simp only [register, emit, hinstall]
    cases shadowed <;> exact ⟨trivial, hi⟩

theorem registerAll_ok_of_unlimited (functions : List (Key × α)) {e : Engine α σ}
    (hlimit : e.interpreter.limit = none) : (registerAll functions e).1 = .ok () := by
  induction functions generalizing e with
  | nil => rfl
  | cons p rest ih =>
    obtain ⟨key, handle⟩ := p
    obtain ⟨hok, hlimit'⟩ := register_ok_of_unlimited hlimit key handle
    have hregister : e.register key handle = (.ok (), (e.register key handle).2) := Prod.ext hok rfl
    rw [registerAll, hregister]
    exact ih hlimit'

theorem registerAll_eq_after (host : Host α σ) {functions : List (Key × α)} {e : Engine α σ}
    (h : (registerAll functions e).1 = .ok ()) :
    (registerAll functions e).2 = after host (functions.map fun p => .register p.1 p.2) e := by
  induction functions generalizing e with
  | nil => rfl
  | cons p rest ih =>
    obtain ⟨key, handle⟩ := p
    obtain ⟨⟨answer, e'⟩, hregister⟩ : ∃ r, e.register key handle = r := ⟨_, rfl⟩
    simp only [registerAll, hregister] at h ⊢
    cases answer with
    | error error => cases h
    | ok =>
      have happly : (Operation.register key handle).apply host e = e' := congrArg Prod.snd hregister
      rw [List.map_cons, after, List.foldl_cons, happly]
      exact ih h

theorem registry_registerAll (host : Host α σ) {functions : List (Key × α)} {options : EngineOptions} {world : σ}
    {platform : Lua.Platform} (h : (registerAll functions (create options world platform)).1 = .ok ()) :
    (registerAll functions (create options world platform)).2.registry = .ofList functions := by
  have hregistrations : (functions.map fun p => Operation.register p.1 p.2).filterMap Operation.registration? =
      functions := by
    rw [List.filterMap_map]
    exact List.filterMap_some
  rw [registerAll_eq_after host h, registry_after_create, hregistrations]

/-- What a registration that fails leaves: the registry has the handle nevertheless, and nothing else of the bridge, the
interpreter or the scripts is touched. -/
structure LeavesHandle (e : Engine α σ) (key : Key) (handle : α) (e' : Engine α σ) : Prop where
  resolve : ∀ k, e'.registry.resolve k = if k = key then some handle else e.registry.resolve k
  keys : e'.registry.keys = e.registry.keys ↔ e.registry.contains key
  namespaces : e'.namespaces = e.namespaces ↔ key.space ∈ e.namespaces
  agrees : e.registry.Agrees e'.registry ↔ e.registry.resolve key = some handle
  rest : e'.interpreter = e.interpreter ∧ e'.kept = e.kept ∧ e'.session.host = e.session.host ∧
    e'.session.bridge = { e.session.bridge with registry := e'.registry }

theorem leavesHandle_of_registered {e e' : Engine α σ} {key : Key} {handle : α}
    (hbridge : e'.session.bridge = { e.session.bridge with registry := e.registry.register key handle })
    (hhost : e'.session.host = e.session.host) (hinterpreter : e'.interpreter = e.interpreter)
    (hkept : e'.kept = e.kept) : LeavesHandle e key handle e' := by
  have hregistry : e'.registry = e.registry.register key handle := congrArg Bridge.registry hbridge
  refine ⟨fun k => ?_, ?_, ?_, ?_, hinterpreter, hkept, hhost, ?_⟩
  · rw [hregistry, Registry.resolve_register]
    simp only [eq_comm]
  · rw [hregistry, Registry.keys_register_iff]
  · change e'.registry.namespaces = e.registry.namespaces ↔ _
    rw [hregistry, Registry.namespaces_register_iff]
    rfl
  · rw [hregistry, Registry.agrees_register_iff]
  · rw [hbridge, hregistry]

/-- A registration that fails tells that there is no memory for the namespace, and still puts the handle under the key. So
the registry is as before exactly if the key had that very handle already. -/
theorem register_error {e : Engine α σ} {key : Key} {handle : α} {error : HostError}
    (h : (e.register key handle).1 = .error error) :
    LeavesHandle e key handle (e.register key handle).2 ∧ error = installFailure key.space Interpreter.outOfMemory := by
  cases hinstall : e.interpreter.install key.space with
  | ok installed => simp [register, emit, hinstall] at h
  | error cause =>
    obtain ⟨-, -, rfl⟩ := Interpreter.install_eq_error_iff.mp hinstall
    simp only [register, emit, hinstall] at h ⊢
    exact ⟨leavesHandle_of_registered (Session.emit_bridge ..) (Session.emit_host ..) rfl rfl, (Except.error.inj h).symm⟩

def starvedEngine : Engine Int32 Unit := create { memoryLimit := some 1 } ()

/-- The second of two registrations of one handle fails as the first did, and does not show. -/
theorem register_error_twice :
    let e := (starvedEngine.register ⟨"fresh", "f"⟩ 7).2
    (e.register ⟨"fresh", "f"⟩ 7).1 = .error (installFailure "fresh" Interpreter.outOfMemory) ∧
      e.registry.Agrees (e.register ⟨"fresh", "f"⟩ 7).2.registry := by
  intro e
  have hfails : (e.register ⟨"fresh", "f"⟩ 7).1 = .error (installFailure "fresh" Interpreter.outOfMemory) := by
    decide +kernel
  have hresolve : e.registry.resolve ⟨"fresh", "f"⟩ = some 7 := by decide +kernel
  exact ⟨hfails, (register_error hfails).1.agrees.mpr hresolve⟩

/-- The first registration fails, and the namespace is listed and the function found nevertheless. -/
theorem register_error_shows :
    let e' := (starvedEngine.register ⟨"fresh", "f"⟩ 7).2
    (starvedEngine.register ⟨"fresh", "f"⟩ 7).1 = .error (installFailure "fresh" Interpreter.outOfMemory) ∧
      starvedEngine.namespaces = [] ∧ e'.namespaces = ["fresh"] ∧
      starvedEngine.registry.resolve ⟨"fresh", "f"⟩ = none ∧ e'.registry.resolve ⟨"fresh", "f"⟩ = some 7 := by
  decide +kernel

end Engine

end ScriptHost
