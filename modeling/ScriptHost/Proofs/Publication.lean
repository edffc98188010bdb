import ScriptHost.Proofs.Calls
import ScriptHost.Proofs.CallScript
import ScriptHost.Proofs.NamespaceCall
import ScriptHost.Proofs.Numbering
import ScriptHost.Proofs.Provenance
import ScriptHost.Proofs.Reload

/-! # Published namespaces

A registration publishes the namespace: whatever scripts did to the global variable, afterwards it has the proxy of the
namespace again. A call of the registered function by its namespace then reaches the host, provided that the proxy still
answers for the name, as it does when the namespace is new. -/

namespace ScriptHost

open Lua (Value Interpreter Machine Heap Vault Chunk Bytes bytes Serves CallsMethod Within)
open Marshal (Carries)

variable {α σ : Type}

namespace Lua

/-- Memory for two things is memory for the first of them. -/
theorem Heap.admits_add {h : Heap} {limit : Option Nat} {size more : Nat} (hadmits : h.admits limit (size + more)) :
    h.admits limit size ∧ h.hasRoom limit (size + more) := by
  simp only [admits, Bool.and_eq_true, decide_eq_true_eq] at hadmits ⊢
  obtain ⟨haddressable, hroom⟩ := hadmits
  exact ⟨⟨by omega, hasRoom_mono (Nat.le_add_right ..) hroom⟩, hroom⟩

/-- The bytes that a script takes which calls one function of the host with so many arguments, by estimate: for its chunk
and for its run. -/
def Interpreter.callSize (source : Bytes) (count : Nat) : Nat := chunkSize source + callMemory count

def Vault.roots (v : Vault) : Nat × Nat := (v.globals, v.proxies)

namespace Interpreter

def Rooted (i : Interpreter) : Prop := i.vault.roots = (Heap.globals, Heap.proxies)

theorem Rooted.below {i : Interpreter} (h : i.Rooted) :
    i.vault.globals < i.heap.tables.size ∧ i.vault.proxies < i.heap.tables.size := by
  obtain ⟨hglobals, hproxies⟩ : i.vault.globals = 0 ∧ i.vault.proxies = 1 := Prod.mk.inj h
  have hroots := i.heap.rooted
  omega

theorem Rooted.install {i j : Interpreter} (h : i.Rooted) {space : String} {shadowed : Bool}
    (hinstall : i.install space = .ok (shadowed, j)) : j.Rooted := by
  obtain ⟨heap, closures, rfl⟩ := install_frame hinstall
  exact h

/-- The global variable of a namespace has a proxy that answers for a name. -/
structure Publishes (i : Interpreter) (key : Key) (p : Nat) : Prop where
  global : i.heap.rawGet i.vault.globals (.str (bytes key.space)) = .table p
  serves : Serves i.heap i.vault (bytes key.space) (bytes key.name) p

theorem Publishes.of_tables {i j : Interpreter} {key : Key} {p : Nat} (h : i.Publishes key p)
    (htables : j.heap.tables = i.heap.tables) (hvault : j.vault = i.vault) : j.Publishes key p := by
  refine ⟨?_, ?_⟩
  · rw [Heap.rawGet, Heap.table_of_tables htables, hvault]
    exact h.global
  · rw [hvault]
    exact h.serves.of_tables htables

end Interpreter

end Lua

namespace Engine

theorem drive_roots (host : Host α σ) (fuel : Nat) (s : Session α σ) (m : Machine) :
    (drive host fuel s m).2.vault.roots = m.vault.roots := by
  have hstep {n : Machine} (h : n.vault.roots = m.vault.roots) : n.step.vault.roots = m.vault.roots :=
    (congrArg Prod.snd n.step_grown.hostPart).trans h
  -- an answer of the host is a value put in the control or an error added to the vault, and neither touches the roots
  exact drive_induction (P := fun _ n _ => n.vault.roots = m.vault.roots) hstep (fun h _ => h) (fun h _ => h) fuel s m []
    rfl

theorem roots_execute (host : Host α σ) (e : Engine α σ) :
    (e.execute host).2.interpreter.vault.roots = e.interpreter.vault.roots := by
  cases hcompiled : e.compiled with
  | none =>
    rw [execute_without_script host hcompiled]
    rfl
  | some c =>
    rw [execute_of_compiled host hcompiled, run_eq, vault_conclude, drive_roots]
    exact congrArg Vault.roots (Machine.enterScript_vault ..)

theorem roots_register (e : Engine α σ) (key : Key) (handle : α) :
    (e.register key handle).2.interpreter.vault.roots = e.interpreter.vault.roots := by
  obtain ⟨heap, closures, hframe⟩ := e.register_frame key handle
  rw [hframe]
  rfl

theorem roots_apply (host : Host α σ) (e : Engine α σ) (op : Operation α) :
    (op.apply host e).interpreter.vault.roots = e.interpreter.vault.roots := by
  cases op with
  | load script => exact congrArg Vault.roots (e.vault_load script)
  | execute => exact roots_execute host e
  | executeScript script =>
    have hvault := congrArg Vault.roots (e.vault_load script)
    cases hload : (e.load script).1 with
    | error error =>
      rw [Operation.apply, executeScript_of_load_error host hload]
      exact hvault
    | ok =>
      rw [Operation.apply, executeScript_of_load_ok host hload, roots_execute]
      exact hvault
  | invoke key args => exact congrArg (·.vault.roots) (e.interpreter_invoke host key args)
  | register key handle => exact roots_register e key handle
  | setLogLevel word => exact congrArg (·.vault.roots) (e.interpreter_setLogLevel word)

theorem rooted_create (options : EngineOptions) (world : σ) (platform : Lua.Platform) :
    (create options world platform : Engine α σ).interpreter.Rooted := by
  obtain ⟨heap, closures, limit, hframe⟩ := create_frame (α := α) options world platform
  rw [hframe]
  rfl

theorem rooted_after_create (host : Host α σ) (options : EngineOptions) (world : σ) (platform : Lua.Platform)
    (ops : List (Operation α)) :
    (after host ops (create options world platform)).interpreter.Rooted := by
  have hops (e : Engine α σ) : (after host ops e).interpreter.vault.roots = e.interpreter.vault.roots := by
    induction ops generalizing e with
    | nil => rfl
    | cons op ops ih => exact (ih (op.apply host e)).trans (roots_apply host e op)
  exact (hops _).trans (rooted_create options world platform)

/-- What stands for a namespace; nil if it was never registered. -/
def proxy (e : Engine α σ) (space : String) : Value :=
  e.interpreter.heap.rawGet e.interpreter.vault.proxies (.str (bytes space))

/-- The namespace of a key is new, or it has a proxy that answers for the name when the key is registered. -/
def Answers (e : Engine α σ) (key : Key) (handle : α) : Prop :=
  e.proxy key.space = .nil ∨ ∃ p, e.proxy key.space = .table p ∧
    Serves (e.register key handle).2.interpreter.heap (e.register key handle).2.interpreter.vault (bytes key.space)
      (bytes key.name) p

theorem register_installs {e : Engine α σ} {key : Key} {handle : α} (hok : (e.register key handle).1 = .ok ()) :
    ∃ shadowed, e.interpreter.install key.space = .ok (shadowed, (e.register key handle).2.interpreter) := by
  cases hinstall : e.interpreter.install key.space with
  | error cause => simp [register, emit, hinstall] at hok
  | ok installed =>
    obtain ⟨shadowed, i⟩ := installed
    simp only [register, emit, hinstall]
    cases shadowed <;> exact ⟨_, rfl⟩

/-- After a registration the global variable has the proxy of the namespace, a new one or the one that there was. -/
theorem register_publishes {e : Engine α σ} (hrooted : e.interpreter.Rooted) {key : Key} {handle : α}
    (hok : (e.register key handle).1 = .ok ()) (hanswers : e.Answers key handle) {i : Interpreter}
    (hi : i = (e.register key handle).2.interpreter) : ∃ p, i.Publishes key p := by
  obtain ⟨shadowed, hinstall⟩ := register_installs hok
  rw [Answers, ← hi] at hanswers
  rw [← hi] at hinstall
  obtain ⟨hglobals, hproxies⟩ := hrooted.below
  have hbelow := (hrooted.install hinstall).below.1
  obtain ⟨proxy, k, hproxy, rfl⟩ := Interpreter.install_cases hinstall
  have hk : k.vault.globals < k.heap.tables.size := by simpa [Heap.rawSet, Heap.modifyTable] using hbelow
  have hglobal := Heap.rawGet_rawSet_str hk (bytes key.space) proxy
  rcases Interpreter.proxyOf_cases hproxy with ⟨-, hnew⟩ | ⟨hold, hsome, rfl⟩
  · obtain ⟨p, hp, hisProxy⟩ := e.interpreter.addProxy_isProxy hproxies (bytes key.space) hglobals
      (.str (bytes key.space)) proxy
    cases hnew
    exact ⟨p, hglobal.trans hp, hisProxy.serves _⟩
  · rcases hanswers with hnil | ⟨p, hp, hserves⟩
    · exact absurd (hold.symm.trans hnil) hsome
    · exact ⟨p, hglobal.trans (hold.symm.trans hp), hserves⟩

theorem drive_of_done (host : Host α σ) (fuel : Nat) (s : Session α σ) {m : Machine}
    (hdone : ∃ outcome, m.control = .done outcome) : drive host fuel s m = (s, m) := by
  obtain ⟨outcome, houtcome⟩ := hdone
  cases fuel with
  | zero => rfl
  | succ fuel => rw [drive, houtcome]

theorem drive_within (host : Host α σ) {n fuel : Nat} {m m' : Machine} (h : Within n m m') (hfuel : n ≤ fuel)
    (s : Session α σ) : ∃ left, fuel ≤ left + n ∧ drive host fuel s m = drive host left s m' := by
  obtain ⟨l, hl, hdrive⟩ := h.drive host
  refine ⟨fuel - l, by omega, ?_⟩
  rw [← hdrive, Nat.sub_add_cancel (by omega)]

theorem run_host (host : Host α σ) (s : Session α σ) {key : Key} {handle : α}
    (hresolve : s.bridge.registry.resolve key = some handle) {vs : List Value} {args : List Argument}
    (hargs : List.Forall₂ Carries vs args) :
    (Dispatch.run host s (.ofText key.space :: .ofText key.name :: vs)).2.host = (host.call handle args s.host).2 := by
  obtain ⟨⟨answer, after⟩, hcall⟩ : ∃ r, host.call handle args s.host = r := ⟨_, rfl⟩
  have hdirect : Dispatch.direct host s.bridge.registry key args s.host =
      (answer.mapError (.hostFunction key), after) := by
    simp only [Dispatch.direct, hresolve, hcall]
    cases answer <;> rfl
  cases answer with
  | ok n =>
    obtain ⟨t, hrun, hhost, -⟩ := Dispatch.run_of_direct_ok host s key hargs hdirect
    rw [hrun, hcall, ← hhost]
  | error error =>
    obtain ⟨t, hrun, hhost, -⟩ := Dispatch.run_of_direct_error host s key hargs hdirect
    rw [hrun, hcall, ← hhost]

/-- A run that asks the host for a call and then ends leaves the host as the call does. -/
theorem drive_calls (host : Host α σ) {n fuel : Nat} (hfuel : n + 13 ≤ fuel) {s : Session α σ} {m m' : Machine}
    (hwithin : Within n m m') {key : Key} {vs : List Value}
    (hasks : Interpreter.Asks m' (.ofText key.space :: .ofText key.name :: vs)) {handle : α}
    (hresolve : s.bridge.registry.resolve key = some handle) {args : List Argument}
    (hargs : List.Forall₂ Carries vs args) :
    (drive host fuel s m).1.host = (host.call handle args s.host).2 := by
  have hfirst : n ≤ fuel := by omega
  obtain ⟨left, hleft, hdrive⟩ := drive_within host hwithin hfirst s
  obtain ⟨label, weight, hcontrol⟩ := hasks.control
  obtain ⟨left, rfl⟩ : ∃ l, left = l + 1 := ⟨left - 1, by omega⟩
  obtain ⟨⟨answer, t⟩, hrun⟩ : ∃ r, Dispatch.run host s (.ofText key.space :: .ofText key.name :: vs) = r := ⟨_, rfl⟩
  obtain ⟨d, hd, hdone⟩ := hasks.ends hcontrol answer
  have hmore : 12 ≤ left := by omega
  obtain ⟨rest, -, hrest⟩ := drive_within host hd hmore t
  have hhost := run_host host s hresolve hargs
  rw [hrun] at hhost
  rw [hdrive, drive, hcontrol]
  simp only [hrun]
  rw [hrest, drive_of_done host rest t hdone]
  exact hhost

theorem tables_load (e : Engine α σ) (script : String) :
    (e.load script).2.interpreter.heap.tables = e.interpreter.heap.tables := by
  unfold load
  simp only
  split
  · next hload =>
    obtain ⟨-, -, -, rfl⟩ := Interpreter.load_eq_ok hload
    unfold emit
    cases e.compiled <;> rfl
  · rfl

/-- Loading a script takes the bytes of its chunk at most: a chunk that was loaded before is given back. -/
theorem hasRoom_load {e : Engine α σ} {script : String} (hload : (e.load script).1 = .ok ()) {more : Nat}
    (hroom : e.interpreter.heap.hasRoom e.interpreter.limit (Interpreter.chunkSize (bytes script) + more)) :
    (e.load script).2.interpreter.heap.hasRoom (e.load script).2.interpreter.limit more := by
  obtain ⟨c, i, hchunk, -⟩ := exists_chunk_of_load_ok hload
  obtain ⟨message, hresult⟩ := load_of_interpreter hchunk
  obtain ⟨-, -, hsize, rfl⟩ := Interpreter.load_eq_ok hchunk
  have hused : (e.load script).2.interpreter.heap.used ≤ e.interpreter.heap.used + Interpreter.chunkSize (bytes script) := by
    rw [hresult, ← hsize]
    cases e.compiled with
    | none => exact Nat.le_refl _
    | some earlier => exact Nat.sub_le ..
  have hlimit : (e.load script).2.interpreter.limit = e.interpreter.limit := by
    rw [hresult]
    cases e.compiled <;> rfl
  rw [Heap.hasRoom, hlimit]
  rw [Heap.hasRoom] at hroom
  cases hbound : e.interpreter.limit with
  | none => rfl
  | some bound =>
    simp only [hbound, Option.all_some, decide_eq_true_eq] at hroom ⊢
    omega

/-- A script that was just loaded has the globals for its environment. -/
theorem environment_of_load {e : Engine α σ} (h : e.Numbered) {c : Chunk} (hc : c.environment = e.interpreter.loaded) :
    e.interpreter.vault.environment c.environment = .table e.interpreter.vault.globals := by
  have hfresh : c.environment ∉ e.interpreter.vault.assigned := fun hassigned =>
    absurd (h.interpreter.assigned _ hassigned) (by omega)
  rw [Lua.Vault.environment, Std.TreeMap.getElem?_eq_none hfresh]
  rfl

/-- The run of a script that calls a function by its namespace, while the namespace is published. -/
theorem executeScript_calls (host : Host α σ) {e : Engine α σ} (hnumbered : e.Numbered) {script : String}
    (hload : (e.load script).1 = .ok ()) {key : Key} {handle : α} (hresolve : e.registry.resolve key = some handle)
    {vs : List Value} {args : List Argument} (hargs : List.Forall₂ Carries vs args)
    (hscript : ∀ q, Lua.compile (bytes script) (bytes script) 0 = .ok q →
      CallsMethod q (bytes key.space) (bytes key.name) vs) {p : Nat} (hpublishes : e.interpreter.Publishes key p)
    (hmemory : e.interpreter.heap.hasRoom e.interpreter.limit (Interpreter.callSize (bytes script) vs.length)) :
    (e.executeScript host script).2.session.host = (host.call handle args e.session.host).2 := by
  obtain ⟨c, i, hchunk, henvironment⟩ := exists_chunk_of_load_ok hload
  obtain ⟨message, hresult⟩ := load_of_interpreter hchunk
  obtain ⟨hcompile, -⟩ := Interpreter.load_eq_ok hchunk
  let loaded := (e.load script).2
  have hcompiled : loaded.compiled = some c := by
    simp only [loaded, hresult]
  have hvault : loaded.interpreter.vault = e.interpreter.vault := e.vault_load script
  have henv : loaded.interpreter.vault.environment c.environment = .table loaded.interpreter.vault.globals := by
    rw [hvault]
    exact environment_of_load hnumbered henvironment
  have hpublished : loaded.interpreter.Publishes key p := hpublishes.of_tables (e.tables_load script) hvault
  obtain ⟨m, hwithin, hasks⟩ := Interpreter.start_asks (hscript _ hcompile) henv hpublished.global hpublished.serves
    (hasRoom_load hload hmemory)
  have hannounced : loaded.announce.registry.resolve key = some handle := by
    rw [announce, registry_emit, registry_load]
    exact hresolve
  have hhost : loaded.announce.session.host = e.session.host := (host_emit ..).trans (host_load e script)
  have hfuel : 12 + 13 ≤ stepLimit := by
    unfold stepLimit
    decide
  rw [executeScript_of_load_ok host hload, execute_of_compiled host hcompiled, run_eq, host_conclude, ← hhost]
  exact drive_calls host hfuel hwithin hasks hannounced hargs

open Lua.Lexer (isIdentifier)
open Lua.Parser (Literal callScript)

/-- After a registration the next run, a call of the function by its namespace with literals as arguments, makes exactly
this call. -/
theorem register_then_call (host : Host α σ) (options : EngineOptions) (world : σ) (platform : Lua.Platform)
    (ops : List (Operation α)) {e : Engine α (σ × List (α × List Argument))}
    (he : e = after host.recording ops (create options (world, []) platform))
    {key : Key} {handle : α} (hok : (e.register key handle).1 = .ok ()) (hanswers : e.Answers key handle)
    (hspace : isIdentifier key.space = true) (henvironment : key.space ≠ "_ENV") (hname : isIdentifier key.name = true)
    {literals : List Literal} (hcount : literals.length ≤ 252) {args : List Argument}
    (hargs : List.Forall₂ Carries (literals.map Literal.value) args) {script : String}
    (hscript : script = callScript key.space key.name literals) {published : Engine α (σ × List (α × List Argument))}
    (hpublished : published = (e.register key handle).2)
    (hmemory : published.interpreter.heap.admits published.interpreter.limit
      (Interpreter.callSize (bytes script) literals.length) = true) :
    (published.executeScript host.recording script).2.session.host =
      ((host.call handle args e.session.host.1).2, e.session.host.2 ++ [(handle, args)]) := by
  have hnumbered : e.Numbered := he ▸ (Numbered.create options (world, []) platform).after host.recording ops
  have hrooted : e.interpreter.Rooted := he ▸ rooted_after_create host.recording options (world, []) platform ops
  have hslots : 2 + literals.length < Lua.Parser.maxSlots := by
    unfold Lua.Parser.maxSlots
    omega
  have henv : bytes key.space ≠ Lua.environmentName := fun h => henvironment (String.toByteArray_inj.mp h)
  obtain ⟨p, hpublishes⟩ := register_publishes hrooted hok hanswers (congrArg interpreter hpublished)
  obtain ⟨hchunkMemory, hroom⟩ := Heap.admits_add hmemory
  rw [← List.length_map Literal.value] at hroom
  obtain ⟨c, i, hchunk⟩ := Interpreter.load_callScript hspace henv hname hslots hscript hchunkMemory
  have hload : (published.load script).1 = .ok () := by
    obtain ⟨message, hresult⟩ := load_of_interpreter hchunk
    rw [hresult]
  have hresolve : published.registry.resolve key = some handle := by
    rw [hpublished, registry_register, Registry.resolve_register, if_pos rfl]
  have hcalls := executeScript_calls host.recording (hpublished ▸ hnumbered.register key handle) hload hresolve hargs
    (fun q hq => Lua.Parser.callsMethod_callScript hspace henv hname hslots (hscript ▸ hq)) hpublishes hroom
  have hhost : published.session.host = e.session.host := hpublished ▸ host_register e key handle
  rw [hcalls, hhost]
  rfl

-- The engine of the two runs below has one function. It is registered again after a script.

def one : Lua.Parser.Numeral := ⟨"1", .int 1, by with_unfolding_all rfl⟩

def passed : List Literal := [.number one, .opposite one (.int (-1)) rfl, .bool true, .nil, .text "a\"b"]

def afterScript (script : String) : Engine Unit (Unit × List (Unit × List Argument)) :=
  after counting.recording [.register ⟨"app", "note"⟩ (), .executeScript script] (create {} ((), []))

theorem proxy_eq_appProxy {e : Engine α σ} (h : (match e.proxy "app" with | .table _ => true | _ => false) = true) :
    e.proxy "app" = .table e.appProxy := by
  unfold appProxy
  change _ = Value.table (match e.proxy "app" with | .table p => p | _ => 0)
  split at h
  · next p hp => rw [hp]
  · cases h

/-- A script that overwrites the global variable changes nothing. -/
theorem register_then_call_overwritten :
    let e := afterScript "app = nil"
    let script := "app:note(1, -1, true, nil, \"a\\\"b\")"
    ((e.register ⟨"app", "note"⟩ ()).2.executeScript counting.recording script).2.session.host =
      ((), e.session.host.2 ++
        [((), [.number (Marshal.doubleOfInt 1), .number (Marshal.doubleOfInt (-1)), .bool true, .nil, .text "a\"b"])]) := by
  intro e script
  let key : Key := ⟨"app", "note"⟩
  have hok : (e.register key ()).1 = .ok () := by decide +kernel
  have hproxy : e.proxy key.space = .table e.appProxy := proxy_eq_appProxy (by decide +kernel)
  have hspace : Lua.proxySpace? (e.register key ()).2.interpreter.heap (e.register key ()).2.interpreter.vault
      e.appProxy = some (bytes "app") := by
    decide +kernel
  have hanswers : e.Answers key () := Or.inr ⟨_, hproxy, (Lua.isProxy_of_proxySpace hspace).serves _⟩
  have hargs : List.Forall₂ Carries (passed.map Literal.value)
      [.number (Marshal.doubleOfInt 1), .number (Marshal.doubleOfInt (-1)), .bool true, .nil, .text "a\"b"] :=
    .cons (.int 1) (.cons (.int (-1)) (.cons (.bool true) (.cons .nil (.cons (.text _) .nil))))
  exact register_then_call counting {} () {} [.register ⟨"app", "note"⟩ (), .executeScript "app = nil"] rfl hok hanswers
    (by decide) (by decide) (by decide) (by decide) hargs (by decide +kernel) rfl (by decide +kernel)

/-- A script that gives the proxy a field of the name of the function takes the calls over, registered again or not. -/
theorem register_then_call_field :
    let e := afterScript "app.note = function() end"
    let published := (e.register ⟨"app", "note"⟩ ()).2
    (e.register ⟨"app", "note"⟩ ()).1 = .ok () ∧
      (published.executeScript counting.recording "app:note(1)").1 = .ok () ∧
      (published.executeScript counting.recording "app:note(1)").2.session.host.2.isEmpty := by
  decide +kernel

end Engine

end ScriptHost
