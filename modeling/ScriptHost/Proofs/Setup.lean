import ScriptHost.Proofs.Calls
import ScriptHost.Proofs.Installation

/-! # Engines made to order

An engine that is made of a list of functions and a first script is what comes of making it empty, registering the
functions one after the other, and loading the script. Without a limit on memory only the script can fail. -/

namespace ScriptHost

open Lua (Value Bytes bytes Heap Vault Interpreter IsProxy indexRecord Closure)

variable {α σ : Type}

namespace Lua.Interpreter

/-- A table of the store that is neither that of the globals nor that of the proxies. -/
def Apart (i : Interpreter) (r : Nat) : Prop := r < i.heap.tables.size ∧ r ≠ i.vault.globals ∧ r ≠ i.vault.proxies

/-- The table `p` is a proxy as it was made: `mt` is its metatable, and `f` the closure that answers for its fields. -/
structure Untouched (i : Interpreter) (space : String) (p mt f : Nat) : Prop where
  proxyApart : i.Apart p
  metatableApart : i.Apart mt
  proxy : i.heap.table p = { metatable := some mt }
  record : i.heap.table mt = indexRecord f
  closure : i.vault.closures[f]? = some (.bound (.namespaceField (bytes space)))

theorem Untouched.isProxy {i : Interpreter} {space : String} {p mt f : Nat} (h : i.Untouched space p mt f) :
    IsProxy i.heap i.vault (bytes space) p := isProxy_of_tables h.proxy h.record h.closure

theorem Untouched.frame {i j : Interpreter} {space : String} {p mt f : Nat} (h : i.Untouched space p mt f)
    (hroots : j.vault.roots = i.vault.roots) (hgrown : i.heap.tables.size ≤ j.heap.tables.size)
    (htables : ∀ r, i.Apart r → j.heap.table r = i.heap.table r)
    (hclosures : ∀ (f : Nat) (c : Closure), i.vault.closures[f]? = some c → j.vault.closures[f]? = some c) :
    j.Untouched space p mt f := by
  obtain ⟨hglobals, hproxies⟩ : j.vault.globals = i.vault.globals ∧ j.vault.proxies = i.vault.proxies :=
    Prod.mk.inj hroots
  have hapart {r : Nat} (hr : i.Apart r) : j.Apart r :=
    ⟨Nat.lt_of_lt_of_le hr.1 hgrown, hglobals ▸ hr.2.1, hproxies ▸ hr.2.2⟩
  exact ⟨hapart h.proxyApart, hapart h.metatableApart, (htables _ h.proxyApart).trans h.proxy,
    (htables _ h.metatableApart).trans h.record, hclosures _ _ h.closure⟩

theorem addProxy_untouched {i : Interpreter} (hi : i.Rooted) {space : String} (hnil : i.known space = .nil) {p : Nat}
    (hp : (i.addProxy (bytes space)).2.known space = .table p) :
    (i.addProxy (bytes space)).2.Untouched space p i.heap.tables.size i.vault.closures.size := by
  obtain ⟨hglobals, hproxies⟩ := hi.below
  obtain ⟨q, hq, hprovides, -⟩ := addProxy_provides hi hnil
  obtain ⟨hnumber, hproxy, hrecord⟩ := i.addProxy_tables hproxies (bytes space)
  obtain rfl : q = i.heap.tables.size + 1 := Value.table.inj (hq.symm.trans hnumber)
  obtain rfl : p = i.heap.tables.size + 1 := Value.table.inj (hp.symm.trans hprovides.known)
  have hbelow := hprovides.below
  have happart {r : Nat} (hr : i.heap.tables.size ≤ r) (hr' : r ≤ i.heap.tables.size + 1) :
      (i.addProxy (bytes space)).2.Apart r :=
    ⟨by omega, Nat.ne_of_gt (Nat.lt_of_lt_of_le hglobals hr), Nat.ne_of_gt (Nat.lt_of_lt_of_le hproxies hr)⟩
  exact ⟨happart (by omega) (by omega), happart (by omega) (by omega), hproxy, hrecord, Array.getElem?_push_size⟩

/-- All proxies are as they were made. -/
def Pristine (i : Interpreter) : Prop := ∀ s p, i.known s = .table p → ∃ mt f, i.Untouched s p mt f

theorem proxyOf_closures {i j : Interpreter} {space : Bytes} {proxy : Value} (h : i.proxyOf space = some (proxy, j)) (f : Nat)
    (c : Closure) (hf : i.vault.closures[f]? = some c) : j.vault.closures[f]? = some c := by
  rcases proxyOf_cases h with ⟨-, hnew⟩ | ⟨-, -, rfl⟩
  · have hj : j = (i.addProxy space).2 := congrArg Prod.snd hnew
    have hlt : f < i.vault.closures.size := (Array.getElem?_eq_some_iff.mp hf).1
    rw [hj, ← hf]
    exact (Array.getElem?_push_lt hlt).trans (Array.getElem?_eq_getElem hlt).symm
  · exact hf

theorem Pristine.proxyOf {i j : Interpreter} (hi : i.Proxied) (hpristine : i.Pristine) {space : String} {proxy : Value}
    (h : i.proxyOf (bytes space) = some (proxy, j)) : j.Pristine := by
  obtain ⟨q, -, hprovides, htables⟩ := proxyOf_provides hi h
  have hkept {s : String} {p : Nat} (hp : i.known s = .table p) : ∃ mt f, j.Untouched s p mt f := by
    obtain ⟨mt, f, hold⟩ := hpristine s p hp
    exact ⟨mt, f, hold.frame hprovides.roots hprovides.grown (fun r hr => htables r hr.1 hr.2.2) (proxyOf_closures h)⟩
  intro s p hp
  by_cases hs : s = space
  · subst hs
    -- the proxy was made just now, or it is an old one like those of the other namespaces
    rcases proxyOf_cases h with ⟨hnil, hnew⟩ | ⟨-, -, rfl⟩
    · have hj : j = (i.addProxy (bytes s)).2 := congrArg Prod.snd hnew
      subst hj
      exact ⟨_, _, addProxy_untouched hi.rooted hnil hp⟩
    · exact hkept hp
  · exact hkept ((hprovides.others s hs).symm.trans hp)

theorem Pristine.install {i j : Interpreter} (hi : i.Proxied) (hpristine : i.Pristine) {space : String} {shadowed : Bool}
    (h : i.install space = .ok (shadowed, j)) : j.Pristine := by
  obtain ⟨proxy, k, hproxy, rfl⟩ := install_cases h
  obtain ⟨q, -, hprovides, -⟩ := proxyOf_provides hi hproxy
  have hk : k.Pristine := hpristine.proxyOf hi hproxy
  have happart : k.vault.globals ≠ k.vault.proxies := (hi.provided hprovides).rooted.apart
  intro s p hp
  have hknown : k.known s = .table p := by
    rw [known, Heap.rawGet, Heap.table_rawSet_of_ne _ happart] at hp
    exact hp
  obtain ⟨mt, f, huntouched⟩ := hk s p hknown
  refine ⟨mt, f, huntouched.frame rfl ?_ (fun r hr => ?_) fun _ _ hc => hc⟩
  · exact Nat.le_of_eq (Heap.size_rawSet ..).symm
  · exact Heap.table_rawSet_of_ne _ (Ne.symm hr.2.1) _ _

/-- The global variable of a namespace is its proxy. -/
def Holds (i : Interpreter) (space : String) : Prop := ∃ p, i.known space = .table p ∧ i.global (.ofText space) = .table p

/-- An installation gives the variable to its namespace and takes it from no other one. -/
theorem Holds.install {i j : Interpreter} (hi : i.Proxied) {space s : String} {shadowed : Bool}
    (h : i.install space = .ok (shadowed, j)) (hs : s = space ∨ i.Holds s) : j.Holds s := by
  obtain ⟨q, hprovides, hglobal, hothers, -⟩ := install_provides hi h
  by_cases hspace : s = space
  · subst hspace
    exact ⟨q, hprovides.known, hglobal⟩
  · obtain ⟨p, hknown, hheld⟩ := hs.resolve_left hspace
    have hkey : Value.ofText s ≠ .ofText space := fun heq => hspace (Value.ofText_inj heq)
    exact ⟨p, (hprovides.others s hspace).trans hknown, (hothers _ hkey).trans hheld⟩

/-- The global variable of a namespace is its proxy, which answers for the functions of the namespace. -/
structure Published (i : Interpreter) (space : String) (p : Nat) : Prop where
  known : i.known space = .table p
  global : i.global (.ofText space) = .table p
  isProxy : IsProxy i.heap i.vault (bytes space) p

theorem Published.of_tables {i j : Interpreter} {space : String} {p : Nat} (h : i.Published space p)
    (htables : j.heap.tables = i.heap.tables) (hvault : j.vault = i.vault) : j.Published space p := by
  have htable := Heap.table_of_tables htables
  have hget (r : Nat) (k : Value) : j.heap.rawGet r k = i.heap.rawGet r k := by
    rw [Heap.rawGet, htable]
    rfl
  refine ⟨?_, ?_, fun k => ?_, ?_⟩
  · rw [Interpreter.known, hvault, hget]
    exact h.known
  · rw [Interpreter.global, hvault, hget]
    exact h.global
  · rw [hget]
    exact h.isProxy.bare k
  · have hgetStr (r : Nat) (s : String) : j.heap.rawGetStr r s = i.heap.rawGetStr r s := by
      rw [Heap.rawGetStr, htable]
      rfl
    simp only [htable, hvault, hgetStr]
    exact h.isProxy.answers

end Lua.Interpreter

namespace Engine

open Registry (Last)

/-- An engine without a limit on memory that has done nothing but register functions. -/
structure Prepared (world : σ) (spaces : List String) (e : Engine α σ) : Prop where
  limit : e.interpreter.limit = none
  proxied : e.interpreter.Proxied
  pristine : e.interpreter.Pristine
  holds : ∀ s ∈ spaces, e.interpreter.Holds s
  kept : e.kept = (#[], none, .created)
  host : e.session.host = world
  lastError : e.lastError = none

theorem Prepared.create {options : EngineOptions} (hlimit : options.memoryLimit.filter (0 < ·) = none) (world : σ)
    (platform : Lua.Platform) :
    Prepared world [defaultNamespace] (create options world platform : Engine α σ) := by
  have hmemory : (Interpreter.fresh platform).Affords defaultNamespace := Or.inr rfl
  obtain ⟨shadowed, j, hj⟩ := hmemory.install
  have hinterpreter : (Engine.create options world platform : Engine α σ).interpreter =
      j.setLimit options.memoryLimit := by
    simp only [Engine.create, emit, hj]
  obtain ⟨q, hprovides, -⟩ := Lua.Interpreter.install_provides (Interpreter.proxied_fresh platform) hj
  have hproxied : j.Proxied := (Interpreter.proxied_fresh platform).provided hprovides
  have hempty : (Interpreter.fresh platform).Pristine := fun s p hp => by
    rw [Interpreter.known_fresh] at hp
    cases hp
  have hpristine : j.Pristine := hempty.install (Interpreter.proxied_fresh platform) hj
  refine ⟨?_, ?_, ?_, fun s hs => ?_, rfl, host_emit .., lastError_emit ..⟩
  · rw [hinterpreter]
    exact hlimit
  · rw [hinterpreter]
    exact ⟨hproxied.rooted, hproxied.known, hproxied.apart⟩
  · rw [hinterpreter]
    intro s p hp
    obtain ⟨mt, f, h⟩ := hpristine s p hp
    exact ⟨mt, f, h.proxyApart, h.metatableApart, h.proxy, h.record, h.closure⟩
  · rw [hinterpreter]
    have hholds : j.Holds s := .install (Interpreter.proxied_fresh platform) hj (Or.inl (List.mem_singleton.mp hs))
    exact hholds

theorem Prepared.register {world : σ} {spaces : List String} {e : Engine α σ} (h : Prepared world spaces e) (key : Key)
    (handle : α) :
    (e.register key handle).1 = .ok () ∧ Prepared world (spaces ++ [key.space]) (e.register key handle).2 := by
  obtain ⟨hok, hlimit⟩ := register_ok_of_unlimited h.limit key handle
  obtain ⟨shadowed, hinstall⟩ := register_installs hok
  obtain ⟨q, hprovides, -⟩ := Lua.Interpreter.install_provides h.proxied hinstall
  refine ⟨hok, hlimit, h.proxied.provided hprovides, h.pristine.install h.proxied hinstall, fun s hs => ?_,
    (kept_register e key handle).trans h.kept, (host_register e key handle).trans h.host,
    (register_lastError e key handle).trans h.lastError⟩
  refine Lua.Interpreter.Holds.install h.proxied hinstall ?_
  rcases List.mem_append.mp hs with hs | hs
  · exact Or.inr (h.holds s hs)
  · exact Or.inl (List.mem_singleton.mp hs)

theorem Prepared.registerAll {world : σ} {spaces : List String} {e : Engine α σ} (h : Prepared world spaces e)
    (functions : List (Key × α)) :
    Prepared world (spaces ++ functions.map (·.1.space)) (registerAll functions e).2 := by
  induction functions generalizing e spaces with
  | nil =>
    rw [List.map_nil, List.append_nil]
    exact h
  | cons p rest ih =>
    obtain ⟨key, handle⟩ := p
    obtain ⟨hok, hnext⟩ := h.register key handle
    have hregister : e.register key handle = (.ok (), (e.register key handle).2) := Prod.ext hok rfl
    rw [Engine.registerAll, hregister, List.map_cons, List.append_cons]
    exact ih hnext

/-- What an engine is that was made to order: it knows the functions of the list, the last one of each key, publishes
their namespaces, and has loaded the first script, if any; nothing was called and nothing failed. -/
structure Made (functions : List (Key × α)) (preload : Option String) (world : σ) (e : Engine α σ) : Prop where
  resolve : ∀ key handle, e.registry.resolve key = some handle ↔ Last functions key handle
  namespaces : ∀ s, s ∈ e.namespaces ↔ ∃ p ∈ functions, p.1.space = s
  ascending : e.namespaces.Pairwise (· < ·)
  published : ∀ s, s = defaultNamespace ∨ s ∈ e.namespaces → ∃ p, e.interpreter.Published s p
  history : e.history.toList = preload.toList
  state : e.state = if preload.isSome then .loaded else .created
  host : e.session.host = world
  lastError : e.lastError = none

theorem namespaces_ascending (e : Engine α σ) : e.namespaces.Pairwise (· < ·) :=
  (Registry.distinctSpaces_ascending (Registry.keys_ascending _)).imp compareOfLessAndEq_eq_lt.mp

theorem mem_namespaces_ofList {e : Engine α σ} {functions : List (Key × α)} (h : e.registry = .ofList functions)
    (s : String) : s ∈ e.namespaces ↔ ∃ p ∈ functions, p.1.space = s := by
  change s ∈ e.registry.namespaces ↔ _
  rw [h, Registry.mem_namespaces]
  simp only [Registry.contains_ofList, List.mem_map]
  constructor
  · rintro ⟨key, ⟨p, hp, rfl⟩, hs⟩
    exact ⟨p, hp, hs⟩
  · rintro ⟨p, hp, hs⟩
    exact ⟨p.1, ⟨p, hp, rfl⟩, hs⟩

def registrations (functions : List (Key × α)) : List (Operation α) := functions.map fun p => .register p.1 p.2

theorem Prepared.after {options : EngineOptions} (hlimit : options.memoryLimit.filter (0 < ·) = none) (host : Host α σ)
    (world : σ) (platform : Lua.Platform) (functions : List (Key × α)) :
    (Engine.registerAll functions (Engine.create options world platform)).1 = .ok () ∧
      (Engine.registerAll functions (Engine.create options world platform)).2 =
        Engine.after host (registrations functions) (Engine.create options world platform) ∧
      Prepared world (defaultNamespace :: functions.map (·.1.space))
        (Engine.after host (registrations functions) (Engine.create options world platform)) := by
  have hnew : Prepared world [defaultNamespace] (Engine.create options world platform : Engine α σ) :=
    .create hlimit world platform
  have hok := registerAll_ok_of_unlimited functions hnew.limit
  have hafter := registerAll_eq_after host hok
  have hall := hnew.registerAll functions
  rw [hafter] at hall
  exact ⟨hok, hafter, hall⟩

theorem Prepared.made {world : σ} {functions : List (Key × α)} {e : Engine α σ}
    (h : Prepared world (defaultNamespace :: functions.map (·.1.space)) e) (hregistry : e.registry = .ofList functions) :
    Made functions none world e := by
  have hmem := mem_namespaces_ofList hregistry
  have hkept := h.kept
  simp only [Engine.kept, Prod.mk.injEq] at hkept
  obtain ⟨hhistory, -, hstate⟩ := hkept
  refine ⟨fun key handle => ?_, hmem, e.namespaces_ascending, fun s hs => ?_, ?_, hstate, h.host, h.lastError⟩
  · rw [hregistry, Registry.resolve_eq_some_iff]
  · have hlisted : s ∈ defaultNamespace :: functions.map (·.1.space) := by
      rw [List.mem_cons, List.mem_map, ← hmem]
      exact hs
    obtain ⟨p, hknown, hglobal⟩ := h.holds s hlisted
    obtain ⟨mt, f, huntouched⟩ := h.pristine s p hknown
    exact ⟨p, hknown, hglobal, huntouched.isProxy⟩
  · rw [hhistory]
    rfl

theorem Made.load {world : σ} {functions : List (Key × α)} {e : Engine α σ} (h : Made functions none world e)
    {script : String} (hload : (e.load script).1 = .ok ()) : Made functions (some script) world (e.load script).2 := by
  have hregistry := e.registry_load script
  have hnamespaces : (e.load script).2.namespaces = e.namespaces := congrArg Registry.namespaces hregistry
  have hhistory : e.history.toList = [] := h.history
  rcases load_cases e script with ⟨error, herror, -⟩ | ⟨chunk, -, -, hkept⟩
  · rw [hload] at herror
    cases herror
  · simp only [kept, Prod.mk.injEq] at hkept
    obtain ⟨hhistory', -, hstate⟩ := hkept
    refine ⟨fun key handle => ?_, fun s => ?_, ?_, fun s hs => ?_, ?_, hstate, (host_load e script).trans h.host, ?_⟩
    · rw [hregistry]
      exact h.resolve key handle
    · rw [hnamespaces]
      exact h.namespaces s
    · rw [hnamespaces]
      exact h.ascending
    · rw [hnamespaces] at hs
      obtain ⟨p, hp⟩ := h.published s hs
      exact ⟨p, hp.of_tables (e.tables_load script) (e.vault_load script)⟩
    · rw [hhistory', Array.toList_push, hhistory]
      rfl
    · rw [load_lastError, hload]
      exact h.lastError

/-- What loading the first script, if any, makes of an engine that has its functions. -/
inductive Starts (host : Host α σ) (e : Engine α σ) : Option String → Except CreateError Unit × Engine α σ → Prop
  | bare : Starts host e none (.ok (), e)
  | loaded {script : String} {e' : Engine α σ} (h : e.load script = (.ok (), e')) :
      Starts host e (some script) (.ok (), e')
  | refused {script : String} {cause : ExecutionError} {e' : Engine α σ} (h : e.load script = (.error cause, e')) :
      Starts host e (some script) (.error (.preload cause), e'.close host)

theorem Starts.error_iff {host : Host α σ} {e : Engine α σ} {preload : Option String}
    {made : Except CreateError Unit × Engine α σ} (h : Starts host e preload made) (error : CreateError) :
    made.1 = .error error ↔
      ∃ script cause, preload = some script ∧ (e.load script).1 = .error cause ∧ error = .preload cause := by
  cases h with
  | bare => simp
  | loaded hload => simp [hload]
  | refused hload => simp [hload, eq_comm]

theorem Starts.made {host : Host α σ} {world : σ} {functions : List (Key × α)} {e : Engine α σ}
    (he : Made functions none world e) {preload : Option String} {made : Except CreateError Unit × Engine α σ}
    (h : Starts host e preload made) (hok : made.1 = .ok ()) : Made functions preload world made.2 := by
  cases h with
  | bare => exact he
  | loaded hload =>
    have hloaded := he.load (congrArg Prod.fst hload)
    rw [hload] at hloaded
    exact hloaded
  | refused hload => cases hok

/-- An engine that is made to order, without a limit on memory, is the one that comes of making it empty, registering
the functions in their order, which never fails, and loading the first script. It fails just if this load does, with its
error, and otherwise it is as ordered. -/
theorem ofSetup_stepwise (host : Host α σ) {setup : Setup α}
    (hlimit : setup.options.memoryLimit.filter (0 < ·) = none) (world : σ) :
    let start := create setup.options (world, []) setup.platform
    let built := after host.recording (registrations setup.functions) start
    let made := ofSetup host.recording setup (world, [])
    (∀ earlier p later, setup.functions = earlier ++ p :: later →
        ((after host.recording (registrations earlier) start).register p.1 p.2).1 = .ok ()) ∧
      Starts host.recording built setup.preload made ∧
      (∀ error, made.1 = .error error ↔ ∃ script cause, setup.preload = some script ∧
        (built.load script).1 = .error cause ∧ error = .preload cause) ∧
      (made.1 = .ok () → Made setup.functions setup.preload (world, []) made.2) := by
  intro start built made
  obtain ⟨hok, hafter, hprepared⟩ := Prepared.after hlimit host.recording (world, []) setup.platform setup.functions
  have hregistry : built.registry = .ofList setup.functions := by
    rw [← registry_registerAll host.recording hok, hafter]
  have hall : registerAll setup.functions start = (.ok (), built) := Prod.ext hok hafter
  have hstarts : Starts host.recording built setup.preload made := by
    simp only [made, ofSetup, start, hall]
    cases setup.preload with
    | none => exact .bare
    | some script =>
      obtain ⟨⟨answer, e⟩, hload⟩ : ∃ r, built.load script = r := ⟨_, rfl⟩
      simp only [hload]
      cases answer with
      | ok => exact .loaded hload
      | error cause => exact .refused hload
  refine ⟨fun earlier p later _ => ?_, hstarts, hstarts.error_iff, hstarts.made (hprepared.made hregistry)⟩
  obtain ⟨-, -, hearlier⟩ := Prepared.after hlimit host.recording (world, []) setup.platform earlier
  exact (hearlier.register p.1 p.2).1

/-- A function of the application, one that takes the place of a library, the first one again, and a script. -/
def repeatedSetup : Setup Int32 :=
  ((({ preload := some "calls = 0" } : Setup Int32).withFunction "app" "f" 1).withFunction "string" "g" 2).withFunction
    "app" "f" 3

/-- The last function of the repeated key is the one that is found, and the name of the library is its namespace. -/
theorem ofSetup_stepwise_repeated :
    let made := ofSetup numerals.recording repeatedSetup ((), [])
    made.1 = .ok () ∧ made.2.registry.resolve ⟨"app", "f"⟩ = some 3 ∧ made.2.state = .loaded ∧
      made.2.session.host = ((), []) ∧ ∃ p, made.2.interpreter.Published "string" p := by
  intro made
  have hlimit : repeatedSetup.options.memoryLimit.filter (0 < ·) = none := rfl
  have hok : made.1 = .ok () := by decide +kernel
  obtain ⟨-, -, -, hmade⟩ := ofSetup_stepwise numerals hlimit ()
  have hordered : Made repeatedSetup.functions repeatedSetup.preload ((), []) made.2 := hmade hok
  have hlast : Last repeatedSetup.functions ⟨"app", "f"⟩ 3 :=
    ⟨[(⟨"app", "f"⟩, 1), (⟨"string", "g"⟩, 2)], [], rfl, by simp⟩
  have hfunctions : repeatedSetup.functions =
      [(⟨"app", "f"⟩, 1)] ++ (⟨"string", "g"⟩, 2) :: [(⟨"app", "f"⟩, 3)] := rfl
  have hlisted : "string" ∈ made.2.namespaces := by
    rw [hordered.namespaces, hfunctions]
    exact ⟨_, List.mem_append_cons_self, rfl⟩
  have hpreload : repeatedSetup.preload.isSome = true := rfl
  refine ⟨hok, ?_, ?_, hordered.host, hordered.published "string" (Or.inr hlisted)⟩
  · rw [hordered.resolve]
    exact hlast
  · rw [hordered.state, if_pos hpreload]

end Engine

end ScriptHost
