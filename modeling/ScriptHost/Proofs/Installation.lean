import Mathlib.Logic.Relation
import ScriptHost.Proofs.Logging
import ScriptHost.Proofs.Publication

/-! # Namespaces among the globals

Scripts may do with the table of the globals what they like, but the table of the proxies is out of their reach. So a
namespace keeps its proxy for ever, an installation restores the global variable whatever it was, and it reports just the
values of others that it replaces. -/

namespace ScriptHost

open Lua (Value Bytes bytes Heap Vault Interpreter)

variable {α σ : Type}

namespace Lua

theorem Value.isNil_eq_true_iff {v : Value} : v.isNil = true ↔ v = .nil := by
  cases v <;> simp [isNil]

theorem Value.rawEq_table_iff {v : Value} {p : Nat} : v.rawEq (.table p) = true ↔ v = .table p := by
  cases v <;> simp [rawEq]

theorem Value.eq_false {v : Value} (htruthy : v.truthy = false) (hnil : v.isNil = false) : v = .bool false := by
  cases v with
  | nil => cases hnil
  | bool b => rw [show b = false from htruthy]
  | _ => cases htruthy

theorem Value.ofText_inj {s s' : String} (h : ofText s = ofText s') : s = s' :=
  String.toByteArray_inj.mp (str.inj h)

theorem Heap.size_rawSet (h : Heap) (r : Nat) (k v : Value) : (h.rawSet r k v).tables.size = h.tables.size := by
  simp [Heap.rawSet, Heap.modifyTable]

namespace Interpreter

def global (i : Interpreter) (k : Value) : Value := i.heap.rawGet i.vault.globals k

/-- The proxy of a namespace; nil if it has none yet. -/
def known (i : Interpreter) (space : String) : Value := i.heap.rawGet i.vault.proxies (.ofText space)

/-- The proxies are tables of the store, and no two namespaces have the same. -/
structure Proxied (i : Interpreter) : Prop where
  rooted : i.Rooted
  known : ∀ s, i.known s = .nil ∨ ∃ p, i.known s = .table p ∧ p < i.heap.tables.size
  apart : ∀ s s' p, i.known s = .table p → i.known s' = .table p → s = s'

/-- A namespace has the proxy that it had, or gets a new table; the other proxies stay. -/
structure Provides (i : Interpreter) (space : String) (p : Nat) (j : Interpreter) : Prop where
  roots : j.vault.roots = i.vault.roots
  grown : i.heap.tables.size ≤ j.heap.tables.size
  known : j.known space = .table p
  below : p < j.heap.tables.size
  found : i.known space = .table p ∨ i.known space = .nil ∧ i.heap.tables.size ≤ p
  others : ∀ s, s ≠ space → j.known s = i.known s

theorem Provides.keeps {i j : Interpreter} {space : String} {p : Nat} (h : i.Provides space p j) {s : String}
    (hs : i.known s ≠ .nil) : j.known s = i.known s := by
  by_cases hspace : s = space
  · subst hspace
    rcases h.found with hfound | ⟨hnil, -⟩
    · rw [h.known, hfound]
    · exact absurd hnil hs
  · exact h.others s hspace

theorem Proxied.provided {i j : Interpreter} (hi : i.Proxied) {space : String} {p : Nat} (h : i.Provides space p j) :
    j.Proxied where
  rooted := h.roots.trans hi.rooted
  known s := by
    by_cases hspace : s = space
    · exact Or.inr ⟨p, hspace ▸ h.known, h.below⟩
    · rw [h.others s hspace]
      rcases hi.known s with hnil | ⟨q, hq, hlt⟩
      · exact Or.inl hnil
      · exact Or.inr ⟨q, hq, Nat.lt_of_lt_of_le hlt h.grown⟩
  apart := by
    -- a proxy that another namespace has is not a new one
    have hother {s : String} (hs : s ≠ space) (hp : j.known s = .table p) : False := by
      rw [h.others s hs] at hp
      rcases h.found with hfound | ⟨-, hnew⟩
      · exact hs (hi.apart s space p hp hfound)
      · rcases hi.known s with hnil | ⟨q, hq, hlt⟩
        · rw [hnil] at hp
          cases hp
        · rw [hq] at hp
          cases hp
          omega
    intro s s' q hs hs'
    by_cases hspace : s = space
    · subst hspace
      rw [h.known] at hs
      cases hs
      exact Decidable.byContradiction fun hne => hother (fun heq => hne heq.symm) hs'
    · by_cases hspace' : s' = space
      · subst hspace'
        rw [h.known] at hs'
        cases hs'
        exact (hother hspace hs).elim
      · rw [h.others s hspace] at hs
        rw [h.others s' hspace'] at hs'
        exact hi.apart s s' q hs hs'

theorem addProxy_provides {i : Interpreter} (hi : i.Rooted) {space : String} (hnil : i.known space = .nil) :
    ∃ p, (i.addProxy (bytes space)).1 = .table p ∧ i.Provides space p (i.addProxy (bytes space)).2 ∧
      ∀ r < i.heap.tables.size, r ≠ i.vault.proxies →
        (i.addProxy (bytes space)).2.heap.table r = i.heap.table r := by
  obtain ⟨-, hproxies⟩ := hi.below
  let h₁ := (i.heap.addTable (indexRecord i.vault.closures.size)).2
  let h₂ := (h₁.addTable { metatable := some i.heap.tables.size }).2
  let p := i.heap.tables.size + 1
  have hsize₁ : h₁.tables.size = i.heap.tables.size + 1 := Array.size_push ..
  have hsize₂ : h₂.tables.size = h₁.tables.size + 1 := Array.size_push ..
  have hheap : (i.addProxy (bytes space)).2.heap = h₂.rawSet i.vault.proxies (.ofText space) (.table p) := by
    rw [show p = h₁.tables.size from hsize₁.symm]
    rfl
  have hbefore {r : Nat} (hr : r < i.heap.tables.size) : h₂.table r = i.heap.table r :=
    (h₁.table_addTable_of_lt _ (by omega)).trans (i.heap.table_addTable_of_lt _ hr)
  have hlt : i.vault.proxies < h₂.tables.size := by omega
  refine ⟨p, ?_, ⟨rfl, ?_, ?_, ?_, Or.inr ⟨hnil, by omega⟩, fun s hs => ?_⟩, fun r hr hne => ?_⟩
  · exact (i.addProxy_tables hproxies (bytes space)).1
  · rw [hheap, Heap.size_rawSet]
    omega
  · rw [known, hheap]
    exact Heap.rawGet_rawSet_str hlt _ _
  · rw [hheap, Heap.size_rawSet]
    omega
  · have hkey : Value.ofText s ≠ .ofText space := fun h => hs (Value.ofText_inj h)
    rw [known, hheap]
    refine (Heap.rawGet_rawSet_str_of_ne hlt hkey _).trans ?_
    rw [Heap.rawGet, hbefore hproxies]
    rfl
  · rw [hheap, Heap.table_rawSet_of_ne _ (Ne.symm hne), hbefore hr]

theorem proxyOf_provides {i j : Interpreter} (hi : i.Proxied) {space : String} {proxy : Value}
    (h : i.proxyOf (bytes space) = some (proxy, j)) :
    ∃ p, proxy = .table p ∧ i.Provides space p j ∧
      ∀ r < i.heap.tables.size, r ≠ i.vault.proxies → j.heap.table r = i.heap.table r := by
  rcases proxyOf_cases h with ⟨hnil, hnew⟩ | ⟨hknown, hsome, rfl⟩
  · cases hnew
    exact addProxy_provides hi.rooted hnil
  · rcases hi.known space with hnil | ⟨p, hp, hlt⟩
    · exact absurd (hknown.symm.trans hnil) hsome
    · exact ⟨p, hknown.symm.trans hp, ⟨rfl, Nat.le_refl _, hp, hlt, Or.inl hp, fun _ _ => rfl⟩, fun _ _ _ => rfl⟩

theorem Rooted.apart {i : Interpreter} (hi : i.Rooted) : i.vault.globals ≠ i.vault.proxies := by
  obtain ⟨hglobals, hproxies⟩ : i.vault.globals = 0 ∧ i.vault.proxies = 1 := Prod.mk.inj hi
  omega

/-- An installation provides the proxy and makes it the value of the global variable. The tables that were there are
untouched, except for those of the globals and of the proxies. -/
theorem install_provides {i j : Interpreter} (hi : i.Proxied) {space : String} {shadowed : Bool}
    (h : i.install space = .ok (shadowed, j)) :
    ∃ p, i.Provides space p j ∧ j.global (.ofText space) = .table p ∧
      (∀ k, k ≠ .ofText space → j.global k = i.global k) ∧
      (shadowed = true ↔ i.global (.ofText space) ≠ .nil ∧ i.global (.ofText space) ≠ .table p) ∧
      ∀ r < i.heap.tables.size, r ≠ i.vault.globals → r ≠ i.vault.proxies → j.heap.table r = i.heap.table r := by
  unfold install at h
  split at h
  · next proxy l hproxy =>
    cases h
    obtain ⟨p, rfl, hl, htables⟩ := proxyOf_provides hi hproxy
    obtain ⟨hglobals, hproxies⟩ : l.vault.globals = i.vault.globals ∧ l.vault.proxies = i.vault.proxies :=
      Prod.mk.inj hl.roots
    have hlt : l.vault.globals < l.heap.tables.size := (hi.provided hl).rooted.below.1
    have happart := (hi.provided hl).rooted.apart
    -- making the proxy does not touch the globals, so that the value before is that which scripts left
    have hsame (k : Value) : l.heap.rawGet l.vault.globals k = i.global k := by
      rw [Heap.rawGet, hglobals, htables _ hi.rooted.below.1 hi.rooted.apart]
      rfl
    refine ⟨p, ⟨hl.roots, ?_, ?_, ?_, hl.found, fun s hs => ?_⟩, ?_, fun k hk => ?_, ?_, fun r hr hg hp => ?_⟩
    · rw [Heap.size_rawSet]
      exact hl.grown
    · rw [known, Heap.rawGet, Heap.table_rawSet_of_ne _ happart]
      exact hl.known
    · rw [Heap.size_rawSet]
      exact hl.below
    · rw [known, Heap.rawGet, Heap.table_rawSet_of_ne _ happart]
      exact hl.others s hs
    · exact Heap.rawGet_rawSet_str hlt _ _
    · rw [global, ← hsame]
      exact Heap.rawGet_rawSet_str_of_ne hlt hk _
    · rw [Bool.and_eq_true, Bool.not_eq_true', Bool.not_eq_true', ← Bool.not_eq_true, ← Bool.not_eq_true,
        Value.isNil_eq_true_iff, Value.rawEq_table_iff, hsame]
    · rw [Heap.table_rawSet_of_ne _ (by rw [hglobals]; exact Ne.symm hg), htables r hr hp]
  · cases h

theorem proxyOf_of_known {i : Interpreter} {space : String} {p : Nat} (h : i.known space = .table p) :
    i.proxyOf (bytes space) = some (.table p, i) := by
  have hproxy : i.heap.rawGet i.vault.proxies (.str (bytes space)) = .table p := h
  rw [proxyOf, hproxy]

structure Installed (i : Interpreter) (space : String) (shadowed : Bool) (j : Interpreter) : Prop where
  global : ∃ p, j.known space = .table p ∧ j.global (.ofText space) = .table p
  others : ∀ k, k ≠ .ofText space → j.global k = i.global k
  /-- The value before was replaced if it was neither nil nor the proxy already. -/
  shadowed : shadowed = true ↔ i.global (.ofText space) ≠ .nil ∧ i.global (.ofText space) ≠ j.known space
  /-- There is nothing to replace for a second installation. -/
  again : ∃ k, j.install space = .ok (false, k) ∧ k.global = j.global

/-- There is memory for the proxy of a namespace, or the namespace has it already. -/
def Affords (i : Interpreter) (space : String) : Prop :=
  i.known space ≠ .nil ∨ i.heap.admits i.limit proxySize = true

theorem Affords.install {i : Interpreter} {space : String} (h : i.Affords space) :
    ∃ shadowed j, i.install space = .ok (shadowed, j) := by
  cases hanswer : i.install space with
  | error error =>
    obtain ⟨hnil, hno, -⟩ := install_eq_error_iff.mp hanswer
    rcases h with hknown | hmemory
    · exact absurd hnil hknown
    · rw [hmemory] at hno
      cases hno
  | ok installed => exact ⟨_, _, rfl⟩

theorem installed {i j : Interpreter} (hi : i.Proxied) {space : String} {shadowed : Bool}
    (h : i.install space = .ok (shadowed, j)) : Installed i space shadowed j := by
  obtain ⟨p, hprovides, hglobal, hothers, hshadowed, -⟩ := install_provides hi h
  have hproxy := proxyOf_of_known hprovides.known
  have hj : j.Proxied := hi.provided hprovides
  obtain ⟨⟨again, k⟩, hagain⟩ : ∃ r, j.install space = .ok r := by
    rw [install, hproxy]
    exact ⟨_, rfl⟩
  obtain ⟨q, hprovides', hglobal', hothers', hshadowed', -⟩ := install_provides hj hagain
  -- the second installation finds the proxy of the first one
  have hq : Value.table q = .table p := by
    have hkept := hprovides'.keeps (s := space) (by rw [hprovides.known]; exact Value.noConfusion)
    rw [← hprovides'.known, hkept, hprovides.known]
  refine ⟨⟨p, hprovides.known, hglobal⟩, hothers, hprovides.known ▸ hshadowed, k, ?_, funext fun key => ?_⟩
  · cases hanswer : again with
    | false => rw [hagain, hanswer]
    | true => exact absurd (hglobal.trans hq.symm) (hshadowed'.mp hanswer).2
  · by_cases hkey : key = .ofText space
    · rw [hkey, hglobal', hglobal, hq]
    · exact hothers' key hkey

/-- What scripts may do to an interpreter between two installations: the proxies of the namespaces stay as they are, and
the store only grows. Of the globals nothing is said. -/
structure Spares (i j : Interpreter) : Prop where
  roots : j.vault.roots = i.vault.roots
  proxies : j.heap.table i.vault.proxies = i.heap.table i.vault.proxies
  grown : i.heap.tables.size ≤ j.heap.tables.size

theorem Spares.known {i j : Interpreter} (h : i.Spares j) : j.known = i.known := by
  funext s
  have hproxies : j.vault.proxies = i.vault.proxies := congrArg Prod.snd h.roots
  rw [Interpreter.known, hproxies, Heap.rawGet, h.proxies]
  rfl

theorem Proxied.spared {i j : Interpreter} (hi : i.Proxied) (h : i.Spares j) : j.Proxied where
  rooted := h.roots.trans hi.rooted
  known s := by
    rw [h.known]
    rcases hi.known s with hnil | ⟨p, hp, hlt⟩
    · exact Or.inl hnil
    · exact Or.inr ⟨p, hp, Nat.lt_of_lt_of_le hlt h.grown⟩
  apart := by
    rw [h.known]
    exact hi.apart

theorem Spares.write {i : Interpreter} (hi : i.Rooted) (k v : Value) :
    i.Spares { i with heap := i.heap.rawSet i.vault.globals k v } where
  roots := rfl
  proxies := Heap.table_rawSet_of_ne _ hi.apart k v
  grown := Nat.le_of_eq (Heap.size_rawSet ..).symm

theorem Spares.modify {i : Interpreter} (hi : i.Rooted) (f : Table → Table) :
    i.Spares { i with heap := i.heap.modifyTable i.vault.globals f } where
  roots := rfl
  proxies := by simp [Heap.table, Heap.modifyTable, Array.getElem?_modify, hi.apart]
  grown := by simp [Heap.modifyTable]

inductive Moves : Interpreter → Interpreter → Prop
  | install {i j : Interpreter} {space : String} {shadowed : Bool} (h : i.install space = .ok (shadowed, j)) : Moves i j
  | scripts {i j : Interpreter} (h : i.Spares j) : Moves i j

/-- One interpreter is another one after any installations, and after whatever scripts did between them. -/
def Later : Interpreter → Interpreter → Prop := Relation.ReflTransGen Moves

theorem Proxied.moved {i j : Interpreter} (hi : i.Proxied) (h : Moves i j) :
    j.Proxied ∧ ∀ s, i.known s ≠ .nil → j.known s = i.known s := by
  cases h with
  | install hinstall =>
    obtain ⟨p, hprovides, -⟩ := install_provides hi hinstall
    exact ⟨hi.provided hprovides, fun s hs => hprovides.keeps hs⟩
  | scripts hspares => exact ⟨hi.spared hspares, fun s _ => congrFun hspares.known s⟩

theorem Proxied.later {i j : Interpreter} (hi : i.Proxied) (h : Later i j) :
    j.Proxied ∧ ∀ s, i.known s ≠ .nil → j.known s = i.known s := by
  induction h with
  | refl => exact ⟨hi, fun _ _ => rfl⟩
  | tail _ hmove ih =>
    obtain ⟨hmid, hkept⟩ := ih
    obtain ⟨hnext, hmoved⟩ := hmid.moved hmove
    refine ⟨hnext, fun s hs => ?_⟩
    have hmidway := hkept s hs
    have hsome : _ ≠ Value.nil := hmidway ▸ hs
    exact (hmoved s hsome).trans hmidway

theorem known_fresh (platform : Platform) (s : String) : (fresh platform).known s = .nil := by
  have hempty : (Globals.fresh.table Heap.proxies).row.size = 0 ∧ (Globals.fresh.table Heap.proxies).nodes.size = 0 := by
    decide +kernel
  -- stated for any store, for the store of the library is too large to be compared with itself
  have hsame (h : Heap) : { h with used := 24000, seed := platform.firstSeed }.table Heap.proxies =
      h.table Heap.proxies := rfl
  have hproxies : (fresh platform).heap.table (fresh platform).vault.proxies = Globals.fresh.table Heap.proxies :=
    hsame Globals.fresh
  rw [known, Heap.rawGet, hproxies]
  exact Table.get_of_empty hempty.1 hempty.2 _

theorem proxied_fresh (platform : Platform) : (fresh platform).Proxied where
  rooted := rfl
  known s := Or.inl (known_fresh platform s)
  apart s _ p hs := by
    rw [known_fresh] at hs
    cases hs

end Interpreter

end Lua

theorem Session.log_emit (s : Session α σ) (severity : Severity) (message : Unit → String) :
    (s.emit severity message).log.toList = s.log.toList ++ s.bridge.logLevel.share [⟨severity, message ()⟩] := by
  unfold emit
  split
  · next hadmits => simp [LogLevel.share, hadmits]
  · next hadmits => simp [LogLevel.share, hadmits]

namespace Engine

open Lua.Interpreter (Later Moves Installed installed)

theorem later_create (options : EngineOptions) (world : σ) (platform : Lua.Platform) :
    Later (.fresh platform) (create options world platform : Engine α σ).interpreter := by
  have hlimit (i : Interpreter) : Moves i (i.setLimit options.memoryLimit) := .scripts ⟨rfl, rfl, Nat.le_refl _⟩
  simp only [create, emit]
  split
  · next hinstall => exact (Relation.ReflTransGen.single (.install hinstall)).tail (hlimit _)
  · exact .single (hlimit _)

/-- The scripts that an operation runs leave the table of the proxies alone, and the store only grows. -/
def Secluded (host : Host α σ) (e : Engine α σ) (op : Operation α) : Prop :=
  (op.start? e).isSome →
    (op.apply host e).interpreter.heap.table Heap.proxies = e.interpreter.heap.table Heap.proxies ∧
      e.interpreter.heap.tables.size ≤ (op.apply host e).interpreter.heap.tables.size

/-- Scripts leave the table of the proxies alone in all runs of a series of operations. -/
def AllSecluded (host : Host α σ) : List (Operation α) → Engine α σ → Prop
  | [], _ => True
  | op :: ops, e => e.Secluded host op ∧ AllSecluded host ops (op.apply host e)

theorem later_register (e : Engine α σ) (key : Key) (handle : α) :
    Later e.interpreter (e.register key handle).2.interpreter := by
  cases hinstall : e.interpreter.install key.space with
  | error cause =>
    simp only [register, emit, hinstall]
    exact .refl
  | ok installed =>
    obtain ⟨shadowed, j⟩ := installed
    simp only [register, emit, hinstall]
    cases shadowed <;> exact .single (.install hinstall)

theorem later_apply (host : Host α σ) {e : Engine α σ} (hrooted : e.interpreter.Rooted) (op : Operation α)
    (h : e.Secluded host op) : Later e.interpreter (op.apply host e).interpreter := by
  have hproxies : e.interpreter.vault.proxies = Heap.proxies := congrArg Prod.snd hrooted
  have hruns (hstart : (op.start? e).isSome) : Later e.interpreter (op.apply host e).interpreter := by
    obtain ⟨htable, hgrown⟩ := h hstart
    exact .single (.scripts ⟨roots_apply host e op, by rw [hproxies]; exact htable, hgrown⟩)
  have hloads (script : String) : Later e.interpreter (e.load script).2.interpreter := by
    have hheap := congrFun (Heap.table_of_tables (e.tables_load script)) e.interpreter.vault.proxies
    have hsize := congrArg Array.size (e.tables_load script)
    exact .single (.scripts ⟨congrArg Vault.roots (e.vault_load script), hheap, Nat.le_of_eq hsize.symm⟩)
  cases op with
  | load script => exact hloads script
  | execute =>
    cases hcompiled : e.compiled with
    | none =>
      rw [Operation.apply, execute_without_script host hcompiled]
      exact .refl
    | some c => exact hruns (by simp [Operation.start?, start?_of_compiled hcompiled])
  | executeScript script =>
    cases hload : (e.load script).1 with
    | error error =>
      rw [Operation.apply, executeScript_of_load_error host hload]
      exact hloads script
    | ok =>
      rcases load_cases e script with ⟨error, herror, -⟩ | ⟨c, -, -, hkept⟩
      · rw [hload] at herror
        cases herror
      · have hcompiled : (e.load script).2.compiled = some c := congrArg (fun kept => kept.2.1) hkept
        refine hruns ?_
        rw [Operation.start?_executeScript_of_load_ok hload, start?_of_compiled hcompiled]
        rfl
  | invoke key args =>
    rw [Operation.apply, interpreter_invoke]
    exact .refl
  | register key handle => exact e.later_register key handle
  | setLogLevel word =>
    rw [Operation.apply, interpreter_setLogLevel]
    exact .refl

theorem later_after (host : Host α σ) (ops : List (Operation α)) {e : Engine α σ} (hrooted : e.interpreter.Rooted)
    (h : AllSecluded host ops e) : Later e.interpreter (after host ops e).interpreter := by
  induction ops generalizing e with
  | nil => exact .refl
  | cons op ops ih =>
    obtain ⟨hop, hops⟩ := h
    have hroots : (op.apply host e).interpreter.Rooted := (roots_apply host e op).trans hrooted
    exact (later_apply host hrooted op hop).trans (ih hroots hops)

def replacement (space : String) (shadowed : Bool) : List LogEvent :=
  if shadowed then [⟨.warn, s!"namespace \"{space}\" replaces an existing global"⟩] else []

theorem log_register {e : Engine α σ} (key : Key) (handle : α) {shadowed : Bool} {j : Interpreter}
    (h : e.interpreter.install key.space = .ok (shadowed, j)) :
    (e.register key handle).1 = .ok () ∧ (e.register key handle).2.interpreter = j ∧
      ∃ registered, (e.register key handle).2.session.log.toList =
        e.session.log.toList ++ e.logLevel.share (⟨.debug, registered⟩ :: replacement key.space shadowed) := by
  let replaced := (e.session.bridge.registry.put key handle).1
  let bridge := { e.session.bridge with registry := (e.session.bridge.registry.put key handle).2 }
  let s := ({ e.session with bridge } : Session α σ).emit .debug fun _ =>
    s!"registered function: {key.text} (replaced={replaced})"
  have hbridge : s.bridge = bridge := Session.emit_bridge ..
  have hlevel : s.bridge.logLevel = e.logLevel := by rw [hbridge]; rfl
  have hlog : s.log.toList = e.session.log.toList ++ e.logLevel.share [⟨.debug, _⟩] := Session.log_emit ..
  simp only [register, emit, h]
  cases shadowed with
  | false => exact ⟨trivial, rfl, _, hlog⟩
  | true =>
    have hwarned := s.log_emit .warn fun _ => s!"namespace \"{key.space}\" replaces an existing global"
    rw [hlevel, hlog, List.append_assoc, LogLevel.share, LogLevel.share, ← List.filter_append] at hwarned
    exact ⟨trivial, rfl, _, hwarned⟩

/-- In the whole life of an interpreter a namespace has one proxy, which no other namespace has. An installation makes
it the global variable of that name, be it a variable of the library or the table of the globals itself, and leaves the
other variables as scripts left them. It reports a value that was neither nil nor the proxy, and nothing when repeated. A
registration warns of just that. Such a life leads the interpreter of an engine, whatever operations there are, as long as
the scripts leave the table of the proxies alone. -/
theorem install_later {platform : Lua.Platform} {i : Interpreter} (hi : Later (.fresh platform) i) :
    (∀ j s, Later i j → i.known s ≠ .nil → j.known s = i.known s) ∧
      (∀ s s', s ≠ s' → i.known s ≠ .nil → i.known s ≠ i.known s') ∧
      (∀ s, i.Affords s → ∃ shadowed j, i.install s = .ok (shadowed, j) ∧ Installed i s shadowed j) ∧
      (∀ (e : Engine α σ) (key : Key) (handle : α), e.interpreter = i → i.Affords key.space →
        ∃ shadowed registered, Installed i key.space shadowed (e.register key handle).2.interpreter ∧
          (e.register key handle).1 = .ok () ∧ (e.register key handle).2.session.log.toList =
            e.session.log.toList ++ e.logLevel.share (⟨.debug, registered⟩ :: replacement key.space shadowed)) ∧
      ∀ (host : Host α σ) (options : EngineOptions) (world : σ) (ops : List (Operation α)),
        AllSecluded host ops (create options world platform) →
        Later (.fresh platform) (after host ops (create options world platform)).interpreter := by
  have hproxied : i.Proxied := ((Interpreter.proxied_fresh platform).later hi).1
  refine ⟨fun j s hj => (hproxied.later hj).2 s, fun s s' hne hs heq => ?_, fun s hmemory => ?_, ?_,
    fun host options world ops h => ?_⟩
  · rcases hproxied.known s with hnil | ⟨p, hp, -⟩
    · exact hs hnil
    · exact hne (hproxied.apart s s' p hp (heq ▸ hp))
  · obtain ⟨shadowed, j, hj⟩ := hmemory.install
    exact ⟨shadowed, j, hj, installed hproxied hj⟩
  · rintro e key handle rfl hmemory
    obtain ⟨shadowed, j, hj⟩ := hmemory.install
    obtain ⟨hok, rfl, registered, hlog⟩ := log_register key handle hj
    exact ⟨shadowed, registered, installed hproxied hj, hok, hlog⟩
  · exact (later_create options world platform).trans (later_after host ops (rooted_create options world platform) h)

-- In the run below a namespace is installed; then a script makes its global variable false and gives the table of the
-- globals a metatable.

def installedOnce : Interpreter :=
  match (Interpreter.fresh {}).install "app" with
  | .ok (_, i) => i
  | .error _ => .fresh {}

def written : Interpreter :=
  { installedOnce with heap := installedOnce.heap.rawSet installedOnce.vault.globals (.ofText "app") (.bool false) }

def overwritten : Interpreter :=
  { written with heap := written.heap.modifyTable written.vault.globals fun t => { t with metatable := some 3 } }

/-- The namespace keeps its proxy, and false counts as a value that is replaced. -/
theorem install_later_overwritten :
    ∃ j, overwritten.install "app" = .ok (true, j) ∧ j.global (.ofText "app") = installedOnce.known "app" ∧
      ∃ p, installedOnce.known "app" = .table p := by
  have hmemory : (Interpreter.fresh {}).Affords "app" := Or.inr (by decide +kernel)
  obtain ⟨shadowed, i, hi⟩ := hmemory.install
  have honce : installedOnce = i := by
    unfold installedOnce
    split
    · next hi' => exact (Prod.mk.inj (Except.ok.inj (hi'.symm.trans hi))).2
    · next hi' => cases hi'.symm.trans hi
  have hfirst : Later (.fresh {}) installedOnce := honce ▸ .single (.install hi)
  have hproxied : installedOnce.Proxied := ((Interpreter.proxied_fresh {}).later hfirst).1
  have hwrite : installedOnce.Spares written := .write hproxied.rooted _ _
  have hmodify : written.Spares overwritten := .modify (hproxied.spared hwrite).rooted _
  have hscript : Later installedOnce overwritten :=
    (Relation.ReflTransGen.single (.scripts hwrite)).tail (.scripts hmodify)
  obtain ⟨hkeeps, -⟩ := install_later (α := Empty) (σ := Unit) hfirst
  obtain ⟨hkeeps', -, hinstall, -⟩ := install_later (α := Empty) (σ := Unit) (hfirst.trans hscript)
  obtain ⟨p, hp, -⟩ := (installed (Interpreter.proxied_fresh {}) hi).global
  rw [← honce] at hp
  have hsome : installedOnce.known "app" ≠ .nil := by
    rw [hp]
    exact Value.noConfusion
  have hkept := hkeeps overwritten "app" hscript hsome
  have hsome' : overwritten.known "app" ≠ .nil := by
    rw [hkept]
    exact hsome
  obtain ⟨shadowed', j, hj, hinstalled⟩ := hinstall "app" (Or.inl hsome')
  have hlater : Later overwritten j := .single (.install hj)
  have hproxy : j.known "app" = installedOnce.known "app" := (hkeeps' j "app" hlater hsome').trans hkept
  obtain ⟨q, hq, hglobal⟩ := hinstalled.global
  have hfalse : overwritten.global (.ofText "app") = .bool false :=
    Value.eq_false (by decide +kernel) (by decide +kernel)
  have hshadowed : shadowed' = true := by
    rw [hinstalled.shadowed, hfalse, hq]
    exact ⟨Value.noConfusion, Value.noConfusion⟩
  exact ⟨j, hshadowed ▸ hj, hglobal.trans (hq.symm.trans hproxy), p, hp⟩

end Engine

end ScriptHost
