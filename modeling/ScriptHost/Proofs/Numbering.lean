import ScriptHost.Proofs.Drive
import ScriptHost.Proofs.Lifecycle

/-! # Environments are numbered by the scripts that were loaded

Whatever an engine does, the environments that its functions captured and those that were assigned have numbers below the
number of scripts loaded so far. A machine has no other numbers if every renaming of the other ones leaves it as it is, so
that this is kept by whatever commutes with renaming. -/

namespace ScriptHost

open Lua (Value GuestError Machine Interpreter Chunk Captured Closure Keeps)

variable {α σ : Type}

/-- A renaming that keeps the numbers below `n` and takes no other number there. -/
def KeepsBelow (n : Nat) (ρ : Nat → Nat) : Prop := ∀ j < n, ∀ k, ρ k = j ↔ k = j

/-- All numbers from `n` on become one. -/
def pool (n k : Nat) : Nat := if k < n then k else n

/-- All numbers from `n` on become other ones. -/
def shift (n k : Nat) : Nat := if k < n then k else k + 1

namespace KeepsBelow

variable {n : Nat} {ρ : Nat → Nat}

theorem mono (h : KeepsBelow n ρ) {l : Nat} (hl : l ≤ n) : KeepsBelow l ρ := fun j hj => h j (by omega)

theorem apply (h : KeepsBelow n ρ) {j : Nat} (hj : j < n) : ρ j = j := (h j hj j).mpr rfl

theorem keeps (h : KeepsBelow n ρ) {assigned : Std.TreeMap Nat Value} (ha : ∀ j ∈ assigned, j < n) :
    Keeps ρ assigned := fun j hj => h j (ha j hj)

theorem pool (n : Nat) : KeepsBelow n (pool n) := by
  intro j hj k
  unfold ScriptHost.pool
  split <;> omega

theorem shift (n : Nat) : KeepsBelow n (shift n) := by
  intro j hj k
  unfold ScriptHost.shift
  split <;> omega

end KeepsBelow

namespace Lua

/-- Only environments numbered below `n` were captured or assigned. -/
structure Machine.Numbered (n : Nat) (m : Machine) : Prop where
  fixed : ∀ ρ, KeepsBelow n ρ → m.rename ρ = m
  assigned : ∀ j ∈ m.vault.assigned, j < n

namespace Machine.Numbered

variable {n : Nat} {m : Machine}

theorem topCaptured_lt (h : m.Numbered n) {i j : Nat} (hj : m.topCaptured[i]! = .environment j) : j < n := by
  -- a greater number would not stay the same if all of these were shifted
  have hfixed := congrArg topCaptured (h.fixed _ (KeepsBelow.shift n))
  have hcaptured : m.topCaptured.map (·.rename (shift n)) = m.topCaptured := by
    rw [← topCaptured_rename, hfixed]
  have hrename : (m.topCaptured[i]!).rename (shift n) = m.topCaptured[i]! := by
    rw [← Captured.getElem!_rename, hcaptured]
  rw [hj] at hrename
  have hshift : shift n j = j := Captured.environment.inj hrename
  unfold shift at hshift
  split at hshift <;> omega

theorem step (h : m.Numbered n) : m.step.Numbered n := by
  have hassigned : ∀ j ∈ m.step.vault.assigned, j < n := by
    intro j hj
    -- what is assigned in the step was captured before
    rcases m.step_grown.new j hj with hj | ⟨i, hi⟩
    · exact h.assigned j hj
    · exact h.topCaptured_lt hi
  refine ⟨fun ρ hρ => ?_, hassigned⟩
  rw [← step_rename (hρ.keeps hassigned), h.fixed ρ hρ]

theorem hostAnswer (h : m.Numbered n) (answer : Except GuestError Value) (c : Caller) (k : Waiting) :
    (m.hostAnswer answer c k).Numbered n := by
  refine ⟨fun ρ hρ => ?_, ?_⟩
  · rw [← hostAnswer_rename, h.fixed ρ hρ]
  · rw [hostAnswer_assigned]
    exact h.assigned

theorem drive (host : Host α σ) (fuel : Nat) {s : Session α σ} (h : m.Numbered n) :
    (Engine.drive host fuel s m).2.Numbered n :=
  Engine.drive_invariant (P := (·.Numbered n)) step (fun h => h.hostAnswer ..) host fuel h

end Machine.Numbered

namespace Interpreter

def rename (ρ : Nat → Nat) (i : Interpreter) : Interpreter :=
  { i with vault := i.vault.rename ρ, threads := i.threads.map (·.rename ρ) }

theorem start_rename (ρ : Nat → Nat) (i : Interpreter) (c : Chunk) :
    (i.rename ρ).start { c with environment := ρ c.environment } = (i.start c).rename ρ := by
  have hcaptured : #[.environment (ρ c.environment)] = #[Captured.environment c.environment].map (·.rename ρ) := by
    simp [Captured.rename]
  simp only [start, hcaptured]
  exact i.ready.enterScript_rename c.proto _ [] 2

theorem start_assigned (i : Interpreter) (c : Chunk) : (i.start c).vault.assigned = i.vault.assigned := by
  rw [start, Machine.enterScript_vault]
  rfl

structure Numbered (n : Nat) (i : Interpreter) : Prop where
  vault : ∀ ρ, KeepsBelow n ρ → i.vault.rename ρ = i.vault
  threads : ∀ ρ, KeepsBelow n ρ → i.threads.map (·.rename ρ) = i.threads
  assigned : ∀ j ∈ i.vault.assigned, j < n

namespace Numbered

variable {n : Nat} {i : Interpreter}

theorem fixed (h : i.Numbered n) {ρ : Nat → Nat} (hρ : KeepsBelow n ρ) : i.rename ρ = i := by
  simp only [rename, h.vault ρ hρ, h.threads ρ hρ]

theorem mono (h : i.Numbered n) {l : Nat} (hl : n ≤ l) : i.Numbered l where
  vault ρ hρ := h.vault ρ (hρ.mono hl)
  threads ρ hρ := h.threads ρ (hρ.mono hl)
  assigned j hj := Nat.lt_of_lt_of_le (h.assigned j hj) hl

theorem start (h : i.Numbered n) {c : Chunk} (hc : c.environment < n) : (i.start c).Numbered n := by
  refine ⟨fun ρ hρ => ?_, ?_⟩
  · rw [← start_rename, hρ.apply hc, h.fixed hρ]
  · rw [start_assigned]
    exact h.assigned

theorem takeBack {m : Machine} (h : m.Numbered n) (i : Interpreter) : (i.takeBack m).Numbered n where
  vault ρ hρ := congrArg Machine.vault (h.fixed ρ hρ)
  threads ρ hρ := congrArg Machine.threads (h.fixed ρ hρ)
  assigned := h.assigned

theorem setLimit (h : i.Numbered n) (limit : Option Nat) : (i.setLimit limit).Numbered n :=
  ⟨h.vault, h.threads, h.assigned⟩

theorem fresh (platform : Platform) : (Interpreter.fresh platform).Numbered 0 where
  vault ρ _ := by simp [Interpreter.fresh, Vault.rename]
  threads ρ _ := by simp [Interpreter.fresh, Thread.rename]
  assigned j hj := absurd hj Std.TreeMap.not_mem_emptyc

theorem addProxy (h : i.Numbered n) (space : Bytes) : (i.addProxy space).2.Numbered n where
  vault ρ hρ := by
    have hadd := i.vault.addClosure_rename (ρ := ρ) (.bound (.namespaceField space))
    rw [h.vault ρ hρ] at hadd
    exact (congrArg Prod.snd hadd).symm
  threads := h.threads
  assigned := h.assigned

theorem proxyOf (h : i.Numbered n) {space : Bytes} {proxy : Value} {j : Interpreter}
    (hj : i.proxyOf space = some (proxy, j)) : j.Numbered n ∧ j.loaded = i.loaded := by
  rcases proxyOf_cases hj with ⟨-, hnew⟩ | ⟨-, -, rfl⟩
  · cases hnew
    exact ⟨h.addProxy space, rfl⟩
  · exact ⟨h, rfl⟩

theorem install (h : i.Numbered n) {space : String} {shadowed : Bool} {j : Interpreter}
    (hj : i.install space = .ok (shadowed, j)) : j.Numbered n ∧ j.loaded = i.loaded := by
  obtain ⟨proxy, k, hk, rfl⟩ := install_cases hj
  obtain ⟨hnumbered, hloaded⟩ := h.proxyOf hk
  exact ⟨⟨hnumbered.vault, hnumbered.threads, hnumbered.assigned⟩, hloaded⟩

end Numbered

end Interpreter

end Lua

namespace Engine

/-- What a load does: the script is compiled, and the chunk before it is given up. -/
theorem load_of_interpreter {e : Engine α σ} {script : String} {c : Chunk} {i : Interpreter}
    (h : e.interpreter.load script = .ok (c, i)) :
    ∃ message, e.load script = (.ok (), {
      session := e.session.emit .trace message
      interpreter := e.compiled.elim i i.discard
      history := e.history.push script
      compiled := some c
      state := .loaded }) := by
  have hemit (message : Unit → String) : (e.emit .trace message).interpreter.load script = .ok (c, i) := h
  refine ⟨fun _ => s!"load script:\n'''\n{script}\n'''", ?_⟩
  simp only [load, hemit]
  rfl

theorem load_of_interpreter_error {e : Engine α σ} {script : String} {error : GuestError}
    (h : e.interpreter.load script = .error error) : (e.load script).1 = .error error.toExecutionError ∧
      (e.load script).2.interpreter = e.interpreter ∧ (e.load script).2.compiled = e.compiled := by
  have hemit (message : Unit → String) : (e.emit .trace message).interpreter.load script = .error error := h
  simp only [load, hemit]
  exact ⟨trivial, rfl, rfl⟩

/-- Only the environments of scripts that were loaded were captured or assigned, that of the chunk among them. -/
structure Numbered (e : Engine α σ) : Prop where
  interpreter : e.interpreter.Numbered e.interpreter.loaded
  chunk : ∀ c, e.compiled = some c → c.environment < e.interpreter.loaded

namespace Numbered

variable {e : Engine α σ}

theorem of_eq (h : e.Numbered) {e' : Engine α σ} (hi : e'.interpreter = e.interpreter) (hc : e'.compiled = e.compiled) :
    e'.Numbered := ⟨hi ▸ h.interpreter, by rw [hi, hc]; exact h.chunk⟩

theorem unscripted (session : Session α σ) {i : Interpreter} (h : i.Numbered 0) :
    Numbered ({ session, interpreter := i } : Engine α σ) where
  interpreter := h.mono (Nat.zero_le _)
  chunk _ hc := nomatch hc

theorem create (options : EngineOptions) (world : σ) (platform : Lua.Platform) :
    (create options world platform : Engine α σ).Numbered := by
  unfold Engine.create
  cases hinstall : (Interpreter.fresh platform).install defaultNamespace with
  | ok installed =>
    obtain ⟨hnumbered, -⟩ := (Interpreter.Numbered.fresh platform).install (j := installed.2) hinstall
    exact of_eq (unscripted _ (hnumbered.setLimit options.memoryLimit)) rfl rfl
  | error _ => exact of_eq (unscripted _ ((Interpreter.Numbered.fresh platform).setLimit options.memoryLimit)) rfl rfl

theorem load (h : e.Numbered) (script : String) : (e.load script).2.Numbered := by
  cases hload : e.interpreter.load script with
  | error error =>
    obtain ⟨-, hinterpreter, hcompiled⟩ := load_of_interpreter_error hload
    exact h.of_eq hinterpreter hcompiled
  | ok loaded =>
    obtain ⟨c, i⟩ := loaded
    obtain ⟨message, hresult⟩ := load_of_interpreter hload
    obtain ⟨-, henvironment, -, rfl⟩ := Interpreter.load_eq_ok hload
    have hnext : e.interpreter.Numbered (e.interpreter.loaded + 1) := h.interpreter.mono (by omega)
    have hchunk : c.environment < e.interpreter.loaded + 1 := by omega
    rw [hresult]
    cases e.compiled with
    | none =>
      refine ⟨⟨hnext.vault, hnext.threads, hnext.assigned⟩, ?_⟩
      rintro _ ⟨⟩
      exact hchunk
    | some earlier =>
      refine ⟨⟨hnext.vault, hnext.threads, hnext.assigned⟩, ?_⟩
      rintro _ ⟨⟩
      exact hchunk

theorem conclude (hchunk : ∀ c, e.compiled = some c → c.environment < e.interpreter.loaded) (session : Session α σ)
    {m : Machine} (hm : m.Numbered e.interpreter.loaded) : (e.conclude session m).2.Numbered := by
  have hback : (e.interpreter.takeBack m).Numbered e.interpreter.loaded := .takeBack hm _
  unfold Engine.conclude
  simp only
  split <;> exact ⟨hback, hchunk⟩

theorem run (host : Host α σ) (h : e.Numbered) {c : Chunk} (hc : c.environment < e.interpreter.loaded) :
    (e.run host c).2.Numbered :=
  -- the engine that waits for the end has lent its interpreter, but still counts its scripts
  conclude (e := { e with interpreter := e.interpreter.lent }) h.chunk _
    ((h.interpreter.start hc).drive host stepLimit (s := e.session))

theorem execute (host : Host α σ) (h : e.Numbered) : (e.execute host).2.Numbered := by
  cases hcompiled : e.compiled with
  | none =>
    rw [execute_without_script host hcompiled]
    exact h.of_eq rfl rfl
  | some c =>
    have hannounced : e.announce.Numbered := h.of_eq rfl rfl
    rw [execute_of_compiled host hcompiled]
    exact hannounced.run host (h.chunk c hcompiled)

theorem executeScript (host : Host α σ) (h : e.Numbered) (script : String) :
    (e.executeScript host script).2.Numbered := by
  cases hload : (e.load script).1 with
  | error error =>
    rw [executeScript_of_load_error host hload]
    exact h.load script
  | ok =>
    rw [executeScript_of_load_ok host hload]
    exact (h.load script).execute host

theorem invoke (host : Host α σ) (h : e.Numbered) (key : Key) (args : List Argument) :
    (e.invoke host key args).2.Numbered := by
  unfold Engine.invoke
  simp only
  split
  · exact h.of_eq rfl rfl
  · split
    · exact h.of_eq rfl rfl
    · split <;> exact h.of_eq rfl rfl

theorem register (h : e.Numbered) (key : Key) (handle : α) : (e.register key handle).2.Numbered := by
  unfold Engine.register
  simp only
  split
  · exact h.of_eq rfl rfl
  · next shadowed i hi =>
    obtain ⟨hnumbered, hloaded⟩ := h.interpreter.install hi
    have hafter : i.Numbered i.loaded := hloaded ▸ hnumbered
    have hchunk : ∀ c, e.compiled = some c → c.environment < i.loaded := hloaded ▸ h.chunk
    split <;> exact ⟨hafter, hchunk⟩

theorem setLogLevel (h : e.Numbered) (word : String) : (e.setLogLevel word).Numbered := by
  unfold Engine.setLogLevel
  split <;> exact h.of_eq rfl rfl

theorem apply (host : Host α σ) (h : e.Numbered) (op : Operation α) : (op.apply host e).Numbered := by
  cases op with
  | load script => exact h.load script
  | execute => exact h.execute host
  | executeScript script => exact h.executeScript host script
  | invoke key args => exact h.invoke host key args
  | register key handle => exact h.register key handle
  | setLogLevel word => exact h.setLogLevel word

/-- Every engine that operations lead to has numbered its environments by its scripts. -/
theorem after (host : Host α σ) (ops : List (Operation α)) (h : e.Numbered) : (Engine.after host ops e).Numbered := by
  induction ops generalizing e with
  | nil => exact h
  | cons op ops ih => exact ih (h.apply host op)

end Numbered

end Engine

end ScriptHost
