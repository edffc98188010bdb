import ScriptHost.Engine
import ScriptHost.Proofs.Machine.Renaming

/-! # What a run depends on

A run depends on the machine and on the bridge and the state of the host, but not on the log that was written before, and
not on the numbers of the environments. -/

namespace ScriptHost

open Lua (Value GuestError Machine Keeps)

variable {α σ : Type}

/-- Sessions that differ in the log only. -/
structure Session.Alike (s t : Session α σ) : Prop where
  bridge : s.bridge = t.bridge
  host : s.host = t.host

namespace Session.Alike

variable {s t : Session α σ}

theorem refl (s : Session α σ) : Alike s s := ⟨rfl, rfl⟩

theorem trans {u : Session α σ} (h : Alike s t) (h' : Alike t u) : Alike s u :=
  ⟨h.bridge.trans h'.bridge, h.host.trans h'.host⟩

theorem symm (h : Alike s t) : Alike t s := ⟨h.bridge.symm, h.host.symm⟩

theorem emit_self (s : Session α σ) (severity : Severity) (message : Unit → String) :
    Alike (s.emit severity message) s := by
  unfold Session.emit
  split <;> exact ⟨rfl, rfl⟩

theorem emit (h : Alike s t) (severity : Severity) (message message' : Unit → String) :
    Alike (s.emit severity message) (t.emit severity message') :=
  (emit_self s severity message).trans (h.trans (emit_self t severity message').symm)

theorem remember (h : Alike s t) (message : String) : Alike (s.remember message) (t.remember message) :=
  ⟨by simp only [Session.remember, h.bridge], h.host⟩

theorem failCall (h : Alike s t) (f : CallFailure) : Alike (s.failCall f) (t.failCall f) :=
  (h.emit ..).remember _

end Session.Alike

open Session (Alike)

namespace Dispatch

theorem reportArguments_alike {s t : Session α σ} (h : Alike s t) (position : Nat) (args : List Argument) :
    Alike (reportArguments s position args) (reportArguments t position args) := by
  induction args generalizing s t position with
  | nil => exact h
  | cons a as ih => exact ih (h.emit ..) (position + 1)

theorem invoke_alike (host : Host α σ) {s t : Session α σ} (h : Alike s t) (key : Key) (args : List Argument) :
    (invoke host s key args).1 = (invoke host t key args).1 ∧
      Alike (invoke host s key args).2 (invoke host t key args).2 := by
  have hafter (state : σ) : Alike ⟨t.bridge, state, s.log⟩ ⟨t.bridge, state, t.log⟩ := ⟨rfl, rfl⟩
  unfold invoke
  rw [h.bridge, h.host]
  cases t.bridge.registry.resolve key with
  | none => exact ⟨rfl, h⟩
  | some handle =>
    obtain ⟨⟨answer, state⟩, hcall⟩ : ∃ r, host.call handle args t.host = r := ⟨_, rfl⟩
    simp only [hcall]
    rcases answer with e | n
    · exact ⟨rfl, hafter state⟩
    · refine ⟨rfl, ?_⟩
      simp only
      exact (hafter state).emit ..

theorem callKey_alike (host : Host α σ) {s t : Session α σ} (h : Alike s t) (key : Key) (trailing : List Value) :
    (callKey host s key trailing).1 = (callKey host t key trailing).1 ∧
      Alike (callKey host s key trailing).2 (callKey host t key trailing).2 := by
  have htrace := h.emit .trace (fun _ => s!"call frame: function={key.text}\n{Marshal.dump trailing}")
    (fun _ => s!"call frame: function={key.text}\n{Marshal.dump trailing}")
  unfold callKey
  cases Marshal.toArguments trailing with
  | error e => exact ⟨rfl, htrace⟩
  | ok args => exact invoke_alike host (reportArguments_alike htrace 1 args) key args

/-- What a call answers and does to the host does not depend on the log. -/
theorem run_alike (host : Host α σ) {s t : Session α σ} (h : Alike s t) (frame : List Value) :
    (run host s frame).1 = (run host t frame).1 ∧ Alike (run host s frame).2 (run host t frame).2 := by
  unfold run
  cases target frame with
  | error e => exact ⟨rfl, h⟩
  | ok key =>
    obtain ⟨hanswer, halike⟩ := callKey_alike host h key (frame.drop 2)
    simp only
    revert hanswer halike
    rcases callKey host s key (frame.drop 2) with ⟨answer, s'⟩
    rcases callKey host t key (frame.drop 2) with ⟨answer', t'⟩
    rintro rfl halike
    rcases answer with f | n
    · exact ⟨rfl, halike.failCall f⟩
    · exact ⟨rfl, halike⟩

end Dispatch

namespace Engine

/-- What steps keep and answers of the host keep holds of the machine that a run comes to. -/
theorem drive_invariant {P : Machine → Prop} (hstep : ∀ {m}, P m → P m.step)
    (hanswer : ∀ {m answer c k}, P m → P (m.hostAnswer answer c k)) (host : Host α σ) (fuel : Nat) {s : Session α σ}
    {m : Machine} (h : P m) : P (drive host fuel s m).2 := by
  induction fuel generalizing s m with
  | zero => exact h
  | succ fuel ih =>
    unfold drive
    cases m.control with
    | done outcome => exact h
    | host frame c k => exact ih (hanswer h)
    | _ => exact ih (hstep h)

theorem drive_kept (host : Host α σ) (fuel : Nat) {s : Session α σ} {m : Machine} {j : Nat}
    (h : j ∈ m.vault.assigned) : j ∈ (drive host fuel s m).2.vault.assigned := by
  refine drive_invariant (P := fun m => j ∈ m.vault.assigned) (fun {m} h => m.step_grown.kept j h) (fun h => ?_) host
    fuel h
  rwa [Machine.hostAnswer_assigned]

theorem drive_closures (host : Host α σ) (fuel : Nat) {s : Session α σ} {m : Machine} {r : Nat} {c : Lua.Closure}
    (hc : c.Fixed) (h : m.vault.closures[r]? = some c) : (drive host fuel s m).2.vault.closures[r]? = some c := by
  refine drive_invariant (P := fun m => m.vault.closures[r]? = some c) (fun {m} h => m.step_grown.closures r c hc h)
    (fun h => ?_) host fuel h
  rwa [Machine.hostAnswer_closures]

/-- A machine with other numbers for its environments runs as the machine does, in any session that differs in the log
only, provided that the environments assigned by the end keep their numbers. -/
theorem drive_rename (host : Host α σ) {ρ : Nat → Nat} (fuel : Nat) {s t : Session α σ} (hst : Alike s t) {m : Machine}
    (h : Keeps ρ (drive host fuel t m).2.vault.assigned) :
    Alike (drive host fuel s (m.rename ρ)).1 (drive host fuel t m).1 ∧
      (drive host fuel s (m.rename ρ)).2 = (drive host fuel t m).2.rename ρ := by
  induction fuel generalizing s t m with
  | zero => exact ⟨hst, rfl⟩
  | succ fuel ih =>
    have hnext (hstep : Keeps ρ (drive host fuel t m.step).2.vault.assigned) :
        Alike (drive host fuel s (m.rename ρ).step).1 (drive host fuel t m.step).1 ∧
          (drive host fuel s (m.rename ρ).step).2 = (drive host fuel t m.step).2.rename ρ := by
      have hm : Keeps ρ m.step.vault.assigned := fun j hj => hstep j (drive_kept host fuel hj)
      rw [Machine.step_rename hm]
      exact ih hst hstep
    unfold drive at h ⊢
    rw [Machine.control_rename]
    cases hc : m.control with
    | done outcome => exact ⟨hst, rfl⟩
    | host frame c k =>
      obtain ⟨hanswer, halike⟩ := Dispatch.run_alike host hst frame
      simp only [hc] at h
      simp only [hanswer, Machine.hostAnswer_rename]
      exact ih halike h
    | task t => exact hnext (by simpa only [hc] using h)
    | native c r => exact hnext (by simpa only [hc] using h)
    | unwind e => exact hnext (by simpa only [hc] using h)

end Engine

end ScriptHost
