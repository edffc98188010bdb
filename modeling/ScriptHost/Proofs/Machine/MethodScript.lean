import ScriptHost.Proofs.Machine.ProxyFunctions
import ScriptHost.Proofs.Proxy

/-! # Scripts that call one method

The run of a script whose only statement calls a method of a global variable, followed from its start to its end: if the
variable has a proxy that answers for the method, the host is asked once, and whatever it answers, the run ends then. -/

namespace ScriptHost.Lua

/-- A function whose only statement calls a method of a global variable on constants. -/
structure CallsMethod (p : Proto) (space name : Bytes) (vs : List Value) : Prop where
  body : ∃ line globalLine callLine, p.body = [.call (.method line
    (.index globalLine (.captured 0 environmentName) (.const (.str space))) name callLine (vs.map .const))]
  slots : p.slots = 2 + vs.length
  fits : p.slots < Parser.maxSlots

/-- The bytes that the run of such a function takes at most, by the number of the constants: for the stack, for the
function that the proxy gives, and for an error of the host. -/
def callMemory (count : Nat) : Nat := slotSize * (2 * (30 + 3 * count)) + (Vault.closureSize + Vault.errorSize)

theorem reads_constants (s : Scope) (a : Activation) (vs : List Value) :
    List.Forall₂ (Expr.Reads s a) (vs.map .const) vs := by
  induction vs with
  | nil => exact .nil
  | cons v vs ih => exact .cons ⟨rfl, rfl⟩ ih

namespace Interpreter

variable {i : Interpreter} {c : Chunk} {space name : Bytes} {vs : List Value} {g p : Nat}

def opening (c : Chunk) : Activation := .start c.proto [] 2 (c.proto.slots + 1)

theorem start_of_room (hroom : i.ready.HasStack 0 (c.proto.slots + 1)) :
    i.start c = (i.ready.grow (c.proto.slots + 1)).onTop #[.environment c.environment] (opening c) i.ready.frames
      (.leave .fall) := by
  obtain ⟨hslots, hmemory⟩ := hroom
  have hcount : c.proto.room [] = c.proto.slots + 1 := by simp [Proto.room]
  have hweight : i.ready.weight = 0 := rfl
  simp only [start, Machine.enterScript, hcount, hweight, overflow?_eq_none_iff.mpr hslots, Nat.zero_add]
  rw [Nat.zero_add] at hmemory
  exact if_pos hmemory

theorem start_within_object (hc : CallsMethod c.proto space name vs) (hroom : i.ready.HasStack 0 (c.proto.slots + 1))
    (henvironment : i.vault.environment c.environment = .table g) (hglobal : i.heap.rawGet g (.str space) = .table p) :
    ∃ (a : Activation) (line callLine : Nat) (label : Option Label) (body : List Stmt),
      a.kont = [.ignore, .block [] body] ∧ a.depth = 2 ∧ a.weight = c.proto.slots + 1 ∧
      Within 3 (i.start c) ((i.ready.grow (c.proto.slots + 1)).onTop #[.environment c.environment]
        (a.pushKont (.methodObject false line label name callLine (vs.map .const))) i.ready.frames (.value (.table p))) := by
  obtain ⟨line, globalLine, callLine, hbody⟩ := hc.body
  let object : Expr := .index globalLine (.captured 0 environmentName) (.const (.str space))
  let call : Expr := .method line object name callLine (vs.map .const)
  let a : Activation := { opening c with kont := [.ignore, .block [] [.call call]] }
  let waiting : Activation := a.pushKont (.methodObject false line object.label? name callLine (vs.map .const))
  let w := (i.ready.grow (c.proto.slots + 1)).workspace #[.environment c.environment]
  have hleave : w.leave (opening c) .fall = w.onTop a (.evalAll call false) := by
    have hkont : (opening c).kont = [.block [.call call] [.call call]] := by
      rw [← hbody]
      rfl
    simp only [Workspace.leave, hkont]
    rfl
  have hcall : w.evalAll a false call = w.onTop waiting (.eval object) := rfl
  have hobject : w.eval waiting object = w.onTop waiting (.value (.table p)) := by
    have henv : (Expr.captured 0 environmentName).value? w.scope waiting = some (.table g) := congrArg some henvironment
    have hkey : (Expr.const (.str space)).value? w.scope waiting = some (.str space) := rfl
    have hraw : w.heap.index (.table g) (.str space) = .value (.table p) := Heap.index_of_raw hglobal rfl
    rw [Workspace.eval_index globalLine henv hkey, hraw]
    rfl
  refine ⟨a, line, callLine, object.label?, _, rfl, rfl, rfl, ?_⟩
  rw [start_of_room hroom]
  exact (Machine.within_turn (Machine.step_leave _) hleave).trans ((Machine.within_turn (Machine.step_evalAll _ _) hcall).trans
    (Machine.within_turn (Machine.step_eval _) hobject))

/-- A machine that asks the host in a run of which nothing else is left. -/
structure Asks (m : Machine) (frame : List Value) : Prop where
  control : ∃ label weight, m.control = .host frame ⟨label, "?", 2, weight⟩ fun vs h => .done vs h
  frames : ∃ captured a body, m.frames = [.script captured a, guard (.function (.builtin .trap)), .glue gluePlace] ∧
    a.kont = [.ignore, .block [] body]
  resumers : m.resumers = []

theorem ready_hasMemory {count : Nat} (h : i.heap.hasRoom i.limit (callMemory count)) :
    i.ready.HasMemory (2 * (30 + 3 * count)) (Vault.closureSize + Vault.errorSize) := by
  have hstack : i.ready.stack = firstStack := rfl
  have hfirst : firstStack = 40 := rfl
  have hless : slotSize * (2 * (30 + 3 * count) - firstStack) ≤ slotSize * (2 * (30 + 3 * count)) :=
    Nat.mul_le_mul_left _ (Nat.sub_le ..)
  constructor
  · omega
  · rw [hstack]
    refine Heap.hasRoom_mono ?_ h
    unfold callMemory
    omega

/-- With memory for it, the run comes to the question for the host that its method is. -/
theorem start_asks (hc : CallsMethod c.proto space name vs) (henvironment : i.vault.environment c.environment = .table g)
    (hglobal : i.heap.rawGet g (.str space) = .table p) (hserves : Serves i.heap i.vault space name p)
    (hmemory : i.heap.hasRoom i.limit (callMemory vs.length)) :
    ∃ m, Within 12 (i.start c) m ∧ Asks m (.str space :: .str name :: vs) := by
  have hslots := hc.slots
  have hcount : c.proto.slots < 255 := hc.fits
  have hlimit : stackLimit = 1000000 := rfl
  have hstart := ready_hasMemory hmemory
  have hentered : (i.ready.grow (c.proto.slots + 1)).HasMemory _ _ := hstart.grow (by omega)
  obtain ⟨a, line, callLine, label, body, hkont, hdepth, hweight, hobject⟩ :=
    start_within_object hc (hstart.hasStack (by omega) (by omega)) henvironment hglobal
  let m := (i.ready.grow (c.proto.slots + 1)).onTop #[.environment c.environment]
    (a.pushKont (.methodObject false line label name callLine (vs.map .const))) i.ready.frames (.value (.table p))
  have hlookup : ProxyLookup m #[.environment c.environment] a i.ready.frames false space p (.table p) (.str name)
      [.table p] (vs.map .const) :=
    ⟨⟨_, _, rfl, rfl, .methodObject rfl⟩, hserves.index⟩
  have hroom : HasCallRoom a.depth := by
    rw [hdepth]
    decide
  have hm : m.HasMemory _ _ := ⟨hentered.stack, hentered.room⟩
  have htop : m.weight = a.weight := hlookup.weight
  let made := m.withMember space (.str name) p
  have hmade : made.HasMemory _ _ := hm.withMember (by omega) space (.str name) p
  have henter : made.HasStack a.weight (27 + vs.length) := hmade.hasStack (by omega) (by omega)
  have hpass : made.HasStack (a.weight + (27 + vs.length)) vs.length := hmade.hasStack (by omega) (by omega)
  have hpassed : (made.grow (a.weight + (27 + vs.length) + vs.length)).HasMemory _ _ := hmade.grow (by omega)
  obtain ⟨current, label', hhost⟩ := hlookup.within_host (hm.hasLookupRoom hroom (by omega) (by omega))
    (fun _ => reads_constants _ _ vs) (beq_self_eq_true p) rfl (congrArg List.length (List.nil_append vs)).symm henter hpass
    (hpassed.affords (by omega))
  rw [hdepth] at hhost
  exact ⟨_, hobject.trans hhost, ⟨label', _, rfl⟩, ⟨_, _, body, rfl, hkont⟩, rfl⟩

/-- Whatever the host answers, the run ends then. -/
theorem Asks.ends {m : Machine} {frame : List Value} (h : Asks m frame) {k : Waiting} {c : Caller}
    (hcontrol : m.control = .host frame c k) (answer : Except GuestError Value) :
    ∃ m', Within 12 (m.hostAnswer answer c k) m' ∧ ∃ outcome, m'.control = .done outcome := by
  obtain ⟨label, weight, hhost⟩ := h.control
  obtain ⟨captured, a, body, hframes, hkont⟩ := h.frames
  have hresumers := h.resumers
  obtain ⟨heap, vault, control, frames, threads, running, resumers, grownStacks, limit, platform, trapped⟩ := m
  obtain ⟨proto, slots, varargs, line, kont, depth, place⟩ := a
  simp only at hcontrol hhost hframes hkont hresumers
  subst hhost hframes hkont hresumers
  cases hcontrol
  cases answer with
  | ok v => exact ⟨_, .run 12 _, _, rfl⟩
  | error e => exact ⟨_, .run 12 _, _, rfl⟩

end Interpreter

end ScriptHost.Lua
