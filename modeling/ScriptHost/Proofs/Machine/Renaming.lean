import ScriptHost.Proofs.Machine.Marks

/-! # Renaming environments

Scripts are told apart by the numbers of their environments, and nothing a machine does depends on these numbers, as long
as an environment that a script assigned keeps a number of its own. A machine with other numbers makes the same steps:
renaming commutes with every step, and so with runs. -/

namespace ScriptHost.Lua

variable (ρ : Nat → Nat)

def Captured.rename : Captured → Captured
  | cell i => cell i
  | environment n => environment (ρ n)

def Closure.rename : Closure → Closure
  | script p captured => script p (captured.map (·.rename ρ))
  | bound f => bound f

def Vault.rename (v : Vault) : Vault := { v with closures := v.closures.map (·.rename ρ) }

def Frame.rename : Frame → Frame
  | script captured a => script (captured.map (·.rename ρ)) a
  | f => f

def Thread.rename : Thread → Thread
  | suspended frames c k => suspended (frames.map (·.rename ρ)) c k
  | t => t

def Resumer.rename (r : Resumer) : Resumer := { r with frames := r.frames.map (·.rename ρ) }

def Machine.rename (m : Machine) : Machine :=
  { m with
    vault := m.vault.rename ρ
    frames := m.frames.map (·.rename ρ)
    threads := m.threads.map (·.rename ρ)
    resumers := m.resumers.map (·.rename ρ) }

/-- Environments that were assigned keep their numbers, and no other environment gets one of these. -/
def Keeps (assigned : Std.TreeMap Nat Value) : Prop := ∀ j ∈ assigned, ∀ k, ρ k = j ↔ k = j

variable {ρ}

@[simp] theorem Frame.rename_script (captured : Array Captured) (a : Activation) :
    (script captured a).rename ρ = script (captured.map (·.rename ρ)) a := rfl

@[simp] theorem Frame.rename_native (c : Caller) (guard : Option Handler) (k : Waiting) :
    (native c guard k).rename ρ = native c guard k := rfl

@[simp] theorem Frame.rename_report (depth weight : Nat) : (report depth weight).rename ρ = report depth weight := rfl

@[simp] theorem Frame.rename_closing (rest : List Value) (failure : Option Raised) (inherits : Bool)
    (depth weight : Nat) :
    (closing rest failure inherits depth weight).rename ρ = closing rest failure inherits depth weight := rfl

@[simp] theorem Frame.rename_glue (place : Bytes) : (glue place).rename ρ = glue place := rfl

theorem Keeps.of_grown {captured : Array Captured} {v w : Vault} (h : Keeps ρ w.assigned)
    (hgrown : Grown captured v w) : Keeps ρ v.assigned := fun j hj => h j (hgrown.kept j hj)

theorem Captured.getElem!_rename (captured : Array Captured) (i : Nat) :
    (captured.map (·.rename ρ))[i]! = captured[i]!.rename ρ := by
  simp only [getElem!_def, Array.getElem?_map]
  cases captured[i]? <;> rfl

theorem Vault.read_rename {v : Vault} (h : Keeps ρ v.assigned) (c : Captured) :
    (v.rename ρ).read (c.rename ρ) = v.read c := by
  cases c with
  | cell i => rfl
  | environment n =>
    have hget : v.assigned[ρ n]? = v.assigned[n]? := by
      by_cases hn : n ∈ v.assigned
      · rw [(h n hn n).mpr rfl]
      · have hρ : ρ n ∉ v.assigned := fun hρ => hn ((h _ hρ n).mp rfl ▸ hρ)
        rw [Std.TreeMap.getElem?_eq_none hn, Std.TreeMap.getElem?_eq_none hρ]
    simp only [Vault.read, Captured.rename, Vault.environment, Vault.rename, hget]

@[simp] theorem Closure.replacesCaller_rename (c : Closure) : (c.rename ρ).replacesCaller = c.replacesCaller := by
  cases c <;> rfl

theorem Vault.scope_rename {v : Vault} (h : Keeps ρ v.assigned) (captured : Array Captured) :
    (v.rename ρ).scope (captured.map (·.rename ρ)) = v.scope captured := by
  simp only [Vault.scope, Captured.getElem!_rename, v.read_rename h, Scope.mk.injEq, true_and]
  refine ⟨rfl, funext fun r => ?_⟩
  simp only [Vault.rename, Array.getElem?_map]
  cases v.closures[r]? <;> simp

@[simp] theorem Frame.depth_rename (f : Frame) : (f.rename ρ).depth = f.depth := by cases f <;> rfl

@[simp] theorem Frame.weight_rename (f : Frame) : (f.rename ρ).weight = f.weight := by cases f <;> rfl

@[simp] theorem Frame.place_rename (f : Frame) : (f.rename ρ).place = f.place := by cases f <;> rfl

@[simp] theorem Frame.isLevel_rename (f : Frame) : (f.rename ρ).isLevel = f.isLevel := by cases f <;> rfl

@[simp] theorem Frame.letsYield_rename (f : Frame) : (f.rename ρ).letsYield = f.letsYield := by cases f <;> rfl

theorem all_letsYield_rename (frames : List Frame) :
    (frames.map (·.rename ρ)).all Frame.letsYield = frames.all Frame.letsYield := by
  simp [List.all_map, Function.comp_def]

@[simp] theorem Vault.footprint_rename (v : Vault) : (v.rename ρ).footprint = v.footprint := by
  simp [Vault.footprint, Vault.rename]

theorem Vault.addClosure_rename (v : Vault) (c : Closure) :
    (v.rename ρ).addClosure (c.rename ρ) = ((v.addClosure c).1, (v.addClosure c).2.rename ρ) := by
  simp [Vault.addClosure, Vault.rename]

theorem Closure.advanced_rename (c : Closure) (position : Nat) :
    (c.rename ρ).advanced position = (c.advanced position).rename ρ := by
  cases c with
  | script p captured => rfl
  | bound g => cases g <;> rfl

theorem Vault.advance_rename (v : Vault) (r position : Nat) :
    (v.rename ρ).advance r position = (v.advance r position).rename ρ := by
  have hclosures : (v.closures.map (·.rename ρ)).modify r (·.advanced position) =
      (v.closures.modify r (·.advanced position)).map (·.rename ρ) := by
    refine Array.ext_getElem? fun i => ?_
    simp only [Array.getElem?_modify, Array.getElem?_map]
    split
    · simp [Function.comp_def, Closure.advanced_rename]
    · rfl
  simp only [Vault.advance, Vault.rename, hclosures]

namespace Machine

@[simp] theorem handlerOf_rename (frames : List Frame) : handlerOf (frames.map (·.rename ρ)) = handlerOf frames := by
  induction frames with
  | nil => rfl
  | cons f frames ih =>
    cases f with
    | native c guard k => rcases guard with - | (- | f | -) <;> simp [handlerOf, ih]
    | closing rest failure inherits depth weight => simp [handlerOf, ih]
    | _ => simp [handlerOf, ih]

@[simp] theorem dropFrames_rename (frames : List Frame) (pending : List Value) :
    dropFrames (frames.map (·.rename ρ)) pending =
      ((dropFrames frames pending).1, (dropFrames frames pending).2.map (·.rename ρ)) := by
  induction frames generalizing pending with
  | nil => rfl
  | cons f frames ih =>
    cases f with
    | native c guard k => cases guard <;> simp [dropFrames, ih]
    | _ => simp [dropFrames, ih]

variable (m : Machine)

@[simp] theorem depth_rename : (m.rename ρ).depth = m.depth := by
  simp only [depth, rename, List.head?_map]
  cases m.frames.head? <;> simp

@[simp] theorem weight_rename : (m.rename ρ).weight = m.weight := by
  simp only [weight, rename, List.head?_map]
  cases m.frames.head? <;> simp

@[simp] theorem place_rename : (m.rename ρ).place = m.place := by
  simp only [place, rename, List.head?_map]
  cases m.frames.head? <;> simp

@[simp] theorem heap_rename : (m.rename ρ).heap = m.heap := rfl

@[simp] theorem control_rename : (m.rename ρ).control = m.control := rfl

@[simp] theorem frames_rename : (m.rename ρ).frames = m.frames.map (·.rename ρ) := rfl

@[simp] theorem limit_rename : (m.rename ρ).limit = m.limit := rfl

@[simp] theorem platform_rename : (m.rename ρ).platform = m.platform := rfl

@[simp] theorem vault_rename : (m.rename ρ).vault = m.vault.rename ρ := rfl

@[simp] theorem resumers_rename : (m.rename ρ).resumers = m.resumers.map (·.rename ρ) := rfl

@[simp] theorem running_rename : (m.rename ρ).running = m.running := rfl

theorem topCaptured_rename : (m.rename ρ).topCaptured = m.topCaptured.map (·.rename ρ) := by
  simp only [topCaptured, frames_rename]
  rcases m.frames with - | ⟨f, rest⟩
  · simp
  · cases f <;> simp

@[simp] theorem goto_rename (c : Control) : (m.rename ρ).goto c = (m.goto c).rename ρ := rfl

@[simp] theorem proceed_rename (t : Task) : (m.rename ρ).proceed t = (m.proceed t).rename ρ := rfl

@[simp] theorem fault_rename (message : Bytes) (depth : Nat) :
    (m.rename ρ).fault message depth = (m.fault message depth).rename ρ := by
  simp [fault]

@[simp] theorem push_rename (f : Frame) : (m.rename ρ).push (f.rename ρ) = (m.push f).rename ρ := rfl

@[simp] theorem runNative_rename (c : Caller) (f : Heap → Resumption (List Value)) :
    (m.rename ρ).runNative c f = (m.runNative c f).rename ρ := rfl

@[simp] theorem callDeeper_rename (f : Value) (args : List Value) (label : Option Label) (depth : Nat) :
    (m.rename ρ).callDeeper f args label depth = (m.callDeeper f args label depth).rename ρ := by
  simp [callDeeper]

@[simp] theorem setThread_rename (t : Nat) (s : Thread) :
    (m.rename ρ).setThread t (s.rename ρ) = (m.setThread t s).rename ρ := by
  simp [setThread, rename]

variable {m} in
theorem withStack_rename {slots : Nat} {f fρ : Machine → Machine}
    (hf : fρ ((m.grow slots).rename ρ) = (f (m.grow slots)).rename ρ) (depth : Nat) :
    (m.rename ρ).withStack slots depth fρ = (m.withStack slots depth f).rename ρ := by
  have haffords : (m.rename ρ).affords ((m.rename ρ).growth slots) = m.affords (m.growth slots) := rfl
  unfold withStack
  rw [haffords]
  split
  · exact hf
  · rfl

@[simp] theorem enterScript_rename (p : Proto) (captured : Array Captured) (args : List Value) (depth : Nat) :
    (m.rename ρ).enterScript p (captured.map (·.rename ρ)) args depth =
      (m.enterScript p captured args depth).rename ρ := by
  simp only [enterScript, weight_rename, place_rename]
  split
  · rfl
  · refine withStack_rename ?_ depth
    rfl

@[simp] theorem enterBound_rename (r : Nat) (g : Bound) (args : List Value) (label : Option Label) (depth : Nat) :
    (m.rename ρ).enterBound r g args label depth = (m.enterBound r g args label depth).rename ρ := by
  simp only [enterBound, weight_rename, place_rename]
  split
  · rfl
  · refine withStack_rename ?_ depth
    simp only [weight_rename]
    rfl

@[simp] theorem call_rename (f : Value) (args : List Value) (label : Option Label) (depth : Nat) :
    (m.rename ρ).call f args label depth = (m.call f args label depth).rename ρ := by
  have hclosure (r : Nat) : (m.rename ρ).vault.closures[r]? = (m.vault.closures[r]?).map (·.rename ρ) := by
    simp [rename, Vault.rename]
  simp only [call, heap_rename, hclosure]
  rcases m.heap.callee callLimit f args with culprit | ⟨g, args⟩
  · simp
  · cases g with
    | builtin b => simp
    | closure r =>
      simp only
      rcases m.vault.closures[r]? with - | (⟨p, captured⟩ | g)
      · rfl
      · exact enterScript_rename ..
      · simp [Closure.rename]
    | _ => rfl

@[simp] theorem answer_rename (vs : List Value) : (m.rename ρ).answer vs = (m.answer vs).rename ρ := by
  simp only [answer, frames_rename]
  rcases m.frames with - | ⟨f, rest⟩
  · rfl
  · cases f <;> rfl

@[simp] theorem handBack_rename (s : Thread) (vs : List Value) :
    (m.rename ρ).handBack (s.rename ρ) vs = (m.handBack s vs).rename ρ := by
  simp only [handBack, resumers_rename]
  rcases m.resumers with - | ⟨r, resumers⟩
  · rfl
  · have hthreads : (((m.setThread m.running s).rename ρ).setThread r.thread .running) =
        ((m.setThread m.running s).setThread r.thread .running).rename ρ := setThread_rename _ r.thread .running
    simp only [List.map_cons, Resumer.rename, running_rename, setThread_rename, hthreads]
    exact answer_rename { (m.setThread m.running s).setThread r.thread .running with
      frames := r.frames, running := r.thread, resumers } vs

@[simp] theorem switchTo_rename (c : Caller) (k : Waiting) (t : Nat) (frames : List Frame) :
    (m.rename ρ).switchTo c k t (frames.map (·.rename ρ)) = (m.switchTo c k t frames).rename ρ := by
  have hthreads : ((m.rename ρ).setThread m.running .normal).setThread t .running =
      ((m.setThread m.running .normal).setThread t .running).rename ρ := by
    rw [← setThread_rename, ← setThread_rename]
    rfl
  simp only [switchTo, running_rename, hthreads]
  rfl

theorem threads_rename (t : Nat) : (m.rename ρ).threads[t]? = (m.threads[t]?).map (·.rename ρ) := by
  simp [rename]

@[simp] theorem threadStatus_rename (t : Nat) : (m.rename ρ).threadStatus t = m.threadStatus t := by
  simp only [threadStatus, threads_rename]
  rcases m.threads[t]? with - | thread
  · rfl
  · cases thread <;> rfl

@[simp] theorem resume_rename (c : Caller) (k : Waiting) (t : Nat) (args : List Value) :
    (m.rename ρ).resume c k t args = (m.resume c k t args).rename ρ := by
  simp only [resume, threads_rename]
  split
  · rfl
  · rcases m.threads[t]? with - | thread
    · rfl
    · cases thread with
      | fresh f => exact congrArg (proceed · (.call f args none (c.depth + 1))) (switchTo_rename m c k t [])
      | suspended frames waiting answer =>
        exact congrArg (runNative · waiting (answer args)) (switchTo_rename m c k t frames)
      | _ => rfl

@[simp] theorem yield_rename (c : Caller) (k : Waiting) (vs : List Value) :
    (m.rename ρ).yield c k vs = (m.yield c k vs).rename ρ := by
  simp only [yield, running_rename, frames_rename, all_letsYield_rename]
  split
  · rfl
  · split
    · rfl
    · exact handBack_rename m (.suspended m.frames c k) _

@[simp] theorem closeNext_rename : (m.rename ρ).closeNext = m.closeNext.rename ρ := by
  simp only [closeNext, frames_rename]
  rcases m.frames with - | ⟨f, rest⟩
  · rfl
  · cases f with
    | closing pending failure inherits depth weight =>
      cases pending with
      | nil =>
        simp only [List.map_cons, Frame.rename_closing, List.isEmpty_map]
        split
        · exact handBack_rename { m with frames := [] } (.dead none []) _
        · exact answer_rename { m with frames := rest } _
      | cons v vs =>
        exact callDeeper_rename { m with frames := .closing vs failure inherits depth weight :: rest } ..
    | _ => rfl

@[simp] theorem closeThread_rename (c : Caller) (k : Waiting) (t : Nat) :
    (m.rename ρ).closeThread c k t = (m.closeThread c k t).rename ρ := by
  have hfinish (pending : List Value) (failure : Option Raised) :
      ((m.rename ρ).switchTo c k t [.closing pending failure false c.depth c.weight]).closeNext =
        (m.switchTo c k t [.closing pending failure false c.depth c.weight]).closeNext.rename ρ := by
    rw [← closeNext_rename, ← switchTo_rename]
    rfl
  simp only [closeThread, threads_rename, hfinish]
  rcases m.threads[t]? with - | thread
  · rfl
  · cases thread with
    | suspended frames waiting answer => simp [Thread.rename]
    | _ => rfl

@[simp] theorem raise_rename (e : Raised) (depth : Nat) : (m.rename ρ).raise e depth = (m.raise e depth).rename ρ := by
  simp only [raise, frames_rename, handlerOf_rename, weight_rename]
  split
  · split
    · rfl
    · split <;> rfl
  · rfl

@[simp] theorem die_rename (e : Raised) (pending : List Value) :
    (m.rename ρ).die e pending = (m.die e pending).rename ρ := by
  simp only [die, resumers_rename]
  rcases m.resumers with - | ⟨r, resumers⟩
  · rfl
  · exact handBack_rename { m with frames := [], resumers := r :: resumers } (.dead (some e) pending) _

@[simp] theorem unwind_rename (e : Raised) : (m.rename ρ).unwind e = (m.unwind e).rename ρ := by
  simp only [unwind, frames_rename, dropFrames_rename]
  rcases dropFrames m.frames [] with ⟨pending, - | ⟨f, below⟩⟩
  · exact die_rename m e pending
  · cases f with
    | closing rest failure inherits depth weight =>
      exact closeNext_rename { m with frames := .closing (pending ++ rest) (some e) inherits depth weight :: below }
    | native c guard k =>
      exact closeNext_rename (push { m with frames := .native c guard k :: below }
        (.closing pending (some e) true c.depth c.weight))
    | _ => exact die_rename m e pending

@[simp] theorem raiseObject_rename (v : Value) (depth : Nat) :
    (m.rename ρ).raiseObject v depth = (m.raiseObject v depth).rename ρ := rfl

@[simp] theorem failNative_rename (c : Caller) (f : Fault) : (m.rename ρ).failNative c f = (m.failNative c f).rename ρ := by
  cases f <;> simp [failNative]

@[simp] theorem placeAt_rename (level : Nat) : (m.rename ρ).placeAt level = m.placeAt level := by
  simp [placeAt, List.filter_map, Function.comp_def]

theorem addToVault_rename {α : Type} {f g : Vault → α × Vault}
    (h : g (m.vault.rename ρ) = ((f m.vault).1, (f m.vault).2.rename ρ)) :
    (m.rename ρ).addToVault g = ((m.addToVault f).1, (m.addToVault f).2.rename ρ) := by
  simp only [addToVault, vault_rename, h, Vault.footprint_rename]
  rfl

@[simp] theorem addChunk_rename (p : Proto) (environment : Option Value) :
    (m.rename ρ).addChunk p environment = ((m.addChunk p environment).1, (m.addChunk p environment).2.rename ρ) := by
  refine m.addToVault_rename ?_
  simp [Vault.addCell, Vault.addClosure, Vault.rename, Closure.rename, Captured.rename]

@[simp] theorem affords_rename (size : Nat) : (m.rename ρ).affords size = m.affords size := rfl

@[simp] theorem grant_rename (c : Caller) (r : Request) (k : Waiting) :
    (m.rename ρ).grant c r k = (m.grant c r k).rename ρ := by
  cases r with
  | call f args => exact callDeeper_rename (m.push (.native c none k)) f args none c.depth
  | protect handler f args => exact callDeeper_rename (m.push (.native c (some handler) k)) f args none c.depth
  | spawn f => simp [grant, rename, runNative, Thread.rename, goto]
  | resume t args => exact resume_rename m c k t args
  | yield vs => exact yield_rename m c k vs
  | close t => exact closeThread_rename m c k t
  | claim size =>
    by_cases h : m.heap.admits m.limit size
    · have hρ : (m.rename ρ).heap.admits (m.rename ρ).limit size := h
      simp only [grant, if_pos h, if_pos hρ]
      rfl
    · have hρ : ¬ (m.rename ρ).heap.admits (m.rename ρ).limit size := h
      simp only [grant, if_neg h, if_neg hρ]
      exact m.failNative_rename c .memory
  | failed t =>
    simp only [grant, threads_rename]
    rcases m.threads[t]? with - | thread
    · rfl
    · rcases thread with - | - | - | - | ⟨- | e, pending⟩ <;> rfl
  | bind f =>
    have hadd : (m.rename ρ).addToVault (·.addClosure (.bound f)) =
        ((m.addToVault (·.addClosure (.bound f))).1, (m.addToVault (·.addClosure (.bound f))).2.rename ρ) :=
      m.addToVault_rename (m.vault.addClosure_rename (.bound f))
    simp only [grant, hadd]
    rfl
  | advance r position =>
    simp only [grant, modifyVault, vault_rename, Vault.advance_rename]
    rfl
  | chunk p environment =>
    simp only [grant, addChunk_rename]
    rfl
  | yieldable => simp only [grant, running_rename, frames_rename, all_letsYield_rename, runNative_rename]
  | status t => simp only [grant, threadStatus_rename, runNative_rename]
  | position level => simp only [grant, placeAt_rename, runNative_rename]
  | _ => rfl

@[simp] theorem request_rename (c : Caller) (r : Request) (k : Waiting) :
    (m.rename ρ).request c r k = (m.request c r k).rename ρ := by
  simp only [request, affords_rename, grant_rename, failNative_rename]
  split <;> rfl

@[simp] theorem stepNative_rename (c : Caller) (r : Resumption (List Value)) :
    (m.rename ρ).stepNative c r = (m.stepNative c r).rename ρ := by
  cases r with
  | done vs h => rfl
  | fault f h => exact failNative_rename { m with heap := h } c f
  | ask r h k => exact request_rename { m with heap := h } c r k

@[simp] theorem traceback_rename : (m.rename ρ).traceback = m.traceback := rfl

@[simp] theorem hostAnswer_rename (answer : Except GuestError Value) (c : Caller) (k : Waiting) :
    (m.rename ρ).hostAnswer answer c k = (m.hostAnswer answer c k).rename ρ := by
  cases answer with
  | ok v => rfl
  | error e =>
    have hadd : (m.rename ρ).addToVault (·.addError (.callback m.traceback e)) =
        ((m.addToVault (·.addError (.callback m.traceback e))).1,
          (m.addToVault (·.addError (.callback m.traceback e))).2.rename ρ) := m.addToVault_rename rfl
    simp only [hostAnswer, traceback_rename, hadd]
    rfl

end Machine

theorem capture_rename (captured : Array Captured) (caps : List Capture) (v : Vault) (a : Activation)
    (taken : Array Captured) :
    capture (captured.map (·.rename ρ)) (v.rename ρ) a caps (taken.map (·.rename ρ)) =
      (((capture captured v a caps taken).1.1, (capture captured v a caps taken).1.2.map (·.rename ρ)),
        (capture captured v a caps taken).2.rename ρ) := by
  induction caps generalizing v a taken with
  | nil => rfl
  | cons cap rest ih =>
    have hpush (c : Captured) : (taken.map (·.rename ρ)).push (c.rename ρ) = (taken.push c).map (·.rename ρ) := by simp
    cases cap with
    | outer i =>
      simp only [capture, Captured.getElem!_rename, hpush]
      exact ih ..
    | slot i =>
      have haddCell (x : Value) : (v.rename ρ).addCell x = ((v.addCell x).1, (v.addCell x).2.rename ρ) := rfl
      simp only [capture, haddCell]
      split
      · next c _ =>
        rw [← ih]
        exact congrArg (capture _ _ _ rest) (hpush (.cell c))
      · rw [← ih]
        exact congrArg (capture _ _ _ rest) (hpush (.cell _))

theorem makeClosure_rename (captured : Array Captured) (a : Activation) (p : Proto) (v : Vault) :
    makeClosure (captured.map (·.rename ρ)) a p (v.rename ρ) =
      ((makeClosure captured a p v).1, (makeClosure captured a p v).2.rename ρ) := by
  have hcapture := capture_rename (ρ := ρ) captured p.captures v a #[]
  rw [Array.map_empty] at hcapture
  simp only [makeClosure, hcapture]
  exact congrArg (fun r => ((_, r.1), r.2)) (Vault.addClosure_rename _ (.script p _))

theorem writeSlot_rename (v : Vault) (a : Activation) (i : Nat) (x : Value) :
    writeSlot (v.rename ρ) a i x = ((writeSlot v a i x).1.rename ρ, (writeSlot v a i x).2) := by
  unfold writeSlot
  split <;> rfl

theorem Vault.write_rename {v : Vault} {c : Captured} {x : Value} (h : Keeps ρ (v.write c x).assigned) :
    (v.rename ρ).write (c.rename ρ) x = (v.write c x).rename ρ := by
  cases c with
  | cell i => rfl
  | environment n =>
    have hn : ρ n = n := (h n (Std.TreeMap.mem_insert_self ..) n).mpr rfl
    simp only [Captured.rename, hn]
    rfl

theorem storeAll_rename (captured : Array Captured) (line : Nat) (b : Budget) (pairs : List (Place × Value))
    {v : Vault} {heap : Heap} {a : Activation} (h : Keeps ρ (storeAll captured v heap a line b pairs).1.assigned) :
    storeAll (captured.map (·.rename ρ)) (v.rename ρ) heap a line b pairs =
      ((storeAll captured v heap a line b pairs).1.rename ρ, (storeAll captured v heap a line b pairs).2) := by
  induction pairs generalizing v heap a with
  | nil => rfl
  | cons pair rest ih =>
    obtain ⟨place, x⟩ := pair
    cases place with
    | slot i =>
      simp only [storeAll, writeSlot_rename] at h ⊢
      exact ih h
    | captured i =>
      simp only [storeAll, Captured.getElem!_rename] at h ⊢
      rw [Vault.write_rename (h.of_grown (storeAll_grown captured line b rest _ heap a))]
      exact ih h
    | index object key label =>
      have hv : Keeps ρ v.assigned := h.of_grown (storeAll_grown captured line b _ v heap a)
      simp only [storeAll, Vault.scope_rename hv] at h ⊢
      cases hstore : heap.store (object.now (v.scope captured) a) (key.now (v.scope captured) a) x with
      | into r =>
        simp only [hstore] at h ⊢
        exact ih h
      | _ => rfl

namespace Machine

variable (m : Machine)

theorem settle_rename (captured : Array Captured) (t : Turn) :
    (m.rename ρ).settle (captured.map (·.rename ρ)) t = (m.settle captured t).rename ρ := by
  unfold settle
  cases t.top <;> rfl

variable {m} in
theorem inScript_rename (h : Keeps ρ m.vault.assigned) (f : Workspace → Activation → Turn) :
    (m.rename ρ).inScript f = (m.inScript f).rename ρ := by
  simp only [inScript, frames_rename]
  rcases m.frames with - | ⟨f, rest⟩
  · rfl
  · cases f with
    | script captured a =>
      simp only [List.map_cons, Frame.rename_script, vault_rename, Vault.scope_rename h]
      exact settle_rename { m with heap := {}, frames := rest } captured _
    | _ => rfl

theorem make_rename (p : Proto) (slot : Option Nat) : (m.rename ρ).make p slot = (m.make p slot).rename ρ := by
  simp only [make, frames_rename]
  rcases m.frames with - | ⟨f, rest⟩
  · rfl
  · cases f with
    | script captured a =>
      have hadd := addToVault_rename { m with frames := rest } (makeClosure_rename (ρ := ρ) captured a p m.vault)
      have hmachine : rename ρ { m with frames := rest } = { m.rename ρ with frames := rest.map (·.rename ρ) } := rfl
      rw [hmachine] at hadd
      simp only [List.map_cons, Frame.rename_script, affords_rename, hadd]
      split
      · rfl
      · cases slot with
        | none => rfl
        | some i =>
          simp only [vault_rename, writeSlot_rename]
          rfl
    | _ => rfl

variable {m} in
theorem store_rename {line : Nat} {pairs : List (Place × Value)} (h : Keeps ρ (m.store line pairs).vault.assigned) :
    (m.rename ρ).store line pairs = (m.store line pairs).rename ρ := by
  simp only [store, frames_rename] at h ⊢
  generalize m.frames = frames at h ⊢
  rcases frames with - | ⟨f, rest⟩
  · rfl
  · cases f with
    | script captured a =>
      simp only [settle_vault] at h
      have hbudget : (m.rename ρ).budget = m.budget := rfl
      simp only [List.map_cons, Frame.rename_script, vault_rename, heap_rename, hbudget]
      rw [storeAll_rename captured line _ pairs h]
      exact settle_rename (Machine.mk {} _ m.control rest m.threads m.running m.resumers m.grownStacks m.limit m.platform
        m.trapped) captured _
    | _ => rfl

variable {m} in
theorem arrive_rename (h : Keeps ρ m.vault.assigned) (vs : List Value) :
    (m.rename ρ).arrive vs = (m.arrive vs).rename ρ := by
  simp only [arrive, frames_rename, inScript_rename h, resumers_rename, List.isEmpty_map]
  rcases m.frames with - | ⟨f, rest⟩
  · exact handBack_rename m (.dead none []) _
  · cases f with
    | closing pending failure inherits depth weight => exact m.closeNext_rename
    | _ => rfl

variable {m} in
theorem perform_rename {t : Task} (h : Keeps ρ (m.perform t).vault.assigned) (hm : Keeps ρ m.vault.assigned) :
    (m.rename ρ).perform t = (m.perform t).rename ρ := by
  cases t with
  | store line pairs => exact store_rename h
  | make p slot => exact m.make_rename p slot
  | values vs => exact arrive_rename hm vs
  | call f args label depth => exact m.call_rename f args label depth
  | raise e depth => exact m.raise_rename e depth
  | eval e => exact inScript_rename hm fun m a => m.eval a e
  | evalAll e tail => exact inScript_rename hm fun m a => m.evalAll a tail e
  | value v => exact inScript_rename hm fun m a => m.receive a v
  | leave x => exact inScript_rename hm fun m a => m.leave a x

variable {m} in
theorem step_rename (h : Keeps ρ m.step.vault.assigned) : (m.rename ρ).step = m.step.rename ρ := by
  have hm : Keeps ρ m.vault.assigned := h.of_grown m.step_grown
  unfold step at h ⊢
  simp only [control_rename]
  cases hc : m.control with
  | task t =>
    simp only [hc] at h
    exact perform_rename h hm
  | native c r => exact m.stepNative_rename c r
  | unwind e => exact m.unwind_rename e
  | _ => rfl

end Machine

end ScriptHost.Lua
