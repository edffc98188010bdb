import ScriptHost.Lua.Interpreter
import ScriptHost.Proofs.Machine.Marks
import ScriptHost.Proofs.Machine.Room

/-! # Errors that escape

A run calls its chunk in a protected call whose message handler is the trap. An error escapes if nothing else catches it.
While the chunk is under way, the frames of the main coroutine end in that call, on which there is a closing frame with
the last error that escaped, if any did; and an ordinary error does not escape unless the trap was sprung. -/

namespace ScriptHost.Lua

def Frame.catches : Frame → Bool
  | native _ (some _) _ => true
  | _ => false

def catchers (frames : List Frame) : Nat := frames.countP Frame.catches

/-- The error that frames are left for, if only the protected call of the run catches it. -/
def Machine.escaping? (m : Machine) : Option Raised :=
  match m.control with
  | .unwind e => if m.resumers.isEmpty && catchers m.frames == 1 then some e else none
  | _ => none

def Machine.springs (m : Machine) : Bool :=
  match m.control with
  | .native _ (.ask .trap _ _) => true
  | _ => false

@[simp] theorem catchers_script (captured : Array Captured) (a : Activation) (fs : List Frame) :
    catchers (.script captured a :: fs) = catchers fs := rfl

@[simp] theorem catchers_waiting (c : Caller) (k : Waiting) (fs : List Frame) :
    catchers (.native c none k :: fs) = catchers fs := rfl

@[simp] theorem catchers_guarded (c : Caller) (g : Handler) (k : Waiting) (fs : List Frame) :
    catchers (.native c (some g) k :: fs) = catchers fs + 1 := by
  simp [catchers, List.countP_cons, Frame.catches]

@[simp] theorem catchers_report (depth weight : Nat) (fs : List Frame) :
    catchers (.report depth weight :: fs) = catchers fs := rfl

@[simp] theorem catchers_closing (rest : List Value) (failure : Option Raised) (inherits : Bool) (depth weight : Nat)
    (fs : List Frame) : catchers (.closing rest failure inherits depth weight :: fs) = catchers fs := rfl

@[simp] theorem catchers_glue (place : Bytes) (fs : List Frame) : catchers (.glue place :: fs) = catchers fs := rfl

abbrev trapHandler : Handler := .function (.builtin .trap)

abbrev passOn : Waiting := fun vs h => .done vs h

/-- The frames of the main coroutine while the chunk is under way: `last` is the last error that escaped. -/
inductive Spine (last : Option Raised) (trapped : Bool) : List Frame → Prop
  | bottom {c : Caller} {place : Bytes} (hlast : last = none) :
      Spine last trapped [.native c (some trapHandler) passOn, .glue place]
  | escaped {rest : List Value} {r : Raised} {depth weight : Nat} {c : Caller} {place : Bytes} (hlast : last = some r) :
      Spine last trapped
        [.closing rest (some r) true depth weight, .native c (some trapHandler) passOn, .glue place]
  | script {captured : Array Captured} {a : Activation} {fs : List Frame} (h : Spine last trapped fs) :
      Spine last trapped (.script captured a :: fs)
  | waiting {c : Caller} {k : Waiting} {fs : List Frame} (h : Spine last trapped fs) :
      Spine last trapped (.native c none k :: fs)
  | guarded {c : Caller} {g : Handler} {k : Waiting} {fs : List Frame} (h : Spine last trapped fs) :
      Spine last trapped (.native c (some g) k :: fs)
  | closing {rest : List Value} {failure : Option Raised} {depth weight : Nat} {c : Caller} {g : Handler} {k : Waiting}
      {fs : List Frame} (h : Spine last trapped fs) :
      Spine last trapped (.closing rest failure true depth weight :: .native c (some g) k :: fs)
  /-- A handler that is called below no other protected call is the trap. -/
  | report {depth weight : Nat} {fs : List Frame} (h : Spine last trapped fs)
      (htrapped : catchers fs = 1 → trapped = true) : Spine last trapped (.report depth weight :: fs)

namespace Spine

variable {last : Option Raised} {trapped : Bool} {fs : List Frame}

theorem catchers_pos (h : Spine last trapped fs) : 1 ≤ catchers fs := by
  induction h with
  | bottom hlast => simp
  | escaped hlast => simp
  | guarded h ih => simp
  | closing h ih => simp
  | script h ih | waiting h ih | report h _ ih => simpa using ih

theorem trap (h : Spine last trapped fs) : Spine last true fs := by
  induction h with
  | bottom hlast => exact .bottom hlast
  | escaped hlast => exact .escaped hlast
  | script h ih => exact .script ih
  | waiting h ih => exact .waiting ih
  | guarded h ih => exact .guarded ih
  | closing h ih => exact .closing ih
  | report h _ ih => exact .report ih fun _ => rfl

/-- Below no other protected call, errors meet the trap. -/
theorem handlerOf_eq (h : Spine last trapped fs) (hbare : catchers fs = 1) :
    Machine.handlerOf fs = some (.builtin .trap) := by
  induction h with
  | bottom hlast => rfl
  | escaped hlast => rfl
  | script h ih | waiting h ih | report h _ ih => exact ih (by simpa using hbare)
  | guarded h ih =>
    have hpos := h.catchers_pos
    simp only [catchers_guarded] at hbare
    omega
  | closing h ih =>
    have hpos := h.catchers_pos
    simp only [catchers_closing, catchers_guarded] at hbare
    omega

/-- An error leaves frames up to a protected call, or to the values that are closed on top of one. -/
theorem dropFrames (h : Spine last trapped fs) (pending : List Value) :
    ∃ pending' fs', Machine.dropFrames fs pending = (pending', fs') ∧ Spine last trapped fs' ∧
      catchers fs' = catchers fs ∧
      ((∃ c g k rest, fs' = .native c (some g) k :: rest) ∨
        ∃ vs failure depth weight rest, fs' = .closing vs failure true depth weight :: rest) := by
  induction h generalizing pending with
  | bottom hlast => exact ⟨_, _, rfl, .bottom hlast, rfl, Or.inl ⟨_, _, _, _, rfl⟩⟩
  | escaped hlast => exact ⟨_, _, rfl, .escaped hlast, rfl, Or.inr ⟨_, _, _, _, _, rfl⟩⟩
  | guarded h ih => exact ⟨_, _, rfl, .guarded h, rfl, Or.inl ⟨_, _, _, _, rfl⟩⟩
  | closing h ih => exact ⟨_, _, rfl, .closing h, rfl, Or.inr ⟨_, _, _, _, _, rfl⟩⟩
  | script h ih | waiting h ih | report h _ ih => exact ih _

end Spine

/-- The main coroutine is under way: it is the running one, or waits at the bottom of the resumers. -/
inductive Homed (last : Option Raised) (m : Machine) : Prop
  | home (hresumers : m.resumers = []) (hrunning : m.running = 0) (hspine : Spine last m.trapped m.frames)
  | away {resumers : List Resumer} {c : Caller} {k : Waiting} {fs : List Frame}
      (hresumers : m.resumers = resumers ++ [⟨0, .native c none k :: fs⟩]) (hspine : Spine last m.trapped fs)

/-- What a run gives its glue: that the chunk succeeded if no error escaped, else the object of the last error that did. -/
def Told (last : Option Raised) (vs : List Value) : Prop :=
  (last = none ∧ ∃ rest, vs = .bool true :: rest) ∨ ∃ r, last = some r ∧ vs = [.bool false, r.object]

def Control.isCalm : Control → Bool
  | task _ | native .. | host .. => true
  | unwind _ | done _ => false

inductive Stage (last : Option Raised) (m : Machine) : Prop
  | calm (hhomed : Homed last m) (hcontrol : m.control.isCalm)
  /-- An ordinary error that escapes has met the trap. -/
  | unwinding {e : Raised} (hhomed : Homed last m) (hcontrol : m.control = .unwind e)
      (hmet : ∀ v, e = .ordinary v → m.resumers = [] → catchers m.frames = 1 → m.trapped = true)
  | springing {depth weight : Nat} {fs : List Frame} (hresumers : m.resumers = []) (hrunning : m.running = 0)
      (hframes : m.frames = .report depth weight :: fs) (hspine : Spine last m.trapped fs)
      (hcontrol : (∃ v d, m.control = .task (.call (.builtin .trap) [v] none d)) ∨
        ∃ c h k, m.control = .native c (.ask .trap h k))
  | leaving {place : Bytes} {vs : List Value} (hresumers : m.resumers = []) (hframes : m.frames = [.glue place])
      (htold : Told last vs) (hcontrol : m.control = .task (.values vs) ∨ ∃ c h, m.control = .native c (.done vs h))
  | left {vs : List Value} (hresumers : m.resumers = []) (hframes : m.frames = [])
      (htold : Told last vs) (hcontrol : m.control = .task (.values vs) ∨ m.control = .done (.ok vs))

namespace Homed

variable {last : Option Raised} {m m' : Machine}

/-- Whatever keeps the main coroutine keeps its spine, provided that the frames on top stay fit for it. -/
theorem refit (h : Homed last m) (hresumers : m'.resumers = m.resumers) (hrunning : m'.running = m.running)
    (htrapped : m'.trapped = m.trapped)
    (hframes : m.resumers = [] → Spine last m.trapped m.frames → Spine last m.trapped m'.frames) : Homed last m' := by
  cases h with
  | home hr hmain hspine =>
    refine .home (hresumers.trans hr) (hrunning.trans hmain) ?_
    rw [htrapped]
    exact hframes hr hspine
  | away hr hspine =>
    refine .away (hresumers.trans hr) ?_
    rw [htrapped]
    exact hspine

theorem of_eq (h : Homed last m) (hresumers : m'.resumers = m.resumers) (hrunning : m'.running = m.running)
    (htrapped : m'.trapped = m.trapped) (hframes : m'.frames = m.frames) : Homed last m' :=
  h.refit hresumers hrunning htrapped fun _ hspine => hframes ▸ hspine

theorem trap (h : Homed last m) : Homed last { m with trapped := true } := by
  cases h with
  | home hr hmain hspine => exact .home hr hmain hspine.trap
  | away hr hspine => exact .away hr hspine.trap

theorem proceed (h : Homed last m) (t : Task) : Stage last (m.proceed t) := .calm (h.of_eq rfl rfl rfl rfl) rfl

theorem runNative (h : Homed last m) (c : Caller) (f : Heap → Resumption (List Value)) : Stage last (m.runNative c f) :=
  .calm (h.of_eq rfl rfl rfl rfl) rfl

theorem push (h : Homed last m) {f : Frame} (hf : ∀ {fs}, Spine last m.trapped fs → Spine last m.trapped (f :: fs)) :
    Homed last (m.push f) := h.refit rfl rfl rfl fun _ hspine => hf hspine

end Homed

namespace Homed

variable {last : Option Raised} {m : Machine}

theorem settle (h : Homed last m) {captured : Array Captured} (t : Turn) : Stage last (m.settle captured t) := by
  unfold Machine.settle
  split
  · exact .calm (h.refit rfl rfl rfl fun _ hspine => .script hspine) rfl
  · exact .calm (h.of_eq rfl rfl rfl rfl) rfl

theorem leaveScript (h : Homed last m) {captured : Array Captured} {a : Activation} {rest : List Frame}
    (hframes : m.frames = .script captured a :: rest) : Homed last { m with frames := rest } := by
  refine h.refit rfl rfl rfl fun _ hspine => ?_
  rw [hframes] at hspine
  cases hspine with
  | script hspine => exact hspine

theorem inScript (h : Homed last m) (f : Workspace → Activation → Turn) : Stage last (m.inScript f) := by
  unfold Machine.inScript
  split
  · next captured a rest hframes =>
    exact settle ((h.leaveScript hframes).of_eq rfl rfl rfl rfl) _
  · exact h.proceed _

theorem make (h : Homed last m) (p : Proto) (slot : Option Nat) : Stage last (m.make p slot) := by
  unfold Machine.make
  split
  · next captured a rest hframes =>
    have hbelow := h.leaveScript hframes
    split
    · exact h.proceed _
    · cases slot with
      | none => exact .calm (hbelow.refit rfl rfl rfl fun _ hspine => .script hspine) rfl
      | some i => exact .calm (hbelow.refit rfl rfl rfl fun _ hspine => .script hspine) rfl
  · exact h.proceed _

theorem store (h : Homed last m) (line : Nat) (pairs : List (Place × Value)) : Stage last (m.store line pairs) := by
  unfold Machine.store
  split
  · next captured a rest hframes =>
    refine settle ?_ _
    exact (h.leaveScript hframes).of_eq rfl rfl rfl rfl
  · exact h.proceed _

theorem overflow (h : Homed last m) {place : Unit → Bytes} {weight more depth : Nat} {control : Control}
    (hcontrol : overflow? place weight more depth = some control) : Stage last (m.goto control) := by
  rcases overflow?_cases hcontrol with rfl | rfl
  · exact h.proceed _
  · exact .unwinding (h.of_eq rfl rfl rfl rfl) rfl fun v hv => nomatch hv

theorem withStack (h : Homed last m) {f : Machine → Machine} (hf : ∀ {m'}, Homed last m' → Stage last (f m'))
    (slots depth : Nat) : Stage last (m.withStack slots depth f) := by
  unfold Machine.withStack
  split
  · exact hf (h.of_eq rfl rfl rfl rfl)
  · exact h.proceed _

theorem enterScript (h : Homed last m) (p : Proto) (captured : Array Captured) (args : List Value) (depth : Nat) :
    Stage last (m.enterScript p captured args depth) := by
  unfold Machine.enterScript
  split
  · next hcontrol => exact h.overflow hcontrol
  · exact h.withStack (fun h => (h.push .script).proceed _) _ depth

theorem enterBound (h : Homed last m) (r : Nat) (g : Bound) (args : List Value) (label : Option Label) (depth : Nat) :
    Stage last (m.enterBound r g args label depth) := by
  unfold Machine.enterBound
  simp only
  split
  · next hcontrol =>
    rcases Option.or_eq_some_iff.mp hcontrol with hentry | ⟨-, hpassing⟩
    · exact h.overflow hentry
    · exact h.overflow hpassing
  · exact h.withStack (fun h => h.runNative _ _) _ depth

theorem call (h : Homed last m) (f : Value) (args : List Value) (label : Option Label) (depth : Nat) :
    Stage last (m.call f args label depth) := by
  unfold Machine.call
  split
  · exact h.proceed _
  · exact h.runNative _ _
  · split
    · exact h.enterScript ..
    · exact h.enterBound ..
    · exact h.proceed _
  · exact h.proceed _

theorem failNative (h : Homed last m) (c : Caller) (f : Fault) : Stage last (m.failNative c f) := by
  cases f <;> exact h.proceed _

theorem answer_away (h : Homed last m) (hresumers : m.resumers ≠ []) (vs : List Value) : Stage last (m.answer vs) := by
  unfold Machine.answer
  split
  · exact .calm (h.refit rfl rfl rfl fun hnone => absurd hnone hresumers) rfl
  · exact h.proceed _

theorem handBack (h : Homed last m) (hresumers : m.resumers ≠ []) (state : Thread) (vs : List Value) :
    Stage last (m.handBack state vs) := by
  cases h with
  | home hnone => exact absurd hnone hresumers
  | @away resumers c k fs hr hspine =>
    unfold Machine.handBack
    cases resumers with
    | nil =>
      -- back to the main coroutine, whose call of `resume` is answered
      rw [hr]
      exact .calm (.home rfl rfl hspine) rfl
    | cons r rest =>
      rw [hr]
      have haway : Homed last { (m.setThread m.running state).setThread r.thread .running with
          frames := r.frames, running := r.thread, resumers := rest ++ [⟨0, .native c none k :: fs⟩] } := .away rfl hspine
      exact haway.answer_away (by simp) vs

theorem switchTo (h : Homed last m) (c : Caller) (k : Waiting) (t : Nat) (frames : List Frame) :
    Homed last (m.switchTo c k t frames) ∧ (m.switchTo c k t frames).resumers ≠ [] := by
  refine ⟨?_, by simp [Machine.switchTo]⟩
  cases h with
  | home hr hmain hspine =>
    have hnext : (m.switchTo c k t frames).resumers = [] ++ [⟨0, .native c none k :: m.frames⟩] := by
      simp [Machine.switchTo, Machine.setThread, hr, hmain]
    exact .away hnext hspine
  | @away resumers c' k' fs hr hspine =>
    have hnext : (m.switchTo c k t frames).resumers =
        (⟨m.running, .native c none k :: m.frames⟩ :: resumers) ++ [⟨0, .native c' none k' :: fs⟩] := by
      simp [Machine.switchTo, Machine.setThread, hr]
    exact .away hnext hspine

theorem resume (h : Homed last m) (c : Caller) (k : Waiting) (t : Nat) (args : List Value) :
    Stage last (m.resume c k t args) := by
  unfold Machine.resume
  simp only
  split
  · exact h.runNative _ _
  · split
    · exact (h.switchTo ..).1.proceed _
    · exact (h.switchTo ..).1.runNative _ _
    · exact h.runNative _ _
    · exact h.runNative _ _

theorem yield (h : Homed last m) (c : Caller) (k : Waiting) (vs : List Value) : Stage last (m.yield c k vs) := by
  unfold Machine.yield
  simp only
  split
  · exact h.proceed _
  · next hrunning =>
    split
    · exact h.proceed _
    · refine h.handBack (fun hnone => hrunning ?_) _ _
      cases h with
      | home _ hmain => exact hmain
      | away hr => simp [hr] at hnone

theorem callDeeper (h : Homed last m) (f : Value) (args : List Value) (label : Option Label) (depth : Nat) :
    Stage last (m.callDeeper f args label depth) := h.proceed _

/-- Closing goes on until all is closed; then the protected call below answers what failed. -/
theorem closeNext (h : Homed last m) {vs : List Value} {failure : Option Raised} {inherits : Bool} {depth weight : Nat}
    {rest : List Frame} (hframes : m.frames = .closing vs failure inherits depth weight :: rest) :
    Stage last m.closeNext := by
  unfold Machine.closeNext
  rw [hframes]
  cases vs with
  | cons v vs =>
    have hnext : Homed last { m with frames := .closing vs failure inherits depth weight :: rest } := by
      refine h.refit rfl rfl rfl fun _ hspine => ?_
      rw [hframes] at hspine
      cases hspine with
      | escaped hlast => exact .escaped hlast
      | closing hspine => exact .closing hspine
    exact hnext.callDeeper ..
  | nil =>
    simp only
    cases h with
    | home hr hmain hspine =>
      rw [hframes] at hspine
      cases hspine with
      | @escaped _ r _ _ _ _ hlast =>
        exact .leaving hr rfl (Or.inr ⟨r, hlast, rfl⟩) (Or.inr ⟨_, _, rfl⟩)
      | closing hspine => exact .calm (.home hr hmain hspine) rfl
    | away hr hspine =>
      have hsome : m.resumers ≠ [] := by simp [hr]
      split
      · exact handBack (m := { m with frames := [] }) (.away hr hspine) hsome _ _
      · exact answer_away (m := { m with frames := rest }) (.away hr hspine) hsome _

theorem closeThread (h : Homed last m) (c : Caller) (k : Waiting) (t : Nat) : Stage last (m.closeThread c k t) := by
  unfold Machine.closeThread
  simp only
  split <;> exact (h.switchTo ..).1.closeNext rfl

/-- An ordinary error that meets no handler is caught by something else than the protected call of the run. -/
theorem raise (h : Homed last m) (e : Raised) (depth : Nat) : Stage last (m.raise e depth) := by
  unfold Machine.raise
  split
  · next v f hhandler =>
    split
    · exact .unwinding (h.of_eq rfl rfl rfl rfl) rfl fun v hv => nomatch hv
    · split
      · exact h.proceed _
      · -- the handler that is called is the trap if no other protected call is open
        by_cases hbare : m.resumers = [] ∧ catchers m.frames = 1
        · cases h with
          | away hr => exact absurd (hr.symm.trans hbare.1) (by simp)
          | home hr hmain hspine =>
            rw [hspine.handlerOf_eq hbare.2] at hhandler
            cases hhandler
            exact .springing hr hmain rfl hspine (Or.inl ⟨v, _, rfl⟩)
        · refine (h.refit rfl rfl rfl fun hnone hspine => ?_ : Homed last (m.push _)).proceed _
          exact hspine.report fun hone => absurd ⟨hnone, hone⟩ hbare
  · next hhandler =>
    refine .unwinding (h.of_eq rfl rfl rfl rfl) rfl fun v hv hnone hbare => ?_
    cases h with
    | away hr => exact absurd (hr.symm.trans hnone) (by simp)
    -- an ordinary error that met no handler was not below the trap alone
    | home hr hmain hspine => exact absurd (hspine.handlerOf_eq hbare) (hhandler v _ hv)

theorem grant (h : Homed last m) (c : Caller) (r : Request) (k : Waiting) : Stage last (m.grant c r k) := by
  cases r with
  | call f args => exact (h.push .waiting).proceed _
  | protect handler f args => exact (h.push .guarded).proceed _
  | spawn f => exact .calm (h.of_eq rfl rfl rfl rfl) rfl
  | resume t args => exact h.resume c k t args
  | yield vs => exact h.yield c k vs
  | close t => exact h.closeThread c k t
  | failed t =>
    simp only [Machine.grant]
    split <;> exact h.runNative _ _
  | claim size =>
    simp only [Machine.grant]
    split
    · exact .calm (h.of_eq rfl rfl rfl rfl) rfl
    · exact h.failNative c .memory
  | trap => exact h.trap.runNative _ _
  | _ => exact .calm (h.of_eq rfl rfl rfl rfl) rfl

theorem request (h : Homed last m) (c : Caller) (r : Request) (k : Waiting) : Stage last (m.request c r k) := by
  unfold Machine.request
  split
  · exact h.grant c r k
  · exact h.failNative c .memory

theorem stepNative (h : Homed last m) (c : Caller) (r : Resumption (List Value)) : Stage last (m.stepNative c r) := by
  cases r with
  | done vs heap => exact .calm (h.of_eq rfl rfl rfl rfl) rfl
  | fault f heap =>
    refine failNative ?_ c f
    exact h.of_eq rfl rfl rfl rfl
  | ask r heap k =>
    refine request ?_ c r k
    exact h.of_eq rfl rfl rfl rfl

theorem arrive (h : Homed last m) (vs : List Value) : Stage last (m.arrive vs) := by
  unfold Machine.arrive
  split
  · exact h.inScript _
  · next c guard k rest hframes =>
    cases h with
    | away hr hspine => exact .calm (.away hr hspine) rfl
    | home hr hmain hspine =>
      rw [hframes] at hspine
      cases hspine with
      | bottom hlast => exact .leaving hr rfl (Or.inl ⟨hlast, vs, rfl⟩) (Or.inr ⟨_, _, rfl⟩)
      | waiting hspine => exact .calm (.home hr hmain hspine) rfl
      | guarded hspine => exact .calm (.home hr hmain hspine) rfl
  · next depth weight rest hframes =>
    cases h with
    | away hr hspine =>
      exact .unwinding (.away hr hspine) rfl fun _ _ hnone => absurd (hr.symm.trans hnone) (by simp)
    | home hr hmain hspine =>
      rw [hframes] at hspine
      cases hspine with
      | report hspine htrapped => exact .unwinding (.home hr hmain hspine) rfl fun _ _ _ hbare => htrapped hbare
  · next hframes => exact h.closeNext hframes
  · next place rest hframes =>
    cases h with
    | away hr hspine => exact .calm (.away hr hspine) rfl
    | home hr hmain hspine =>
      rw [hframes] at hspine
      nomatch hspine
  · next hframes =>
    refine h.handBack (fun hnone => ?_) _ _
    cases h with
    | away hr => exact absurd (hr.symm.trans hnone) (by simp)
    | home hr hmain hspine =>
      rw [hframes] at hspine
      nomatch hspine

theorem die_away (h : Homed last m) (hresumers : m.resumers ≠ []) (e : Raised) (pending : List Value) :
    Stage last (m.die e pending) := by
  have hempty : Homed last { m with frames := [] } := h.refit rfl rfl rfl fun hnone => absurd hnone hresumers
  unfold Machine.die
  simp only
  exact hempty.handBack hresumers _ _

/-- Frames are left in another coroutine: whatever catches the error there, the main coroutine stays as it is. -/
theorem unwind_away (h : Homed last m) (hresumers : m.resumers ≠ []) (e : Raised) : Stage last (m.unwind e) := by
  have hfit (frames : List Frame) : Homed last { m with frames } :=
    h.refit rfl rfl rfl fun hnone => absurd hnone hresumers
  unfold Machine.unwind
  simp only
  split
  · exact (hfit _).closeNext rfl
  · exact (hfit _).closeNext rfl
  · exact h.die_away hresumers e _

/-- Frames are left in the main coroutine: either something catches the error, or it is the last one that escaped. -/
theorem unwind_home (hresumers : m.resumers = []) (hrunning : m.running = 0) (hspine : Spine last m.trapped m.frames)
    (e : Raised) : Stage (if catchers m.frames = 1 then some e else last) (m.unwind e) := by
  obtain ⟨pending, fs, hdrop, hspine, hcatchers, hshape⟩ := hspine.dropFrames []
  -- the frames that were left caught nothing, so that the others tell which protected call it is
  rw [← hcatchers]
  unfold Machine.unwind
  rcases hshape with ⟨c, g, k, rest, rfl⟩ | ⟨vs, failure, depth, weight, rest, rfl⟩
  · simp only [hdrop]
    refine closeNext (.home hresumers hrunning ?_) rfl
    cases hspine with
    | bottom hlast => exact .escaped rfl
    | guarded hspine =>
      have hpos := hspine.catchers_pos
      rw [if_neg (by simp only [catchers_guarded]; omega)]
      exact .closing hspine
  · simp only [hdrop]
    refine closeNext (.home hresumers hrunning ?_) rfl
    cases hspine with
    | escaped hlast => exact .escaped rfl
    | closing hspine =>
      have hpos := hspine.catchers_pos
      rw [if_neg (by simp only [catchers_closing, catchers_guarded]; omega)]
      exact .closing hspine

end Homed

namespace Stage

variable {last : Option Raised} {m : Machine}

theorem perform (h : Homed last m) (t : Task) : Stage last (m.perform t) := by
  cases t with
  | eval e => exact h.inScript fun m a => m.eval a e
  | evalAll e tail => exact h.inScript fun m a => m.evalAll a tail e
  | value v => exact h.inScript fun m a => m.receive a v
  | leave x => exact h.inScript fun m a => m.leave a x
  | store line pairs => exact h.store line pairs
  | make p slot => exact h.make p slot
  | values vs => exact h.arrive vs
  | call f args label depth => exact h.call f args label depth
  | raise e depth => exact h.raise e depth

theorem hostAnswer (h : Homed last m) (answer : Except GuestError Value) (c : Caller) (k : Waiting) :
    Stage last (m.hostAnswer answer c k) := by
  cases answer with
  | ok v => exact h.runNative _ _
  | error e => exact .calm (h.of_eq rfl rfl rfl rfl) rfl

/-- A step keeps the stage, and notes the error that escapes in it. -/
theorem step (h : Stage last m) : Stage (m.escaping?.or last) m.step := by
  unfold Machine.escaping? Machine.step
  -- outside of the calm stage the control admits one step; an error escapes in the unwinding of the main coroutine alone
  cases h with
  | calm hhomed hcontrol =>
    cases hc : m.control with
    | task t => exact perform hhomed t
    | native c r => exact hhomed.stepNative c r
    | host frame c k => exact .calm hhomed (by simpa [hc] using hcontrol)
    | unwind e => simp [hc, Control.isCalm] at hcontrol
    | done outcome => simp [hc, Control.isCalm] at hcontrol
  | @unwinding e hhomed hcontrol hmet =>
    rw [hcontrol]
    cases hhomed with
    | home hresumers hrunning hspine =>
      have hunwind := Homed.unwind_home hresumers hrunning hspine e
      by_cases hbare : catchers m.frames = 1
      · simpa [hresumers, hbare] using hunwind
      · simpa [hresumers, hbare] using hunwind
    | away hresumers hspine =>
      have hsome : m.resumers ≠ [] := by simp [hresumers]
      simpa [hsome] using Homed.unwind_away (.away hresumers hspine) hsome e
  | springing hresumers hrunning hframes hspine hcontrol =>
    rcases hcontrol with ⟨v, d, hcontrol⟩ | ⟨c, heap, k, hcontrol⟩
    · rw [hcontrol]
      exact .springing hresumers hrunning hframes hspine (Or.inr ⟨_, _, _, rfl⟩)
    · rw [hcontrol]
      have htrap : Homed last { m with heap, trapped := true } :=
        .home hresumers hrunning (hframes ▸ hspine.trap.report fun _ => rfl)
      exact htrap.runNative _ _
  | leaving hresumers hframes htold hcontrol =>
    rcases hcontrol with hcontrol | ⟨c, heap, hcontrol⟩
    · rw [hcontrol]
      simp only [Machine.perform, Machine.arrive, hframes]
      exact .left hresumers rfl htold (Or.inl rfl)
    · rw [hcontrol]
      exact .leaving hresumers hframes htold (Or.inl rfl)
  | left hresumers hframes htold hcontrol =>
    rcases hcontrol with hcontrol | hcontrol
    · rw [hcontrol]
      simp only [Machine.perform, Machine.arrive, hframes, Machine.handBack, hresumers]
      exact .left hresumers hframes htold (Or.inr rfl)
    · rw [hcontrol]
      exact .left hresumers hframes htold (Or.inr hcontrol)

theorem told (h : Stage last m) {outcome : Except Raised (List Value)} (hdone : m.control = .done outcome) :
    ∃ vs, outcome = .ok vs ∧ Told last vs := by
  cases h with
  | calm _ hcontrol => simp [hdone, Control.isCalm] at hcontrol
  | unwinding _ hcontrol _ => simp [hdone] at hcontrol
  | springing _ _ _ _ hcontrol => simp [hdone] at hcontrol
  | leaving _ _ _ hcontrol => simp [hdone] at hcontrol
  | left _ _ htold hcontrol =>
    rcases hcontrol with hcontrol | hcontrol
    · simp [hdone] at hcontrol
    · rw [hdone] at hcontrol
      cases hcontrol
      exact ⟨_, rfl, htold⟩

/-- An ordinary error that escapes has sprung the trap. -/
theorem escaping_trapped (h : Stage last m) {v : Value} (he : m.escaping? = some (.ordinary v)) : m.trapped = true := by
  unfold Machine.escaping? at he
  cases hc : m.control with
  | unwind e =>
    simp only [hc, Option.ite_none_right_eq_some, Bool.and_eq_true, List.isEmpty_iff, beq_iff_eq,
      Option.some.injEq] at he
    obtain ⟨⟨hresumers, hbare⟩, rfl⟩ := he
    cases h with
    | unwinding hhomed hcontrol hmet =>
      rw [hc] at hcontrol
      cases hcontrol
      exact hmet v rfl hresumers hbare
    | calm hhomed hcontrol => simp [hc, Control.isCalm] at hcontrol
    | springing _ _ _ _ hcontrol => simp [hc] at hcontrol
    | leaving _ _ _ hcontrol => simp [hc] at hcontrol
    | left _ _ _ hcontrol => simp [hc] at hcontrol
  | _ => simp [hc] at he

end Stage

namespace Machine

theorem store_trapped (m : Machine) (line : Nat) (pairs : List (Place × Value)) :
    (m.store line pairs).trapped = m.trapped := by
  unfold store
  split
  · simp only
    exact congrArg Prod.snd (settle_marks _ _ _)
  · rfl

/-- The trap is noted in the step that springs it, and in no other. -/
theorem step_trapped (m : Machine) : m.step.trapped = (m.trapped || m.springs) := by
  have of_marks {m' : Machine} (h : m'.marks = m.marks) : m'.trapped = m.trapped := congrArg Prod.snd h
  unfold step springs
  cases m.control with
  | task t =>
    simp only [Bool.or_false]
    cases t with
    | store line pairs => exact m.store_trapped line pairs
    | make p slot => exact (m.make_marks p slot).2
    | values vs => exact of_marks (m.arrive_marks vs)
    | call f args label depth => exact of_marks (m.call_marks f args label depth)
    | raise e depth => exact of_marks (m.raise_marks e depth)
    | _ => exact of_marks (m.inScript_marks _)
  | native c r =>
    cases r with
    | done vs h => simp [stepNative, proceed, goto]
    | fault f h => exact (of_marks (failNative_marks { m with heap := h } c f)).trans (Bool.or_false _).symm
    | ask r h k =>
      by_cases hr : r = .trap
      · subst hr
        rw [Bool.or_true]
        rfl
      · have hsame := request_trapped { m with heap := h } c k hr
        cases r with
        | trap => exact absurd rfl hr
        | _ => exact hsame.trans (Bool.or_false _).symm
  | unwind e => simpa using of_marks (m.unwind_marks e)
  | host frame c k => simp
  | done outcome => simp

end Machine

/-- The stage of a machine, and that the trap was sprung if the last error that escaped is an ordinary one. -/
structure Watched (last : Option Raised) (m : Machine) : Prop where
  stage : Stage last m
  met : ∀ v, last = some (.ordinary v) → m.trapped = true

namespace Watched

variable {last : Option Raised} {m : Machine}

theorem step (h : Watched last m) : Watched (m.escaping?.or last) m.step := by
  refine ⟨h.stage.step, fun v hv => ?_⟩
  rw [Machine.step_trapped, Bool.or_eq_true]
  left
  cases he : m.escaping? with
  | none =>
    rw [he, Option.none_or] at hv
    exact h.met v hv
  | some r =>
    rw [he, Option.some_or] at hv
    cases hv
    exact h.stage.escaping_trapped he

theorem hostAnswer (h : Watched last m) {frame : List Value} {c : Caller} {k : Waiting}
    (hcontrol : m.control = .host frame c k) (answer : Except GuestError Value) :
    Watched last (m.hostAnswer answer c k) := by
  refine ⟨?_, fun v hv => ?_⟩
  · cases h.stage with
    | calm hhomed _ => exact Stage.hostAnswer hhomed answer c k
    | unwinding _ hunwind _ => simp [hcontrol] at hunwind
    | springing _ _ _ _ hspring => simp [hcontrol] at hspring
    | leaving _ _ _ hleave => simp [hcontrol] at hleave
    | left _ _ _ hleft => simp [hcontrol] at hleft
  · exact (m.hostAnswer_trapped answer c k).trans (h.met v hv)

end Watched

theorem Interpreter.start_watched (i : Interpreter) (c : Chunk) : Watched none (i.start c) := by
  have hready : Homed none i.ready := .home rfl rfl (.bottom rfl)
  exact ⟨hready.enterScript .., fun v hv => nomatch hv⟩

end ScriptHost.Lua
