import ScriptHost.Proofs.HostCall
import ScriptHost.Proofs.Machine.ProxyFunctions
import ScriptHost.Proofs.Proxy

/-! # Calls of host functions from scripts

A script calls a function of the host as a method of a proxy. The proxy has a function for every name, made anew at each
access, and the function checks that it is called on the very object that it was asked of. Then what is sent to the
dispatcher is the frame of a call from the host, and both ways of calling end alike. -/

namespace ScriptHost

open Lua (Value Machine Bytes bytes)

namespace Lua

/-- A machine that is about to look up the field of an object for a call in a script function, as the last thing that the
function does if `tail` holds. The object is an untouched proxy, or inherits the field from one. -/
structure ProxyCall (m : Machine) (captured : Array Captured) (a : Activation) (rest : List Frame) (tail : Bool)
    (space : Bytes) (p : Nat) (o k : Value) (front : List Value) (args : List Expr) : Prop where
  call : ∃ top t, m.control = .task t ∧ m.frames = .script captured top :: rest ∧
    FieldCall (m.vault.scope captured) a o k tail top t front args
  proxy : IsProxy m.heap m.vault space p
  object : m.heap.index o k = m.heap.index (.table p) k

theorem ProxyCall.lookup {m : Machine} {captured : Array Captured} {a : Activation} {rest : List Frame} {tail : Bool}
    {space : Bytes} {p : Nat} {o k : Value} {front : List Value} {args : List Expr}
    (h : ProxyCall m captured a rest tail space p o k front args) :
    ProxyLookup m captured a rest tail space p o k front args :=
  ⟨h.call, by rw [h.object]; exact h.proxy.index k⟩

end Lua

namespace Engine

variable {α σ : Type}

open Lua (Leads ProxyCall HasLookupRoom Raised Frame Captured Activation Goal)
open Marshal (Carries)
open Session (Alike)
open Dispatch (direct)

/-- How a call from a script ends as a call from the host does: with the same result for the function that called, or by
an error whose object stands for the same failure. -/
inductive EndsAs (calling m : Machine) : Except ExecutionError Int32 → Prop where
  | returned {n : Int32} (hcontrol : m.control = .task (.values [.int n.toInt64])) (hframes : m.frames = calling.frames) :
    EndsAs calling m (.ok n)
  | failed {r depth : Nat} {layer : Lua.GuestError} {f : CallFailure}
    (hcontrol : m.control = .task (.raise (.ordinary (.error r)) depth)) (hframes : m.frames = calling.frames)
    (hlayer : m.vault.errors[r]? = some layer) (hfailure : layer.callFailure? = some f) :
    EndsAs calling m (.error (.ofFailure f))

/-- What comes of calling the function of the name `k` with `t` and other values, which was asked of the proxy `p`. With
room for it, exactly the frame of the call is sent to the host when `t` is the proxy itself, and otherwise the script is
told how to call, without asking the host. Without room the error is one of the machine's own. A frame that is sent for
arguments that cross the border ends as the call from the host does, whatever the host is: with the same answer, and with
the bridge and the host in the same state. -/
structure MemberOutcome (host : Host α σ) (s : Session α σ) (m : Machine) (space : Bytes) (p : Nat) (k t : Value)
    (vs : List Value) : Prop where
  sends : t.rawEq (.table p) → m.HasRoomToEnter vs.length → m.HasRoomToPass vs.length → m.Sends (.str space :: k :: vs)
  complains : ¬ t.rawEq (.table p) → m.HasRoomToEnter vs.length → m.HasRoomToComplain vs.length →
    ∃ place, m.Raises (.ordinary (.str (place ++ bytes "use ns:func() syntax")))
  exhausts : ¬ m.HasRoomToEnter vs.length ∨ t.rawEq (.table p) ∧ ¬ m.HasRoomToPass vs.length ∨
    ¬ t.rawEq (.table p) ∧ ¬ m.HasRoomToComplain vs.length → m.Exhausts
  agrees : ∀ (e : Engine α σ) (key : Key) (args : List Argument), t.rawEq (.table p) → m.HasRoomToEnter vs.length →
    m.HasRoomToPass vs.length → space = bytes key.space → k = .ofText key.name → Marshal.toArguments vs = .ok args →
    Alike s e.session → e.interpreter.heap.hasRoom e.interpreter.limit (frameSize key args) →
    ∃ s' m', Goes host s m s' m' ∧ Alike s' (e.invoke host key args).2.session ∧ EndsAs m m' (e.invoke host key args).1

section Member

variable {m : Machine} {g p : Nat} {t : Value} {vs : List Value} {label : Option Lua.Label} {depth : Nat}

/-- A call that is sent ends as the call from the host, and leaves the host and the bridge in the same state. -/
theorem member_endsAs {key : Key} {args : List Argument}
    (hg : m.vault.closures[g]? = some (.bound (.member (bytes key.space) (.ofText key.name) (.table p))))
    (hcontrol : m.control = .task (.call (.closure g) (t :: vs) label depth)) (ht : t.rawEq (.table p))
    (henter : m.HasRoomToEnter vs.length) (hpass : m.HasRoomToPass vs.length) (hargs : List.Forall₂ Carries vs args)
    (host : Host α σ) {s : Session α σ} {e : Engine α σ} (hsame : Alike s e.session)
    (hmemory : e.interpreter.heap.hasRoom e.interpreter.limit (frameSize key args)) :
    ∃ s' m', Goes host s m s' m' ∧ Alike s' (e.invoke host key args).2.session ∧
      EndsAs m m' (e.invoke host key args).1 := by
  have hleads := (Machine.within_member hg hcontrol ht henter hpass).leads
  -- both ways are compared with the direct call, from the two sessions
  obtain ⟨⟨answer, after⟩, hdirect⟩ : ∃ r, direct host s.bridge.registry key args s.host = r := ⟨_, rfl⟩
  have hinvoked : direct host e.session.bridge.registry key args e.session.host = (answer, after) := by
    rw [← hsame.bridge, ← hsame.host, hdirect]
  cases answer with
  | ok n =>
    obtain ⟨s', hrun, hhost, hbridge⟩ := Dispatch.run_of_direct_ok host s key hargs hdirect
    obtain ⟨hanswer, hhost', hbridge'⟩ := invoke_of_direct_ok host hmemory hinvoked
    refine ⟨s', _, ((Goes.of_leads hleads host s).trans (.answered rfl hrun)).trans
      (.of_leads (.single rfl rfl) host s'), ?_, ?_⟩
    · exact ⟨by rw [hbridge, hbridge', hsame.bridge], by rw [hhost, hhost']⟩
    · rw [hanswer]
      exact .returned rfl rfl
  | error f =>
    obtain ⟨s', hrun, hhost, hbridge⟩ := Dispatch.run_of_direct_error host s key hargs hdirect
    obtain ⟨hanswer, hhost', hbridge'⟩ := invoke_of_direct_error host hmemory hinvoked
    refine ⟨s', _, (Goes.of_leads hleads host s).trans (.answered rfl hrun), ?_, ?_⟩
    · exact ⟨by rw [hbridge, hbridge', hsame.bridge], by rw [hhost, hhost']⟩
    · rw [hanswer]
      exact .failed rfl rfl Array.getElem?_push_size rfl

theorem carries_of_toArguments {vs : List Value} {args : List Argument} (h : Marshal.toArguments vs = .ok args) :
    List.Forall₂ Carries vs args := by
  rcases Marshal.toArgumentsFrom_cases vs 1 with ⟨args', hargs, hall⟩ | ⟨i, v, -, hargs⟩
  · cases h.symm.trans hargs
    exact hall
  · cases h.symm.trans hargs

theorem memberOutcome {space : Bytes} {k : Value}
    (hg : m.vault.closures[g]? = some (.bound (.member space k (.table p))))
    (hcontrol : m.control = .task (.call (.closure g) (t :: vs) label depth)) (host : Host α σ) (s : Session α σ) :
    MemberOutcome host s m space p k t vs where
  sends ht henter hpass := ⟨_, _, (Machine.within_member hg hcontrol ht henter hpass).leads, rfl⟩
  complains ht henter hcomplain :=
    ⟨_, _, (Machine.within_member_misused hg hcontrol ht henter hcomplain).leads, Or.inl ⟨_, rfl⟩⟩
  exhausts := Machine.member_exhausts hg hcontrol
  agrees := by
    rintro e key args ht henter hpass rfl rfl hargs hsame hmemory
    exact member_endsAs hg hcontrol ht henter hpass (carries_of_toArguments hargs) host hsame hmemory

end Member

/-- What comes of calling the field `k` of an untouched proxy with `t` and other values. If there is room for looking the
field up, a function `g` is made for it, and once the arguments are evaluated, which may take any runs, it is called with
their values. If there is no room, the error is one of the machine's own. -/
theorem call_on_proxy {m : Machine} {captured : Array Captured} {a : Activation} {rest : List Frame} {tail : Bool}
    {space : Bytes} {p : Nat} {o k : Value} {front : List Value} {es : List Lua.Expr}
    (h : ProxyCall m captured a rest tail space p o k front es) (host : Host α σ) (s : Session α σ) :
    let g : Value := .closure m.vault.closures.size
    (HasLookupRoom m a.depth → ∃ line callLine called, ∀ (t : Value) (vs : List Value) (y : Point α σ),
        Evaluates host captured rest (.ofCall tail callLine called) (g :: front).reverse es
          ⟨s, m.withMember space k p, { a with line }⟩ (g :: t :: vs) y →
        ∃ line' label, let calling := y.machine.calling captured y.top rest tail line' g (t :: vs) label
          Goes host s m y.session calling ∧ MemberOutcome host y.session calling space p k t vs) ∧
      (¬ HasLookupRoom m a.depth → m.Exhausts) := by
  refine ⟨fun hroom => ?_, h.lookup.exhausts⟩
  obtain ⟨line, kont, callLine, called, hwaits, hmade⟩ := h.lookup.within_made hroom
  refine ⟨line, callLine, called, fun t vs y hargs => ?_⟩
  let made := m.withMember space k p
  let top : Activation := { a with line, kont := kont :: a.kont }
  have hstep : (made.onTop captured top rest (.value (.closure m.vault.closures.size))).step =
      made.turned captured rest ((made.workspace captured).receive top (.closure m.vault.closures.size)) :=
    Machine.step_value _
  have hevaluated := hargs.goes rfl (hstep.trans (congrArg (Machine.turned _ captured rest) (hwaits _ { a with line } _)))
  have hg : y.machine.vault.closures[m.vault.closures.size]? = some (.bound (.member space k (.table p))) :=
    hargs.closures (fun _ => rfl) (m.withMember_closure space k p)
  obtain ⟨line', label, hcalling⟩ := Machine.turned_reach_call (by rw [hg]; rfl) captured y.top rest tail callLine called
    (t :: vs)
  rw [hcalling] at hevaluated
  exact ⟨line', label, (Goes.of_leads hmade.leads host s).trans hevaluated,
    memberOutcome (m := y.machine.calling captured y.top rest tail line' _ _ label) hg rfl host y.session⟩

-- The machines below call `app:least(v)` in the middle of a run.

def appProxy (e : Engine α σ) : Nat :=
  match e.interpreter.heap.rawGet e.interpreter.vault.proxies (.ofText "app") with
  | .table p => p
  | _ => 0

def besideApp (e : Engine α σ) : Activation where
  proto := .mk (bytes "") 0 0 false [] 1 []
  slots := #[.plain (.table e.appProxy)]
  varargs := []
  line := 1
  kont := []
  depth := 2
  weight := 1

def callingLeast (e : Engine α σ) (v : Value) : Machine :=
  { e.interpreter.ready with
    control := .task (.evalAll (.method 1 (.slot 0 (bytes "app")) (bytes "least") 1 [.const v]) false)
    frames := [.script #[] e.besideApp] }

theorem callingLeast_proxyCall (e : Engine α σ) (v : Value)
    (h : Lua.proxySpace? e.interpreter.heap e.interpreter.vault e.appProxy = some (bytes "app")) :
    ProxyCall (e.callingLeast v) #[] e.besideApp [] false (bytes "app") e.appProxy (.table e.appProxy)
      (.ofText "least") [.table e.appProxy] [.const v] where
  call := ⟨_, _, rfl, rfl, .method rfl rfl⟩
  proxy := Lua.isProxy_of_proxySpace h
  object := rfl

theorem table_rawEq_self (p : Nat) : (Value.table p).rawEq (.table p) := beq_self_eq_true p

theorem room_calling {m : Machine} {a : Activation} (hweight : a.weight = 1) (hstack : m.stack = Lua.firstStack)
    (hmemory : m.affords Lua.Vault.errorSize) (captured : Array Captured) (rest : List Frame) (line : Nat) (f : Value)
    (vs : List Value) (label : Option Lua.Label) :
    (m.calling captured a rest false line f vs label).HasRoomToEnter 1 ∧
      (m.calling captured a rest false line f vs label).HasRoomToPass 1 := by
  let calling := m.calling captured a rest false line f vs label
  have hcalling : calling.weight = 1 := hweight
  have hfits {slots : Nat} (h : slots ≤ Lua.firstStack) : slots ≤ calling.stack := h.trans hstack.ge
  have hgrow : calling.grow (1 + (27 + 1) + 1) = calling := Machine.grow_of_le (hfits (by decide))
  rw [Machine.HasRoomToEnter, Machine.HasRoomToPass, hcalling, hgrow]
  exact ⟨Machine.hasStack_of_le (by decide) (hfits (by decide)), Machine.hasStack_of_le (by decide) (hfits (by decide)),
    hmemory⟩

theorem call_on_proxy_least :
    let m := numeralEngine.callingLeast (.bool true)
    ∃ calling s' m', Goes numerals.recording numeralEngine.session m numeralEngine.session calling ∧
      calling.Sends [.ofText "app", .ofText "least", .bool true] ∧
      Goes numerals.recording numeralEngine.session calling s' m' ∧ EndsAs calling m' (.ok Int32.minValue) := by
  have hspace : Lua.proxySpace? numeralEngine.interpreter.heap numeralEngine.interpreter.vault numeralEngine.appProxy =
      some (bytes "app") := by
    decide +kernel
  have hcall := numeralEngine.callingLeast_proxyCall (.bool true) hspace
  have hroom : HasLookupRoom (numeralEngine.callingLeast (.bool true)) numeralEngine.besideApp.depth :=
    ⟨by decide, by decide, by decide +kernel⟩
  obtain ⟨line, callLine, called, houtcome⟩ := (call_on_proxy hcall numerals.recording numeralEngine.session).1 hroom
  obtain ⟨line', label, hgoes, hmember⟩ := houtcome (.table numeralEngine.appProxy) [.bool true] _ .const
  dsimp only at hgoes hmember
  have hself := table_rawEq_self numeralEngine.appProxy
  let made := (numeralEngine.callingLeast (.bool true)).withMember (bytes "app") (.ofText "least") numeralEngine.appProxy
  have hmemory : made.affords Lua.Vault.errorSize := by decide +kernel
  have hinvoked : numeralEngine.interpreter.heap.hasRoom numeralEngine.interpreter.limit
      (frameSize ⟨"app", "least"⟩ [.bool true]) := by
    decide +kernel
  have hanswer : (numeralEngine.invoke numerals.recording ⟨"app", "least"⟩ [.bool true]).1 = .ok Int32.minValue := by
    decide +kernel
  obtain ⟨henter, hpass⟩ := room_calling (a := { numeralEngine.besideApp with line }) rfl rfl hmemory #[] [] line' _ _ label
  obtain ⟨s', m', hends, -, hlast⟩ := hmember.agrees numeralEngine ⟨"app", "least"⟩ [.bool true] hself henter hpass rfl rfl
    rfl (.refl _) hinvoked
  rw [hanswer] at hlast
  exact ⟨_, s', m', hgoes, hmember.sends hself henter hpass, hends, hlast⟩

-- The script below calls itself in protected calls until there is no room for one more, and then calls a method of the
-- proxy once.

/-- Whether a machine is about to call a method of an untouched proxy without arguments. -/
def callsOnProxy (space name : Bytes) (m : Machine) : Bool :=
  match m.control, m.frames with
  | .task (.evalAll (.method _ object n _ []) _), .script captured a :: _ =>
    decide (n = name) &&
      match object.value? (m.vault.scope captured) a with
      | some (.table p) => decide (Lua.proxySpace? m.heap m.vault p = some space)
      | _ => false
  | _, _ => false

theorem exists_proxyCall {space name : Bytes} {m : Machine} (h : callsOnProxy space name m) :
    ∃ captured a rest tail p, ProxyCall m captured a rest tail space p (.table p) (.str name) [.table p] [] := by
  unfold callsOnProxy at h
  split at h
  · next line object n callLine tail captured a rest hcontrol hframes =>
    obtain ⟨hname, h⟩ := Bool.and_eq_true_iff.mp h
    split at h
    · next p hobject =>
      exact ⟨captured, a, rest, tail, p, ⟨a, _, hcontrol, hframes, .method hobject (by rw [of_decide_eq_true hname])⟩,
        Lua.isProxy_of_proxySpace (of_decide_eq_true h), rfl⟩
    · cases h
  · cases h

def isDone (m : Machine) : Bool :=
  match m.control with
  | .done _ => true
  | _ => false

theorem exists_outcome {m : Machine} (h : isDone m) : ∃ outcome, m.control = .done outcome := by
  unfold isDone at h
  split at h
  · next hcontrol => exact ⟨_, hcontrol⟩
  · cases h

def nestedScript : String :=
  "local a, p, n = app, pcall, 0 local function f() p(f) if n == 0 then n = 1 a:least() end end f()"

def nestedEngine : Engine Int32 (Unit × List (Int32 × List Argument)) := (numeralEngine.load nestedScript).2

def limitedEngine : Engine Int32 (Unit × List (Int32 × List Argument)) :=
  ((create { memoryLimit := some 24500 } ((), [])).register ⟨"app", "least"⟩ Int32.minValue).2

/-- The run of the nested calls comes to a call of a method of the proxy whose frame is never sent. And where memory is
limited, a text can be too long for the call from the host that a script can send. -/
theorem call_on_proxy_without_room :
    (∃ c m captured a rest tail p, nestedEngine.compiled = some c ∧ Leads (nestedEngine.interpreter.start c) m ∧
      ProxyCall m captured a rest tail (bytes "app") p (.table p) (.ofText "least") [.table p] [] ∧
      ¬ m.Sends [.ofText "app", .ofText "least"]) ∧
      let text := "a text of more bytes than are left, as the call from the host counts them"
      (limitedEngine.callingLeast (.ofText text)).Sends [.ofText "app", .ofText "least", .ofText text] ∧
        (limitedEngine.invoke numerals.recording ⟨"app", "least"⟩ [.text text]).1 =
          .error Lua.Interpreter.outOfMemory.toExecutionError := by
  refine ⟨?_, ?_, by decide +kernel⟩
  · have hrun : nestedEngine.compiled.any fun c =>
        callsOnProxy (bytes "app") (bytes "least") (Machine.run 1009 (nestedEngine.interpreter.start c)) &&
          isDone (Machine.run 2000 (Machine.run 1009 (nestedEngine.interpreter.start c))) := by
      decide +kernel
    obtain ⟨c, hc, hcheck⟩ := (Option.any_eq_true _ _).mp hrun
    obtain ⟨hcalls, hdone⟩ := Bool.and_eq_true_iff.mp hcheck
    obtain ⟨captured, a, rest, tail, p, hcall⟩ := exists_proxyCall hcalls
    obtain ⟨outcome, houtcome⟩ := exists_outcome hdone
    exact ⟨c, _, captured, a, rest, tail, p, hc, .run 1009 _, hcall, Machine.not_sends_of_done (.run 2000 _) houtcome _⟩
  · have hspace : Lua.proxySpace? limitedEngine.interpreter.heap limitedEngine.interpreter.vault limitedEngine.appProxy =
        some (bytes "app") := by
      decide +kernel
    let text : Value := .ofText "a text of more bytes than are left, as the call from the host counts them"
    have hlookup := (limitedEngine.callingLeast_proxyCall text hspace).lookup
    obtain ⟨line, label, hhost⟩ := hlookup.within_host ⟨by decide, by decide, by decide +kernel⟩
      (fun line => .cons ⟨rfl, rfl⟩ .nil) (table_rawEq_self _) rfl rfl (by decide) (by decide) (by decide +kernel)
    exact ⟨_, _, hhost.leads, rfl⟩

end Engine

end ScriptHost
