import Mathlib.Data.List.Forall2
import ScriptHost.Proofs.Drive
import ScriptHost.Proofs.Machine.Leads

/-! # Calls of fields

A script calls a field of an object as `o[k](...)` or as a method. The field is looked up first, by a call one level
deeper if the metatable of the object has a function for that; then the arguments are evaluated one by one, by whatever
runs they take, and the function that was found is called with their values. -/

namespace ScriptHost

open Lua

namespace Lua

def Goal.ofCall (tail : Bool) (line : Nat) (label : Option Label) : Goal :=
  if tail then .tailCall line label else .call line label

/-- A function, with the continuations it has on top of those of `a`, comes to look up the field `k` of `o` for a call:
both are at hand, or the last of them has just been evaluated. The call has some arguments; a method has its object in
front of them. -/
inductive FieldCall (s : Scope) (a : Activation) (o k : Value) (tail : Bool) :
    Activation → Task → List Value → List Expr → Prop where
  | index {line indexLine : Nat} {object key : Expr} {args : List Expr} (hobject : object.value? s a = some o)
    (hkey : key.value? s a = some k) :
    FieldCall s a o k tail a (.evalAll (.call line (.index indexLine object key) args) tail) [] args
  | indexObject {line indexLine : Nat} {label : Option Label} {object key : Expr} {args : List Expr}
    (hkey : key.value? s a = some k) :
    FieldCall s a o k tail ((a.pushKont (.element [] args (.ofCall tail line label))).pushKont
      (.operand (.index indexLine object key) [] [key])) (.value o) [] args
  | indexKey {line indexLine : Nat} {label : Option Label} {object key : Expr} {x : Operand} {args : List Expr}
    (hobject : x.now s a = o) :
    FieldCall s a o k tail ((a.pushKont (.element [] args (.ofCall tail line label))).pushKont
      (.operand (.index indexLine object key) [x] [])) (.value k) [] args
  | method {line callLine : Nat} {object : Expr} {name : Bytes} {args : List Expr}
    (hobject : object.value? s a = some o) (hkey : k = .str name) :
    FieldCall s a o k tail a (.evalAll (.method line object name callLine args) tail) [o] args
  | methodObject {line callLine : Nat} {label : Option Label} {name : Bytes} {args : List Expr} (hkey : k = .str name) :
    FieldCall s a o k tail (a.pushKont (.methodObject tail line label name callLine args)) (.value o) [o] args

/-- An expression with one value that is at hand. -/
def Expr.Reads (s : Scope) (a : Activation) (e : Expr) (v : Value) : Prop := e.isMulti = false ∧ e.value? s a = some v

theorem Operand.now_pushKont (x : Operand) (s : Scope) (a : Activation) (k : Kont) :
    x.now s (a.pushKont k) = x.now s a := by
  cases x <;> rfl

theorem Expr.value?_pushKont (e : Expr) (s : Scope) (a : Activation) (k : Kont) :
    e.value? s (a.pushKont k) = e.value? s a := by
  cases e with
  | single e => cases e <;> rfl
  | _ => rfl

namespace Workspace

variable {m : Workspace} {a : Activation}

theorem evalList_nil (taken : List Value) (goal : Goal) : m.evalList a taken [] goal = m.reach a goal taken.reverse := rfl

theorem evalList_read {e : Expr} {es : List Expr} (hone : es ≠ [] ∨ e.isMulti = false) {v : Value}
    (hv : e.value? m.scope a = some v) (taken : List Value) (goal : Goal) :
    m.evalList a taken (e :: es) goal = m.evalList a (v :: taken) es goal := by
  cases es with
  | nil =>
    have hsingle : e.isMulti = false := hone.resolve_left fun h => h rfl
    simp [evalList, takeValues, hsingle, hv]
  | cons e' es => simp [evalList, takeValues, hv]

theorem evalList_run {e : Expr} {es : List Expr} (hone : es ≠ [] ∨ e.isMulti = false) (hnone : e.value? m.scope a = none)
    (taken : List Value) (goal : Goal) :
    m.evalList a taken (e :: es) goal = m.onTop (a.pushKont (.element taken es goal)) (.eval e) := by
  cases es with
  | nil =>
    have hsingle : e.isMulti = false := hone.resolve_left fun h => h rfl
    simp [evalList, takeValues, hsingle, hnone]
  | cons e' es => simp [evalList, takeValues, hnone]

theorem evalList_reads {es : List Expr} {vs : List Value} (h : List.Forall₂ (Expr.Reads m.scope a) es vs)
    (taken : List Value) (goal : Goal) : m.evalList a taken es goal = m.reach a goal (taken.reverse ++ vs) := by
  induction h generalizing taken with
  | nil => rw [evalList_nil, List.append_nil]
  | cons hv _ ih => rw [evalList_read (Or.inr hv.1) hv.2, ih, List.reverse_cons, List.append_assoc, List.singleton_append]

theorem evalList_varargs (taken : List Value) (goal : Goal) :
    m.evalList a taken [.vararg] goal = m.reach a goal (taken.reverse ++ a.varargs) := rfl

theorem evalList_runAll {e : Expr} (hmulti : e.isMulti = true) (hvararg : e ≠ .vararg) (taken : List Value) (goal : Goal) :
    m.evalList a taken [e] goal = m.onTop (a.pushKont (.spread taken goal)) (.evalAll e false) := by
  cases e with
  | vararg => exact absurd rfl hvararg
  | _ => simp [evalList, takeValues, hmulti]

theorem receive_operand (e : Expr) (taken : List Operand) (es : List Expr) (v : Value) :
    m.receive (a.pushKont (.operand e taken es)) v = m.evalOperands a e (.value v :: taken) es := rfl

/-- A field is looked up when both operands have been taken. -/
theorem evalOperands_index (line : Nat) (object key : Expr) {taken operands : List Operand} {es : List Expr} {o k : Value}
    (htaken : takeOperands m.scope a true taken es = (operands, []))
    (hvalues : operands.reverse.map (fun x => x.now m.scope a) = [o, k]) :
    m.evalOperands a (.index line object key) taken es =
      m.resolved a line (fun _ => object.label?) .only (eventLabel "__index") (m.heap.index o k) := by
  have hdefers : (Expr.index line object key).defers = true := rfl
  simp only [evalOperands, hdefers, htaken, perform, hvalues]

theorem eval_index (line : Nat) {object key : Expr} {o k : Value} (hobject : object.value? m.scope a = some o)
    (hkey : key.value? m.scope a = some k) :
    m.eval a (.index line object key) =
      m.resolved a line (fun _ => object.label?) .only (eventLabel "__index") (m.heap.index o k) := by
  obtain ⟨x, hx, rfl⟩ := Option.map_eq_some_iff.mp hobject
  obtain ⟨y, hy, rfl⟩ := Option.map_eq_some_iff.mp hkey
  have htaken : takeOperands m.scope a true [] [object, key] = ([y, x], []) := by
    simp only [takeOperands, hx, hy, if_true]
  exact evalOperands_index line object key htaken rfl

end Workspace

end Lua

namespace Engine

variable {α σ : Type}

/-- Where a run stands while a script function is on top. -/
structure Point (α σ : Type) where
  session : Session α σ
  machine : Machine
  top : Activation

/-- A list of expressions is evaluated, behind the values that were taken already, the last one first. An expression that
is at hand is read; any other takes a run at the end of which the function on top receives its value, and the last one of
a list may have any number of values. -/
inductive Evaluates (host : Host α σ) (captured : Array Captured) (rest : List Frame) (goal : Goal) :
    List Value → List Expr → Point α σ → List Value → Point α σ → Prop where
  | done {taken : List Value} {x : Point α σ} : Evaluates host captured rest goal taken [] x taken.reverse x
  | read {taken vs : List Value} {e : Expr} {es : List Expr} {x y : Point α σ} {v : Value}
    (hone : es ≠ [] ∨ e.isMulti = false) (hv : e.value? (x.machine.vault.scope captured) x.top = some v)
    (hrest : Evaluates host captured rest goal (v :: taken) es x vs y) :
    Evaluates host captured rest goal taken (e :: es) x vs y
  | run {taken vs : List Value} {e : Expr} {es : List Expr} {x y z : Point α σ} {v : Value}
    (hone : es ≠ [] ∨ e.isMulti = false) (hnone : e.value? (x.machine.vault.scope captured) x.top = none)
    (hruns : Goes host x.session
      (x.machine.onTop captured (x.top.pushKont (.element taken es goal)) rest (.eval e)) z.session
      (z.machine.onTop captured (z.top.pushKont (.element taken es goal)) rest (.value v)))
    (hkont : z.top.kont = x.top.kont) (hrest : Evaluates host captured rest goal (v :: taken) es z vs y) :
    Evaluates host captured rest goal taken (e :: es) x vs y
  | varargs {taken : List Value} {x : Point α σ} :
    Evaluates host captured rest goal taken [.vararg] x (taken.reverse ++ x.top.varargs) x
  | runAll {taken vs : List Value} {e : Expr} {x z : Point α σ} (hmulti : e.isMulti = true) (hvararg : e ≠ .vararg)
    (hruns : Goes host x.session
      (x.machine.onTop captured (x.top.pushKont (.spread taken goal)) rest (.evalAll e false)) z.session
      (z.machine.onTop captured (z.top.pushKont (.spread taken goal)) rest (.values vs)))
    (hkont : z.top.kont = x.top.kont) : Evaluates host captured rest goal taken [e] x (taken.reverse ++ vs) z

theorem Goes.closures {host : Host α σ} {s s' : Session α σ} {m m' : Machine} (h : Goes host s m s' m') {r : Nat}
    {c : Closure} (hc : c.Fixed) (hr : m.vault.closures[r]? = some c) : m'.vault.closures[r]? = some c := by
  obtain ⟨n, hn⟩ := h.drive_eq
  have hkept := drive_closures host n (s := s) hc hr
  rwa [hn] at hkept

/-- A closure that nothing advances stays what it is while arguments are evaluated. -/
theorem Evaluates.closures {host : Host α σ} {captured : Array Captured} {rest : List Frame} {goal : Goal}
    {taken vs : List Value} {es : List Expr} {x y : Point α σ} (h : Evaluates host captured rest goal taken es x vs y)
    {r : Nat} {c : Closure} (hc : c.Fixed) (hr : x.machine.vault.closures[r]? = some c) :
    y.machine.vault.closures[r]? = some c := by
  induction h with
  | done | varargs => exact hr
  | read _ _ _ ih => exact ih hr
  | run _ _ hruns _ _ ih => exact ih (hruns.closures hc hr)
  | runAll _ _ hruns _ => exact hruns.closures hc hr

theorem Evaluates.const {host : Host α σ} {captured : Array Captured} {rest : List Frame} {goal : Goal}
    {taken : List Value} {v : Value} {x : Point α σ} :
    Evaluates host captured rest goal taken [.const v] x (taken.reverse ++ [v]) x := by
  rw [← List.reverse_cons]
  exact .read (Or.inr rfl) rfl .done

/-- A machine that starts on a list of expressions comes to do with its values what they are for. -/
theorem Evaluates.goes {host : Host α σ} {captured : Array Captured} {rest : List Frame} {goal : Goal}
    {taken vs : List Value} {es : List Expr} {x y : Point α σ} (h : Evaluates host captured rest goal taken es x vs y)
    {m : Machine} (hgoing : m.isResting = false)
    (hstep : m.step = x.machine.turned captured rest ((x.machine.workspace captured).evalList x.top taken es goal)) :
    Goes host x.session m y.session
      (y.machine.turned captured rest ((y.machine.workspace captured).reach y.top goal vs)) := by
  induction h generalizing m with
  | done | varargs => exact .of_leads (.single hgoing hstep) host _
  | read hone hv _ ih =>
    rw [Workspace.evalList_read hone hv] at hstep
    exact ih hgoing hstep
  | run hone hnone hruns _ _ ih =>
    rw [Workspace.evalList_run hone hnone] at hstep
    have hfirst : Leads m _ := .single hgoing hstep
    exact (Goes.of_leads hfirst host _).trans (hruns.trans (ih rfl (Machine.step_value _)))
  | runAll hmulti hvararg hruns _ =>
    rw [Workspace.evalList_runAll hmulti hvararg] at hstep
    have hfirst : Leads m _ := .single hgoing hstep
    exact (Goes.of_leads hfirst host _).trans
      (hruns.trans (.of_leads (.single rfl (Machine.step_values _)) host _))

end Engine

namespace Lua

namespace Machine

def calling (m : Machine) (captured : Array Captured) (a : Activation) (rest : List Frame) (tail : Bool) (line : Nat)
    (f : Value) (args : List Value) (label : Option Label) : Machine :=
  { m with
    frames := if tail then rest else .script captured { a with line } :: rest
    control := .task (.call f args label a.depth) }

theorem callee_closure (h : Heap) (r : Nat) (args : List Value) :
    h.callee callLimit (.closure r) args = .ok (.closure r, args) := rfl

theorem turned_reach_call {m : Machine} {g : Nat} (hreplaces : (m.vault.closures[g]?).any Closure.replacesCaller)
    (captured : Array Captured) (a : Activation) (rest : List Frame) (tail : Bool) (line : Nat) (label : Option Label)
    (vs : List Value) : ∃ line' label',
      m.turned captured rest ((m.workspace captured).reach a (.ofCall tail line label) (.closure g :: vs)) =
        m.calling captured a rest tail line' (.closure g) vs label' := by
  cases tail with
  | false => exact ⟨line, label, rfl⟩
  | true =>
    have hquit : (m.workspace captured).reach a (.ofCall true line label) (.closure g :: vs) =
        (m.workspace captured).quit (.call (.closure g) vs none a.depth) := by
      have hscope : (m.workspace captured).scope.replaces g = true := hreplaces
      simp [Workspace.reach, Goal.ofCall, Workspace.callLast, callee_closure, hscope]
    exact ⟨line, none, by rw [hquit]; rfl⟩

end Machine

namespace FieldCall

variable {m : Machine} {captured : Array Captured} {a : Activation} {rest : List Frame} {o k : Value} {tail : Bool}
variable {front : List Value} {args : List Expr}

/-- The continuation with which the function on top waits for the function of a call: once it is there, the arguments are
evaluated behind it. -/
def Waits (kont : Kont) (goal : Goal) (front : List Value) (args : List Expr) : Prop :=
  ∀ (w : Workspace) (a : Activation) (f : Value),
    w.receive (a.pushKont kont) f = w.evalList a (f :: front).reverse args goal

/-- What `o` answers for the field is asked by a call one level deeper, for which the function on top waits. -/
theorem within_index {f : Value} {asked : List Value} (hindex : m.heap.index o k = .call f asked) {kont : Kont}
    {line : Nat} {labels : Nat → Option Label} {t : Task} {top : Activation} {turn : Turn}
    (hstep : (m.onTop captured top rest t).step = m.turned captured rest turn)
    (hturn : turn = (m.workspace captured).resolved (a.pushKont kont) line labels .only (eventLabel "__index")
      ((m.workspace captured).heap.index o k)) :
    Within 1 (m.onTop captured top rest t)
      (m.onTop captured { a with line, kont := .only :: kont :: a.kont } rest
        (.deeper (fun _ => ({ a with line } : Activation).place) f asked (eventLabel "__index") a.depth)) := by
  have hresolve : (m.workspace captured).heap.index o k = .call f asked := hindex
  rw [hresolve] at hturn
  exact Machine.within_turn hstep hturn

theorem within_lookup {f : Value} {asked : List Value} {top : Activation} {t : Task}
    (h : FieldCall (m.vault.scope captured) a o k tail top t front args) (hindex : m.heap.index o k = .call f asked)
    (rest : List Frame) :
    ∃ line kont callLine called label, Waits kont (.ofCall tail callLine called) front args ∧
      Within 2 (m.onTop captured top rest t)
        (m.onTop captured { a with line, kont := .only :: kont :: a.kont } rest
          (.deeper (fun _ => ({ a with line } : Activation).place) f asked label a.depth)) := by
  cases h with
  | @index line indexLine object key args hobject hkey =>
    let field := Expr.index indexLine object key
    let kont : Kont := .element [] args (.ofCall tail line field.label?)
    have hfirst : (m.workspace captured).evalAll a tail (.call line field args) =
        (m.workspace captured).onTop (a.pushKont kont) (.eval field) :=
      Workspace.evalList_run (Or.inr rfl) rfl [] _
    have hthen := Workspace.eval_index (m := m.workspace captured) indexLine
      ((object.value?_pushKont _ a kont).trans hobject) ((key.value?_pushKont _ a kont).trans hkey)
    exact ⟨indexLine, kont, line, field.label?, _, fun _ _ _ => rfl,
      (Machine.within_turn (Machine.step_evalAll _ tail) hfirst).trans
        (within_index hindex (Machine.step_eval _) hthen)⟩
  | @indexObject line indexLine label object key args hkey =>
    let kont : Kont := .element [] args (.ofCall tail line label)
    obtain ⟨x, hx, hnow⟩ := Option.map_eq_some_iff.mp ((key.value?_pushKont _ a kont).trans hkey)
    have htaken : takeOperands (m.workspace captured).scope (a.pushKont kont) true [.value o] [key] =
        ([x, .value o], []) := by
      have hoperand : key.operand? (m.workspace captured).scope (a.pushKont kont) = some x := hx
      simp only [takeOperands, hoperand, if_true]
    have hfield := Workspace.evalOperands_index indexLine object key htaken (congrArg (fun v => [o, v]) hnow)
    exact ⟨indexLine, kont, line, label, _, fun _ _ _ => rfl,
      (within_index hindex (Machine.step_value _) ((Workspace.receive_operand ..).trans hfield)).mono (by decide)⟩
  | @indexKey line indexLine label object key x args hobject =>
    let kont : Kont := .element [] args (.ofCall tail line label)
    have hnow : x.now (m.workspace captured).scope (a.pushKont kont) = o := (x.now_pushKont _ a kont).trans hobject
    have htaken : takeOperands (m.workspace captured).scope (a.pushKont kont) true [.value k, x] [] =
        ([.value k, x], []) := rfl
    have hfield := Workspace.evalOperands_index indexLine object key htaken (congrArg (fun v => [v, k]) hnow)
    exact ⟨indexLine, kont, line, label, _, fun _ _ _ => rfl,
      (within_index hindex (Machine.step_value _) ((Workspace.receive_operand ..).trans hfield)).mono (by decide)⟩
  | @method line callLine object name args hobject hkey =>
    subst hkey
    let kont : Kont := .methodOf tail o name callLine args
    have hfound : (m.workspace captured).evalAll a tail (.method line object name callLine args) =
        (m.workspace captured).findMethod a tail line object.label? o name callLine args := by
      have hvalue : object.value? (m.workspace captured).scope a = some o := hobject
      simp only [Workspace.evalAll, hvalue]
    exact ⟨line, kont, callLine, some (.method name), _, fun _ _ _ => rfl,
      (within_index hindex (Machine.step_evalAll _ tail) hfound).mono (by decide)⟩
  | @methodObject line callLine label name args hkey =>
    subst hkey
    exact ⟨line, .methodOf tail o name callLine args, callLine, some (.method name), _, fun _ _ _ => rfl,
      (within_index hindex (Machine.step_value _) rfl).mono (by decide)⟩

end FieldCall

end Lua

end ScriptHost
