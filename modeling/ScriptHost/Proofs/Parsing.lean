import ScriptHost.Lua.Compile
import ScriptHost.Proofs.Scanner

/-! # Steps of the parser

What the parsers do in a chunk of one line that declares nothing: their state is known up to the current token and the
text behind it, and each of them is followed over the tokens that the scanner finds there. -/

namespace ScriptHost.Lua.Parser

open Lexer (Lexes)

theorem bind_of_ok {α β : Type} {p : P α} {f : α → P β} {s s' : State} {a : α} (h : p s = .ok (a, s')) :
    (p >>= f) s = f a s' := by
  change (p s).bind (fun r => f r.1 r.2) = _
  rw [h]
  rfl

/-- What a parser knows besides the place where it reads. -/
structure Situation where
  source : Bytes
  budget : Nat
  depth : Nat
  free : Nat
  high : Nat

/-- The function of a chunk without variables of its own; it captures the environment. -/
def mainFunction (free high : Nat) : FunctionState where
  line := 0
  vararg := true
  captured := #[⟨environmentName, .slot 0, .plain⟩]
  scopes := [{ isLoop := false, level := 0, insideClose := false }]
  free
  high

/-- The parser of such a function at a token of the first line. -/
def reading (p : Situation) (l : Lexeme) (rest : List UInt8) : State where
  source := p.source
  cursor := ⟨rest, 1⟩
  current := l
  functions := [mainFunction p.free p.high]
  depth := p.depth
  budget := p.budget

theorem advance_reading {rest after : List UInt8} {l : Lexeme} (h : Lexes rest l after) (p : Situation) (earlier : Lexeme) :
    advance (reading p earlier rest) = .ok ((), reading p l after) := by
  have hread : readToken (reading p earlier rest) = .ok (l, reading p earlier after) := by
    have hnext : Lexer.next ((reading p earlier rest).cursor.rest.length + 1) (reading p earlier rest).cursor =
        .ok (l, ⟨after, 1⟩) := h
    simp only [readToken, hnext]
    rfl
  have hadvance : advance (reading p earlier rest) =
      (readToken >>= fun t => modify fun s => { s with current := t }) (reading p earlier rest) := rfl
  rw [hadvance, bind_of_ok hread]
  rfl

namespace Situation

def deeper (p : Situation) : Situation := { p with depth := p.depth + 1 }

def taking (p : Situation) (n : Nat) : Situation := { p with free := p.free + n, high := max p.high (p.free + n) }

def reaching (p : Situation) (n : Nat) : Situation := { p with high := max p.high (p.free + n) }

theorem taking_zero {p : Situation} (h : p.free ≤ p.high) : p.taking 0 = p := by
  unfold taking
  rw [Nat.add_zero, Nat.max_eq_left h]

theorem reaching_zero {p : Situation} (h : p.free ≤ p.high) : p.reaching 0 = p := by
  unfold reaching
  rw [Nat.add_zero, Nat.max_eq_left h]

theorem taking_taking (p : Situation) (n k : Nat) : (p.taking n).taking k = p.taking (n + k) := by
  simp only [taking, mk.injEq, true_and]
  omega

theorem reaching_reaching (p : Situation) (n k : Nat) : (p.reaching n).reaching k = p.reaching (max n k) := by
  simp only [reaching, mk.injEq, true_and]
  omega

end Situation

theorem reserve_reading {p : Situation} {n : Nat} (h : p.free + n < maxSlots) (l : Lexeme) (rest : List UInt8) :
    reserve n (reading p l rest) = .ok ((), reading (p.taking n) l rest) := by
  have hfits : ¬ maxSlots ≤ p.free + n := by omega
  change (if maxSlots ≤ p.free + n then _ else _ : P Unit) _ = _
  rw [if_neg hfits]
  rfl

theorem release_reading (p : Situation) (n k : Nat) (l : Lexeme) (rest : List UInt8) :
    release n (reading ((p.taking n).reaching k) l rest) = .ok ((), reading (p.reaching (n + k)) l rest) := by
  have hback : { (p.taking n).reaching k with free := p.free + n - n } = p.reaching (n + k) := by
    simp only [Situation.reaching, Situation.taking, Situation.mk.injEq, true_and]
    omega
  rw [← hback]
  rfl

theorem withSlots_reading {α : Type} {q : P α} {p : Situation} {n k : Nat} {l l' : Lexeme} {rest after : List UInt8}
    {v : α} (hslots : p.free + n < maxSlots)
    (h : q (reading (p.taking n) l rest) = .ok (v, reading ((p.taking n).reaching k) l' after)) :
    withSlots n q (reading p l rest) = .ok (v, reading (p.reaching (n + k)) l' after) := by
  rw [withSlots, bind_of_ok (reserve_reading hslots l rest), bind_of_ok h, bind_of_ok (release_reading p n k l' after)]
  rfl

theorem accept_reading {what : String} {l l' : Lexeme} (hl : l.token.is what = true) {rest after : List UInt8}
    (h : Lexes rest l' after) (p : Situation) :
    accept what (reading p l rest) = .ok (true, reading p l' after) := by
  have hat : isAt what (reading p l rest) = .ok (true, reading p l rest) := by
    rw [← hl]
    rfl
  rw [accept, bind_of_ok hat, if_pos rfl, bind_of_ok (advance_reading h p l)]
  rfl

theorem expectClosing_reading {what : String} {l l' : Lexeme} (hl : l.token.is what = true) {rest after : List UInt8}
    (h : Lexes rest l' after) (opened : String) (line : Nat) (p : Situation) :
    expectClosing what opened line (reading p l rest) = .ok ((), reading p l' after) := by
  rw [expectClosing, bind_of_ok (accept_reading hl h p)]
  rfl

theorem resolve_of_resolveIn {name : Bytes} {p : Situation} {found : Found}
    (h : resolveIn name [mainFunction p.free p.high] = (found, [mainFunction p.free p.high])) (l : Lexeme)
    (rest : List UInt8) : resolve name (reading p l rest) = .ok (found, reading p l rest) := by
  have hin : resolveIn name (reading p l rest).functions = (found, [mainFunction p.free p.high]) := h
  have hget : (get : P State) (reading p l rest) = .ok (reading p l rest, reading p l rest) := rfl
  rw [resolve, bind_of_ok hget, hin]
  rfl

/-- Only the environment is in scope, so any other name is a field of it. -/
theorem resolve_reading {name : Bytes} (hname : name ≠ environmentName) (p : Situation) (l : Lexeme) (rest : List UInt8) :
    resolve name (reading p l rest) = .ok (.global, reading p l rest) := by
  have hne : (environmentName == name) = false := beq_eq_false_iff_ne.mpr hname.symm
  refine resolve_of_resolveIn ?_ l rest
  simp [resolveIn, mainFunction, FunctionState.find?, hne]

theorem resolve_environment (p : Situation) (l : Lexeme) (rest : List UInt8) :
    resolve environmentName (reading p l rest) = .ok (.captured 0 .plain, reading p l rest) := by
  refine resolve_of_resolveIn ?_ l rest
  simp [resolveIn, mainFunction, FunctionState.find?]

theorem variableExpr_reading {name : Bytes} (hname : name ≠ environmentName) (p : Situation) (l : Lexeme)
    (rest : List UInt8) : variableExpr name (reading p l rest) =
      .ok (.index 0 (.captured 0 environmentName) (.const (.str name)), reading p l rest) := by
  rw [variableExpr, bind_of_ok (resolve_reading hname p l rest)]
  simp only
  rw [bind_of_ok (resolve_environment p l rest)]
  rfl

theorem primary_reading {name shown : Bytes} (hname : name ≠ environmentName) {l : Lexeme} {rest after : List UInt8}
    (h : Lexes rest l after) (g : Grammar) (p : Situation) : primary g (reading p ⟨.name name, shown⟩ rest) =
      .ok (.index 0 (.captured 0 environmentName) (.const (.str name)), reading p l after) := by
  have hprimary : primary g (reading p ⟨.name name, shown⟩ rest) =
      (advance >>= fun _ => variableExpr name) (reading p ⟨.name name, shown⟩ rest) := rfl
  rw [hprimary, bind_of_ok (advance_reading h p _)]
  exact variableExpr_reading hname p l after

theorem nested_reading {α : Type} {q : P α} {p p' : Situation} {l l' : Lexeme} {rest after : List UInt8} {v : α}
    (hdepth : p.depth + 1 < depthLimit) (h : q (reading p.deeper l rest) = .ok (v, reading p'.deeper l' after)) :
    nested q (reading p l rest) = .ok (v, reading p' l' after) := by
  have hfits : ¬ depthLimit ≤ p.depth + 1 := by omega
  have hnested : nested q (reading p l rest) =
      (if depthLimit ≤ p.depth + 1 then throw (.overflow (bytes "C stack overflow")) else do
        modify fun s => { s with depth := p.depth + 1 }
        let v ← q
        modify fun s => { s with depth := s.depth - 1 }
        return v : P α) (reading p l rest) := rfl
  have hdeeper : (modify fun s => { s with depth := p.depth + 1 } : P Unit) (reading p l rest) =
      .ok ((), reading p.deeper l rest) := rfl
  rw [hnested, if_neg hfits, bind_of_ok hdeeper, bind_of_ok h]
  rfl

theorem operators_reading {l : Lexeme} (h : operator? l.token = none) (g : Grammar) (limit fuel : Nat) (a : Expr)
    (p : Situation) (rest : List UInt8) : operators g limit fuel a (reading p l rest) = .ok (a, reading p l rest) := by
  cases fuel with
  | zero => rfl
  | succ fuel =>
    have htoken : currentToken (reading p l rest) = .ok (l.token, reading p l rest) := rfl
    rw [operators, bind_of_ok htoken, h]
    rfl

/-- The value of a token that is a constant by itself. -/
def constant? : Token → Option Value
  | .int n => some (.int n)
  | .float x => some (.float x)
  | .string s => some (.str s)
  | .word "nil" => some .nil
  | .word "true" => some (.bool true)
  | .word "false" => some (.bool false)
  | _ => none

theorem simple_reading {l l' : Lexeme} {v : Value} (hv : constant? l.token = some v) {rest after : List UInt8}
    (h : Lexes rest l' after) (g : Grammar) (p : Situation) :
    simple g (reading p l rest) = .ok (.const v, reading p l' after) := by
  obtain ⟨t, shown⟩ := l
  have hconstant : simple g (reading p ⟨t, shown⟩ rest) =
      (advance >>= fun _ => pure (.const v)) (reading p ⟨t, shown⟩ rest) := by
    simp only at hv
    unfold constant? at hv
    split at hv <;> cases hv <;> rfl
  rw [hconstant, bind_of_ok (advance_reading h p _)]
  rfl

theorem unaryOp?_constant {t : Token} {v : Value} (hv : constant? t = some v) : unaryOp? t = none := by
  unfold constant? at hv
  split at hv <;> cases hv <;> rfl

theorem subexpression_constant {l l' : Lexeme} {v : Value} (hv : constant? l.token = some v) {rest after : List UInt8}
    (h : Lexes rest l' after) (hends : operator? l'.token = none) (g : Grammar) (limit : Nat) {p : Situation}
    (hdepth : p.depth + 1 < depthLimit) :
    subexpression g limit (reading p l rest) = .ok (.const v, reading p l' after) := by
  refine nested_reading hdepth ?_
  have htoken : currentToken (reading p.deeper l rest) = 
    .ok (l.token, reading p.deeper l rest) := rfl
  have hsimple := simple_reading hv h g p.deeper
  have hunary := unaryOp?_constant hv
  rw [bind_of_ok htoken, hunary]
  simp only
  rw [bind_of_ok hsimple]
  exact operators_reading hends g limit _ _ _ _

/-- The opposite of a number is found at once. -/
theorem subexpression_opposite {n m l' : Lexeme} {x v : Value} (hx : constant? n.token = some x)
    (hv : foldUnary? .neg (.const x) = some v) (hm : m.token = .mark "-") {rest behind after : List UInt8}
    (hn : Lexes rest n behind) (h : Lexes behind l' after) (hends : operator? l'.token = none) (levels limit : Nat)
    {p : Situation} (hdepth : p.depth + 2 < depthLimit) :
    subexpression (grammar (levels + 1)) limit (reading p m rest) = .ok (.const v, reading p l' after) := by
  obtain ⟨_, shown⟩ := m
  subst hm
  have hdeep : p.depth + 1 < depthLimit := by omega
  refine nested_reading hdeep ?_
  let q : Situation := p.deeper
  have htoken : currentToken (reading q ⟨.mark "-", shown⟩ rest) =
    .ok (.mark "-", reading q ⟨.mark "-", shown⟩ rest) := rfl
  have hinner : (grammar (levels + 1)).subexpr unaryBinding (reading q n behind) = .ok (.const x, reading q l' after) :=
    subexpression_constant hx h hends (grammar levels) unaryBinding hdepth
  have hline : currentLine (reading q ⟨.mark "-", shown⟩ rest) = .ok (1, reading q ⟨.mark "-", shown⟩ rest) := rfl
  have hsettle : settle (.const x) (reading q l' after) = .ok (.const x, reading q l' after) := rfl
  rw [bind_of_ok htoken]
  have hunary : unaryOp? (.mark "-") = some .neg := rfl
  rw [hunary]
  simp only
  rw [bind_of_ok hline, bind_of_ok (advance_reading hn q _), bind_of_ok hinner, bind_of_ok hsettle, hv]
  exact operators_reading hends _ limit _ _ q _

end ScriptHost.Lua.Parser
