import ScriptHost.Proofs.Machine.MethodScript
import ScriptHost.Proofs.Parsing

/-! # Calls as scripts

A script that calls a method of a global variable with literals as its arguments is compiled to that call and nothing
else. -/

namespace ScriptHost.Lua.Parser

open Lexer (Lexes Breaks isIdentifier isIdentifier_spelling)
open Text.Utf8 (spelling)

/-- A numeral and the number that it spells. -/
structure Numeral where
  text : String
  value : Value
  spells : (Lexer.numeral? (spelling text)).bind (constant? ·.token) = some value

/-- A constant as it stands in a script. -/
inductive Literal where
  | nil
  | bool (b : Bool)
  | number (n : Numeral)
  | opposite (n : Numeral) (v : Value) (folds : foldUnary? .neg (.const n.value) = some v)
  | text (s : String)

namespace Literal

def spelled : Literal → String
  | nil => "nil"
  | bool b => if b then "true" else "false"
  | number n => n.text
  | opposite n _ _ => "-" ++ n.text
  | text s => Lexer.quoted s

def value : Literal → Value
  | nil => .nil
  | bool b => .bool b
  | number n => n.value
  | opposite _ v _ => v
  | text s => .str (bytes s)

/-- A literal is parsed as its value from its first token on. -/
structure Opens (a : Literal) (rest : List UInt8) (l : Lexeme) (behind : List UInt8) : Prop where
  notClosing : l.token.is ")" = false
  parses : ∀ {l' : Lexeme} {after : List UInt8}, Lexes rest l' after → operator? l'.token = none →
    ∀ (levels limit : Nat) {p : Situation}, p.depth + 2 < depthLimit →
      subexpression (grammar (levels + 1)) limit (reading p l behind) = .ok (.const a.value, reading p l' after)

theorem opens_constant {a : Literal} {l : Lexeme} (hv : constant? l.token = some a.value) (rest : List UInt8) :
    a.Opens rest l rest where
  notClosing := by
    obtain ⟨t, shown⟩ := l
    simp only at hv
    unfold constant? at hv
    split at hv <;> first | rfl | cases hv
  parses := by
    intro l' after h hends levels limit p hdepth
    have hdeep : p.depth + 1 < depthLimit := by omega
    exact subexpression_constant hv h hends _ limit hdeep

theorem lexes_numeral (n : Numeral) {rest : List UInt8} (hrest : Breaks rest) :
    ∃ l, Lexes (spelling n.text ++ rest) l rest ∧ constant? l.token = some n.value := by
  obtain ⟨l, hl, hvalue⟩ := Option.bind_eq_some_iff.mp n.spells
  exact ⟨l, Lexer.lexes_numeral hl hrest, hvalue⟩

theorem lexes_opens (a : Literal) {rest : List UInt8} (hrest : Breaks rest) :
    ∃ l behind, Lexes (spelling a.spelled ++ rest) l behind ∧ a.Opens rest l behind := by
  cases a with
  | nil =>
    have hlexes : Lexes (spelling "nil" ++ rest) _ rest := Lexer.lexes_word rfl hrest
    exact ⟨_, _, hlexes, opens_constant rfl rest⟩
  | bool b =>
    cases b with
    | false =>
      have hlexes : Lexes (spelling "false" ++ rest) _ rest := Lexer.lexes_word rfl hrest
      exact ⟨_, _, hlexes, opens_constant rfl rest⟩
    | true =>
      have hlexes : Lexes (spelling "true" ++ rest) _ rest := Lexer.lexes_word rfl hrest
      exact ⟨_, _, hlexes, opens_constant rfl rest⟩
  | number n =>
    obtain ⟨l, hlexes, hvalue⟩ := lexes_numeral n hrest
    exact ⟨l, rest, hlexes, opens_constant hvalue rest⟩
  | opposite n v folds =>
    obtain ⟨l, hlexes, hvalue⟩ := lexes_numeral n hrest
    obtain ⟨m, hm, -⟩ := Option.bind_eq_some_iff.mp n.spells
    have hminus : Lexes (spelling ("-" ++ n.text) ++ rest) ⟨.mark "-", bytes "-"⟩ (spelling n.text ++ rest) := by
      rw [Text.Utf8.spelling_append]
      exact Lexer.lexes_minus hm rest
    refine ⟨_, _, hminus, rfl, fun h hends levels limit _ hdepth => ?_⟩
    exact subexpression_opposite hvalue folds rfl hlexes h hends levels limit hdepth
  | text s =>
    obtain ⟨shown, hlexes⟩ := Lexer.lexes_quoted s rest
    exact ⟨_, _, hlexes, opens_constant rfl rest⟩

end Literal

def following (as : List Literal) : List UInt8 := as.flatMap fun a => 0x2c :: 0x20 :: spelling a.spelled

theorem breaks_following (as : List Literal) (rest : List UInt8) : Breaks (following as ++ 0x29 :: rest) := by
  cases as with
  | nil => exact ⟨0x29, rest, rfl, rfl⟩
  | cons a as => exact ⟨0x2c, _, rfl, rfl⟩

def closing : Lexeme := ⟨.mark ")", bytes ")"⟩

theorem expressions_reading (levels : Nat) (rest : List UInt8) {a : Literal} {as : List Literal} {l : Lexeme}
    {behind : List UInt8} (hopens : a.Opens (following as ++ 0x29 :: rest) l behind) {fuel : Nat}
    (hfuel : as.length < fuel) {p : Situation} (hdepth : p.depth + 2 < depthLimit) (hhigh : p.free ≤ p.high)
    (hslots : p.free + as.length < maxSlots) :
    expressions (grammar (levels + 2)) fuel (reading p l behind) =
      .ok ((a :: as).map (.const ·.value), reading (p.taking as.length) closing rest) := by
  -- on the literals behind the one that is read: each comma takes one slot for the value before it
  induction as generalizing a l behind fuel p with
  | nil =>
    obtain ⟨fuel, rfl⟩ : ∃ n, fuel = n + 1 := ⟨fuel - 1, by simp at hfuel; omega⟩
    have hparse : (grammar (levels + 2)).expr (reading p l behind) = .ok (.const a.value, reading p closing rest) :=
      hopens.parses (Lexer.lexes_close rest) rfl levels 0 hdepth
    have haccept : accept "," (reading p closing rest) = .ok (false, reading p closing rest) := rfl
    rw [expressions, bind_of_ok hparse, bind_of_ok haccept, List.length_nil, Situation.taking_zero hhigh]
    rfl
  | cons b as ih =>
    obtain ⟨fuel, rfl⟩ : ∃ n, fuel = n + 1 := ⟨fuel - 1, by simp at hfuel; omega⟩
    rw [List.length_cons] at hfuel hslots
    obtain ⟨l', behind', hlexes, hopens'⟩ := b.lexes_opens (breaks_following as rest)
    let comma : Lexeme := ⟨.mark ",", bytes ","⟩
    let after : List UInt8 := spelling b.spelled ++ (following as ++ 0x29 :: rest)
    have hcomma : Lexes (following (b :: as) ++ 0x29 :: rest) comma (0x20 :: after) := by
      have hsplit : following (b :: as) ++ 0x29 :: rest = 0x2c :: 0x20 :: after := by
        simp [following, after]
      rw [hsplit]
      exact Lexer.lexes_comma _
    have hparse : (grammar (levels + 2)).expr (reading p l behind) = .ok (.const a.value, reading p comma (0x20 :: after)) :=
      hopens.parses hcomma rfl levels 0 hdepth
    have haccept : accept "," (reading p comma (0x20 :: after)) = .ok (true, reading p l' behind') :=
      accept_reading rfl hlexes.space p
    have hsettle : settle (.const a.value) (reading p l' behind') = .ok (.const a.value, reading p l' behind') := rfl
    have hreserve : reserve 1 (reading p l' behind') = _ := reserve_reading (by omega) l' behind'
    have hless : as.length < fuel := by omega
    have hfits : (p.taking 1).free + as.length < maxSlots := by
      change p.free + 1 + as.length < maxSlots
      omega
    have hrest := ih (p := p.taking 1) hopens' hless hdepth (Nat.le_max_right ..) hfits
    have hmore : 1 + as.length = as.length + 1 := by omega
    rw [Situation.taking_taking, hmore] at hrest
    rw [expressions, bind_of_ok hparse, bind_of_ok haccept, if_pos rfl, bind_of_ok hsettle, bind_of_ok hreserve,
      bind_of_ok hrest]
    rfl

def arguments : List Literal → List UInt8
  | [] => []
  | a :: as => spelling a.spelled ++ following as

def opening : Lexeme := ⟨.mark "(", bytes "("⟩

theorem callArguments_open {rest after : List UInt8} {l' : Lexeme} (hnext : Lexes rest l' after) (g : Grammar)
    (p : Situation) : callArguments g (reading p opening rest) =
      (do
        if ← isAt ")" then
          advance
          return (1, [])
        let args ← expressionList g
        release (args.length - 1)
        withSlots args.length (pure ())
        expectClosing ")" "(" 1
        return (1, args) : P (Nat × List Expr)) (reading p l' after) := by
  have hline : currentLine (reading p opening rest) = .ok (1, reading p opening rest) := rfl
  have htoken : currentToken (reading p opening rest) = .ok (.mark "(", reading p opening rest) := rfl
  rw [callArguments, bind_of_ok hline, bind_of_ok htoken]
  change (advance >>= _ : P (Nat × List Expr)) _ = _
  exact bind_of_ok (advance_reading hnext p opening)

/-- The arguments take a slot each while they are evaluated. -/
theorem callArguments_reading (levels : Nat) {rest after : List UInt8} {l' : Lexeme} (hnext : Lexes rest l' after)
    (as : List Literal) {p : Situation} (hbudget : as.length ≤ p.budget) (hdepth : p.depth + 2 < depthLimit)
    (hhigh : p.free ≤ p.high) (hslots : p.free + as.length < maxSlots) :
    callArguments (grammar (levels + 2)) (reading p opening (arguments as ++ 0x29 :: rest)) =
      .ok ((1, as.map (.const ·.value)), reading (p.reaching as.length) l' after) := by
  cases as with
  | nil =>
    have hclose : Lexes (arguments [] ++ 0x29 :: rest) closing rest := Lexer.lexes_close rest
    have hat : isAt ")" (reading p closing rest) = .ok (true, reading p closing rest) := rfl
    rw [callArguments_open hclose, bind_of_ok hat, if_pos rfl, bind_of_ok (advance_reading hnext p closing),
      List.length_nil, Situation.reaching_zero hhigh]
    rfl
  | cons a as =>
    rw [List.length_cons] at hbudget hslots
    obtain ⟨l, behind, hlexes, hopens⟩ := a.lexes_opens (breaks_following as rest)
    have hfirst : Lexes (arguments (a :: as) ++ 0x29 :: rest) l behind := by
      rw [arguments, List.append_assoc]
      exact hlexes
    have hat : isAt ")" (reading p l behind) = .ok (false, reading p l behind) := by
      rw [← hopens.notClosing]
      rfl
    have hlist : expressionList (grammar (levels + 2)) (reading p l behind) =
        .ok ((a :: as).map (.const ·.value), reading (p.taking as.length) closing rest) :=
      expressions_reading levels rest hopens hbudget hdepth hhigh (by omega)
    have hlength : ((a :: as).map (Expr.const ·.value)).length = as.length + 1 := by simp
    -- the slots of the list are given back and taken again for the call, now with one for the last argument
    have hrelease := release_reading p as.length 0 closing rest
    rw [Situation.reaching_zero (Nat.le_max_right ..), Nat.add_zero] at hrelease
    have hslot : withSlots (as.length + 1) (pure ()) (reading (p.reaching as.length) closing rest) =
        .ok ((), reading ((p.reaching as.length).reaching (as.length + 1)) closing rest) := by
      refine withSlots_reading (k := 0) hslots ?_
      rw [Situation.reaching_zero (Nat.le_max_right ..)]
      rfl
    have hmax : max as.length (as.length + 1) = as.length + 1 := by omega
    rw [Situation.reaching_reaching, hmax] at hslot
    have hclose : expectClosing ")" "(" 1 (reading (p.reaching (as.length + 1)) closing rest) = _ :=
      expectClosing_reading rfl hnext ..
    rw [callArguments_open hfirst, bind_of_ok hat, if_neg Bool.false_ne_true, bind_of_ok hlist, hlength, Nat.add_sub_cancel,
      bind_of_ok hrelease, bind_of_ok hslot, bind_of_ok hclose]
    rfl

def colon : Lexeme := ⟨.mark ":", bytes ":"⟩

def theEnd : Lexeme := ⟨.eof, bytes ""⟩

theorem expectName_reading {name shown : Bytes} {l : Lexeme} {rest after : List UInt8} (h : Lexes rest l after)
    (p : Situation) : expectName (reading p ⟨.name name, shown⟩ rest) = .ok (name, reading p l after) := by
  have hexpect : expectName (reading p ⟨.name name, shown⟩ rest) =
      (advance >>= fun _ => pure name) (reading p ⟨.name name, shown⟩ rest) := rfl
  rw [hexpect, bind_of_ok (advance_reading h p _)]
  rfl

def methodCall (space name : Bytes) (vs : List Value) : Expr :=
  .method 1 (.index 1 (.captured 0 environmentName) (.const (.str space))) name 1 (vs.map .const)

theorem suffixes_end (g : Grammar) (fuel : Nat) (e : Expr) (p : Situation) :
    suffixes g fuel e (reading p theEnd []) = .ok (e, reading p theEnd []) := by
  cases fuel <;> rfl

theorem suffixes_reading (levels : Nat) {name shown : Bytes} {rest : List UInt8} (as : List Literal)
    (hcolon : Lexes rest ⟨.name name, shown⟩ (0x28 :: (arguments as ++ [0x29]))) (space : Bytes) {fuel : Nat}
    (hfuel : 0 < fuel) {p : Situation} (hbudget : as.length ≤ p.budget) (hdepth : p.depth + 2 < depthLimit)
    (hslots : p.free + 2 + as.length < maxSlots) :
    suffixes (grammar (levels + 2)) fuel (.index 0 (.captured 0 environmentName) (.const (.str space)))
        (reading p colon rest) =
      .ok (methodCall space name (as.map Literal.value), reading (p.reaching (2 + as.length)) theEnd []) := by
  obtain ⟨fuel, rfl⟩ : ∃ n, fuel = n + 1 := ⟨fuel - 1, by omega⟩
  have htoken : currentToken (reading p colon rest) = .ok (.mark ":", reading p colon rest) := rfl
  have hargs : callArguments (grammar (levels + 2)) (reading (p.taking 2) opening (arguments as ++ [0x29])) =
      .ok ((1, as.map (.const ·.value)), reading ((p.taking 2).reaching as.length) theEnd []) :=
    callArguments_reading levels Lexer.lexes_end as hbudget hdepth (Nat.le_max_right ..) hslots
  have hwith : withSlots 2 (callArguments (grammar (levels + 2))) (reading p opening (arguments as ++ [0x29])) = _ :=
    withSlots_reading (by omega) hargs
  have hnamed : expectName (reading p ⟨.name name, shown⟩ (0x28 :: (arguments as ++ [0x29]))) =
      .ok (name, reading p opening (arguments as ++ [0x29])) := expectName_reading (Lexer.lexes_open _) p
  have hsettle : settle (.index 0 (.captured 0 environmentName) (.const (.str space)))
      (reading p opening (arguments as ++ [0x29])) = .ok (.index 1 (.captured 0 environmentName) (.const (.str space)),
        reading p opening (arguments as ++ [0x29])) := rfl
  have hline : lastLine (reading p opening (arguments as ++ [0x29])) =
      .ok (1, reading p opening (arguments as ++ [0x29])) := rfl
  rw [suffixes, bind_of_ok htoken]
  change (advance >>= _ : P Expr) _ = _
  rw [bind_of_ok (advance_reading hcolon p colon), bind_of_ok hnamed, bind_of_ok hsettle, bind_of_ok hline, bind_of_ok hwith]
  simp only
  rw [suffixes_end, methodCall, List.map_map]
  rfl

def behindSpace (name : String) (as : List Literal) : List UInt8 :=
  0x3a :: (spelling name ++ 0x28 :: (arguments as ++ [0x29]))

variable {space name : String} {as : List Literal}

theorem expressionStatement_reading (levels : Nat) (hspace : bytes space ≠ environmentName)
    (hname : isIdentifier name = true) {shown : Bytes} {p : Situation} (hbudget : as.length < p.budget)
    (hdepth : p.depth + 2 < depthLimit) (hslots : p.free + 2 + as.length < maxSlots) :
    expressionStatement (grammar (levels + 2)) (reading p ⟨.name (bytes space), shown⟩ (behindSpace name as)) =
      .ok ([.call (methodCall (bytes space) (bytes name) (as.map Literal.value))],
        reading (p.reaching (2 + as.length)) theEnd []) := by
  let start : State := reading p ⟨.name (bytes space), shown⟩ (behindSpace name as)
  let behind : List UInt8 := spelling name ++ 0x28 :: (arguments as ++ [0x29])
  have hcolon : Lexes (behindSpace name as) colon behind := by
    obtain ⟨b, rest, hb, hletter⟩ := isIdentifier_spelling hname
    have hfirst : behind = b :: (rest ++ 0x28 :: (arguments as ++ [0x29])) := by
      rw [← List.cons_append, ← hb]
    change Lexes (0x3a :: behind) colon behind
    rw [hfirst]
    exact Lexer.lexes_colon hletter _
  have hlexes : Lexes behind ⟨.name (bytes name), bytes name⟩ (0x28 :: (arguments as ++ [0x29])) :=
    Lexer.lexes_name hname ⟨0x28, _, rfl, rfl⟩
  have htoken : currentToken start = .ok (.name (bytes space), start) := rfl
  have hprimary : primary (grammar (levels + 2)) start = _ := primary_reading hspace hcolon _ p
  have hbudget' : as.length ≤ p.budget := by omega
  have hpositive : 0 < p.budget := by omega
  have hsuffixes := suffixes_reading levels as hlexes (bytes space) hpositive hbudget' hdepth hslots
  have hcall : suffixed (grammar (levels + 2)) start = .ok (methodCall (bytes space) (bytes name) (as.map Literal.value),
      reading (p.reaching (2 + as.length)) theEnd []) := by
    rw [suffixed, bind_of_ok hprimary]
    exact hsuffixes
  rw [expressionStatement, bind_of_ok htoken, bind_of_ok hcall]
  rfl

/-- No variable is declared, so at the end of a statement no slot is taken. -/
theorem settleSlots_reading {p : Situation} (hfree : p.free = 0) (hhigh : 0 < p.high) (l : Lexeme) (rest : List UInt8) :
    settleSlots (reading p l rest) = .ok ((), reading p l rest) := by
  obtain ⟨source, budget, depth, free, high⟩ := p
  simp only at hfree hhigh
  subst hfree
  have hmax : max high (0 + 1) = high := by omega
  change (Except.ok ((), reading ⟨source, budget, depth, 0, max high (0 + 1)⟩ l rest) : Except CompileError _) = _
  rw [hmax]

theorem statement_reading (levels : Nat) (hspace : bytes space ≠ environmentName)
    (hname : isIdentifier name = true) {shown : Bytes} {p : Situation} (hbudget : as.length < p.budget)
    (hdepth : p.depth + 3 < depthLimit) (hfree : p.free = 0) (hhigh : 0 < p.high) (hslots : 2 + as.length < maxSlots) :
    statement (grammar (levels + 2)) (reading p ⟨.name (bytes space), shown⟩ (behindSpace name as)) =
      .ok ([.call (methodCall (bytes space) (bytes name) (as.map Literal.value))],
        reading (p.reaching (2 + as.length)) theEnd []) := by
  let q : Situation := p.deeper
  have hdeep : p.depth + 1 < depthLimit := by omega
  have hline : currentLine (reading q ⟨.name (bytes space), shown⟩ (behindSpace name as)) =
    .ok (1, reading q ⟨.name (bytes space), shown⟩ (behindSpace name as)) := rfl
  have htoken : currentToken (reading q ⟨.name (bytes space), shown⟩ (behindSpace name as)) =
    .ok (.name (bytes space), reading q ⟨.name (bytes space), shown⟩ (behindSpace name as)) := rfl
  have hqslots : q.free + 2 + as.length < maxSlots := by
    change p.free + 2 + as.length < maxSlots
    omega
  have hcall : expressionStatement (grammar (levels + 2)) (reading q ⟨.name (bytes space), shown⟩ (behindSpace name as)) =
      _ := expressionStatement_reading levels hspace hname hbudget hdepth hqslots
  have hreached : 0 < (q.reaching (2 + as.length)).high := Nat.lt_of_lt_of_le hhigh (Nat.le_max_left ..)
  have hsettle := settleSlots_reading (p := q.reaching (2 + as.length)) hfree hreached theEnd []
  refine nested_reading hdeep ?_
  rw [bind_of_ok hline, bind_of_ok htoken]
  simp only
  rw [bind_of_ok hcall, bind_of_ok hsettle]
  rfl

theorem statementsFrom_reading (levels : Nat) (hspace : bytes space ≠ environmentName)
    (hname : isIdentifier name = true) {shown : Bytes} {p : Situation} (hbudget : as.length < p.budget)
    (hdepth : p.depth + 3 < depthLimit) (hfree : p.free = 0) (hhigh : 0 < p.high) (hslots : 2 + as.length < maxSlots)
    {fuel : Nat} (hfuel : 0 < fuel) :
    statementsFrom (grammar (levels + 3)) fuel (reading p ⟨.name (bytes space), shown⟩ (behindSpace name as)) =
      .ok ([.call (methodCall (bytes space) (bytes name) (as.map Literal.value))],
        reading (p.reaching (2 + as.length)) theEnd []) := by
  obtain ⟨fuel, rfl⟩ : ∃ n, fuel = n + 1 := ⟨fuel - 1, by omega⟩
  let start : State := reading p ⟨.name (bytes space), shown⟩ (behindSpace name as)
  have hends : endsBlock true start = .ok (false, start) := rfl
  have hlast : isAt "return" start = .ok (false, start) := rfl
  have hstatement : (grammar (levels + 3)).statement start = _ :=
    statement_reading levels hspace hname hbudget hdepth hfree hhigh hslots
  have hrest : statementsFrom (grammar (levels + 3)) fuel (reading (p.reaching (2 + as.length)) theEnd []) =
      .ok ([], reading (p.reaching (2 + as.length)) theEnd []) := by
    cases fuel <;> rfl
  rw [statementsFrom, bind_of_ok hends, if_neg Bool.false_ne_true, bind_of_ok hlast, bind_of_ok hstatement,
    if_neg Bool.false_ne_true, bind_of_ok hrest]
  rfl

def callScript (space name : String) (as : List Literal) : String :=
  space ++ ":" ++ name ++ "(" ++ ", ".intercalate (as.map Literal.spelled) ++ ")"

theorem spelling_following (a : Literal) (as : List Literal) :
    spelling (", ".intercalate ((a :: as).map Literal.spelled)) = spelling a.spelled ++ following as := by
  induction as generalizing a with
  | nil => simp [following]
  | cons b as ih =>
    have hcons : ", ".intercalate ((a :: b :: as).map Literal.spelled) =
        a.spelled ++ (", " ++ ", ".intercalate ((b :: as).map Literal.spelled)) := by
      simp only [List.map_cons, String.intercalate_cons_cons, String.append_assoc]
    rw [hcons, Text.Utf8.spelling_append, Text.Utf8.spelling_append, ih]
    rfl

theorem spelling_callScript : spelling (callScript space name as) = spelling space ++ behindSpace name as := by
  have harguments : spelling (", ".intercalate (as.map Literal.spelled)) = arguments as := by
    cases as with
    | nil => rfl
    | cons a as => exact spelling_following a as
  simp only [callScript, Text.Utf8.spelling_append, harguments, behindSpace, List.append_assoc]
  rfl

theorem chunk_reading (hspace : isIdentifier space = true) (henvironment : bytes space ≠ environmentName)
    (hname : isIdentifier name = true) (hslots : 2 + as.length < maxSlots) (source : Bytes) {budget : Nat}
    (hbudget : as.length < budget) :
    chunk { source, cursor := ⟨spelling (callScript space name as), 1⟩, current := theEnd, depth := 0, budget } =
      .ok (.mk source 0 0 true [.slot 0] (2 + as.length)
        [.call (methodCall (bytes space) (bytes name) (as.map Literal.value))],
        { source, cursor := ⟨[], 1⟩, current := theEnd, depth := 0, budget }) := by
  let start : State :=
    { source, cursor := ⟨spelling (callScript space name as), 1⟩, current := theEnd, depth := 0, budget }
  let p : Situation := ⟨source, budget, 0, 0, 2⟩
  have hopen : openFunction { line := 0, vararg := true, captured := #[⟨environmentName, .slot 0, .plain⟩] } start =
      .ok ((), reading p theEnd (spelling (callScript space name as))) := rfl
  have hlexes : Lexes (spelling (callScript space name as)) ⟨.name (bytes space), bytes space⟩ (behindSpace name as) := by
    rw [spelling_callScript]
    exact Lexer.lexes_name hspace ⟨0x3a, _, rfl, rfl⟩
  have hpositive : 0 < budget := by omega
  have hdepth : 0 + 3 < depthLimit := by decide
  have hhigh : 0 < 2 := by decide
  have hbody : fullGrammar.statements (reading p ⟨.name (bytes space), bytes space⟩ (behindSpace name as)) =
      .ok ([.call (methodCall (bytes space) (bytes name) (as.map Literal.value))],
        reading (p.reaching (2 + as.length)) theEnd []) :=
    statementsFrom_reading 399 henvironment hname hbudget hdepth rfl hhigh hslots hpositive
  have hmax : max 2 (0 + (2 + as.length)) = 2 + as.length := by omega
  have htoken : currentToken (reading (p.reaching (2 + as.length)) theEnd []) =
      .ok (.eof, reading (p.reaching (2 + as.length)) theEnd []) := rfl
  rw [chunk, bind_of_ok hopen, bind_of_ok (advance_reading hlexes p theEnd), bind_of_ok hbody, bind_of_ok htoken]
  change (Except.ok (Proto.mk source 0 0 true [.slot 0] (max 2 (0 + (2 + as.length)))
        [.call (methodCall (bytes space) (bytes name) (as.map Literal.value))], _) : Except CompileError _) = _
  rw [hmax]
  rfl

theorem length_le_arguments (as : List Literal) : as.length ≤ (arguments as).length + 1 := by
  have hfollowing (as : List Literal) : as.length ≤ (following as).length := by
    induction as with
    | nil => exact Nat.zero_le _
    | cons a as ih =>
      simp only [following, List.flatMap_cons, List.length_cons, List.length_append] at ih ⊢
      omega
  cases as with
  | nil => exact Nat.zero_le _
  | cons a as =>
    have hmore := hfollowing as
    simp only [arguments, List.length_cons, List.length_append]
    omega

/-- A call of a method of a global variable is compiled to just that. -/
theorem compile_callScript (hspace : isIdentifier space = true) (henvironment : bytes space ≠ environmentName)
    (hname : isIdentifier name = true) (hslots : 2 + as.length < maxSlots) (chunkName : Bytes) :
    compile (bytes (callScript space name as)) chunkName 0 =
      .ok (.mk (ChunkName.display chunkName) 0 0 true [.slot 0] (2 + as.length)
        [.call (methodCall (bytes space) (bytes name) (as.map Literal.value))]) := by
  obtain ⟨b, rest, hb, hletter⟩ := isIdentifier_spelling hspace
  have hsource : isPrecompiled (bytes (callScript space name as)) = false := by
    have hne : b ≠ 0x1b := by
      rintro rfl
      cases hletter
    rw [isPrecompiled, toList_bytes, spelling_callScript, hb]
    simpa using hne
  have hbudget : as.length < (bytes (callScript space name as)).size + 2 := by
    have hsize : (bytes (callScript space name as)).size = (spelling space ++ behindSpace name as).length :=
      congrArg List.length spelling_callScript
    have hmany := length_le_arguments as
    rw [hsize]
    simp only [behindSpace, List.length_append, List.length_cons]
    omega
  have hchunk := chunk_reading hspace henvironment hname hslots (ChunkName.display chunkName) hbudget
  rw [← toList_bytes] at hchunk
  rw [compile, hsource, if_neg Bool.false_ne_true]
  exact congrArg (Except.map Prod.fst) hchunk

theorem zero_not_mem_spelled (a : Literal) : 0 ∉ spelling a.spelled := by
  cases a with
  | nil => decide
  | bool b => cases b <;> decide
  | number n =>
    obtain ⟨l, hl, -⟩ := Option.bind_eq_some_iff.mp n.spells
    exact Lexer.zero_not_mem_numeral hl
  | opposite n v folds =>
    obtain ⟨l, hl, -⟩ := Option.bind_eq_some_iff.mp n.spells
    have hminus : 0 ∉ spelling "-" := by decide
    rw [Literal.spelled, Text.Utf8.spelling_append, List.mem_append]
    exact not_or.mpr ⟨hminus, Lexer.zero_not_mem_numeral hl⟩
  | text s => exact Lexer.zero_not_mem_quoted s

theorem zero_not_mem_arguments (as : List Literal) : 0 ∉ arguments as := by
  cases as with
  | nil => exact List.not_mem_nil
  | cons a as => simp [arguments, following, zero_not_mem_spelled]

theorem zero_not_mem_callScript (hspace : isIdentifier space = true) (hname : isIdentifier name = true) :
    0 ∉ spelling (callScript space name as) := by
  rw [spelling_callScript]
  simp [behindSpace, Lexer.zero_not_mem_name hspace, Lexer.zero_not_mem_name hname, zero_not_mem_arguments]

theorem callsMethod_callScript (hspace : isIdentifier space = true) (henvironment : bytes space ≠ environmentName)
    (hname : isIdentifier name = true) (hslots : 2 + as.length < maxSlots) {chunkName : Bytes} {q : Proto}
    (h : compile (bytes (callScript space name as)) chunkName 0 = .ok q) :
    CallsMethod q (bytes space) (bytes name) (as.map Literal.value) := by
  rw [compile_callScript hspace henvironment hname hslots] at h
  cases h
  refine ⟨⟨1, 1, 1, rfl⟩, ?_, hslots⟩
  rw [List.length_map]
  rfl

end ScriptHost.Lua.Parser

namespace ScriptHost.Lua.Interpreter

/-- There is nothing in a call that keeps it from being loaded, if there is memory for it. -/
theorem load_callScript {i : Interpreter} {space name : String} {as : List Parser.Literal}
    (hspace : Lexer.isIdentifier space = true) (henvironment : bytes space ≠ environmentName)
    (hname : Lexer.isIdentifier name = true) (hslots : 2 + as.length < Parser.maxSlots) {script : String}
    (hscript : script = Parser.callScript space name as)
    (hmemory : i.heap.admits i.limit (chunkSize (bytes script)) = true) : ∃ c j, i.load script = .ok (c, j) := by
  have hcompile := Parser.compile_callScript hspace henvironment hname hslots (bytes script)
  rw [← hscript] at hcompile
  have hrefusal : refusal? (bytes script) = none := by
    have hzero : 0 ∉ Text.Utf8.spelling script := hscript ▸ Parser.zero_not_mem_callScript hspace hname
    have hnone : (Text.Utf8.spelling script).findIdx? (· == 0) = none := by
      refine List.findIdx?_eq_none_iff.mpr fun b hb => ?_
      have hne : b ≠ 0 := by
        rintro rfl
        exact hzero hb
      simpa using hne
    rw [refusal?, toList_bytes, hnone]
    rfl
  simp only [load, hrefusal, hmemory, hcompile]
  exact ⟨_, _, rfl⟩

end ScriptHost.Lua.Interpreter
