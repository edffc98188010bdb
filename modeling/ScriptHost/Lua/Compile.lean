import ScriptHost.Lua.Parser.Statement

/-! # Compiling a chunk

A chunk is a function that takes any arguments and captures one variable, the environment. How deep it may be nested is
limited together with the calls that led to its compilation. -/

namespace ScriptHost.Lua

namespace Parser

def tooDeep {α : Type} : P α := throw (.overflow (bytes "C stack overflow"))

def grammar : Nat → Grammar
  | 0 => ⟨fun _ => tooDeep, tooDeep, fun _ _ => tooDeep⟩
  | fuel + 1 =>
    let g := grammar fuel
    ⟨subexpression g, statement g, functionBody g⟩

/-- Every level of nesting takes at most two steps down: one for a function and one for the statement in it. -/
def fullGrammar : Grammar := grammar (2 * depthLimit + 2)

def chunk : P Proto := do
  openFunction { line := 0, vararg := true, captured := #[⟨environmentName, .slot 0, .plain⟩] }
  advance
  let body ← fullGrammar.statements
  if (← currentToken) matches .eof then closeFunction 0 body else fail (bytes "<eof> expected")

end Parser

def headerTrouble (rest : List UInt8) : String :=
  if rest.length < 3 then "truncated chunk"
  else if rest.take 3 != [0x4c, 0x75, 0x61] then "not a binary chunk"
  else
    match rest.drop 3 with
    | [] => "truncated chunk"
    | version :: rest =>
      if version != 0x54 then "version mismatch"
      else
        match rest with
        | [] => "truncated chunk"
        | format :: _ => if format != 0 then "format mismatch" else "truncated chunk"

def headerName (name : Bytes) : Bytes :=
  match name.toList.head? with
  | some 0x40 | some 0x3d => name.extract 1 name.size
  | some 0x1b => bytes "binary string"
  | _ => name

def isPrecompiled (source : Bytes) : Bool := source.toList.head? == some 0x1b

def compile (source name : Bytes) (depth : Nat) : Except CompileError Proto :=
  if isPrecompiled source then
    .error (.invalid (headerName name ++ bytes s!": bad binary format ({headerTrouble (source.toList.drop 1)})"))
  else
    let shown := ChunkName.display name
    let start : Parser.State :=
      { source := shown
        cursor := ⟨source.toList, 1⟩
        current := ⟨.eof, bytes ""⟩
        depth
        budget := source.size + 2 }
    (Parser.chunk.run start).map Prod.fst

end ScriptHost.Lua
