import ScriptHost.Lua.Value

/-! # How diagnostics name a chunk

A chunk is named by its source unless the name says otherwise: after `=` it is taken as it is, after `@` it is a file
name, of which the end matters most. A source is shown by its first line in brackets and quotes. Names are cut to fit
sixty bytes, wherever the cut falls. -/

namespace ScriptHost.Lua.ChunkName

/-- The bytes that a shown name may have, the closing zero of the buffer included. -/
def room : Nat := 60

def firstLine (s : Bytes) : Bytes := s.extract 0 ((s.toList.findIdx? (· == 10)).getD s.size)

def display (name : Bytes) : Bytes :=
  match name.toList.head? with
  | some 0x3d => name.extract 1 (min name.size room)
  | some 0x40 =>
    if name.size ≤ room then name.extract 1 name.size
    else bytes "..." ++ name.extract (name.size - (room - 1 - 3)) name.size
  | _ =>
    let line := firstLine name
    let space := room - "[string \"...\"]".length - 1
    let shown :=
      if line.size = name.size ∧ name.size < space then name
      else line.extract 0 (min line.size space) ++ bytes "..."
    bytes "[string \"" ++ shown ++ bytes "\"]"

end ScriptHost.Lua.ChunkName
