/-! # Reading bytes as UTF-8

Guest strings are arbitrary bytes and host texts are characters. Reading is either strict, and then fails on the first
malformed sequence, or lenient, and then shows one replacement character for every malformed sequence: the longest
prefix of a well-formed one, or a single byte that starts none. -/

namespace ScriptHost.Text.Utf8

def decode? (b : ByteArray) : Option String := String.fromUTF8? b

/-- What a lead byte announces: its own share of the code point, the number of bytes that follow, and the bounds of the
first of them. The bounds exclude overlong forms, surrogates and numbers beyond the last code point. -/
def lead (b : UInt8) : Option (Nat × Nat × Nat × Nat) :=
  let n := b.toNat
  if 0xc2 ≤ n ∧ n ≤ 0xdf then some (n - 0xc0, 1, 0x80, 0xbf)
  else if n = 0xe0 then some (0, 2, 0xa0, 0xbf)
  else if n = 0xed then some (0xd, 2, 0x80, 0x9f)
  else if 0xe1 ≤ n ∧ n ≤ 0xef then some (n - 0xe0, 2, 0x80, 0xbf)
  else if n = 0xf0 then some (0, 3, 0x90, 0xbf)
  else if 0xf1 ≤ n ∧ n ≤ 0xf3 then some (n - 0xf0, 3, 0x80, 0xbf)
  else if n = 0xf4 then some (4, 3, 0x80, 0x8f)
  else none

/-- Where a lenient reader stands: between characters, or inside one with the number read so far, the count of bytes
still due, and the bounds of the next. -/
inductive Progress where
  | idle
  | inside (sofar due low high : Nat)

def replacement : Char := '\ufffd'

def start (b : UInt8) : List Char × Progress :=
  if b.toNat < 0x80 then ([Char.ofNat b.toNat], .idle)
  else match lead b with
    | some (share, due, low, high) => ([], .inside share due low high)
    | none => ([replacement], .idle)

/-- Reads one byte: the characters it completes, and the new position. -/
def advance : Progress → UInt8 → List Char × Progress
  | .idle, b => start b
  | .inside sofar due low high, b =>
    if low ≤ b.toNat ∧ b.toNat ≤ high then
      let value := sofar * 64 + (b.toNat - 0x80)
      if due ≤ 1 then ([Char.ofNat value], .idle) else ([], .inside value (due - 1) 0x80 0xbf)
    else
      let (out, next) := start b
      (replacement :: out, next)

/-- The characters that a lenient reader sees in a byte list, from a given position on. -/
def lenientFrom : Progress → List UInt8 → List Char
  | .idle, [] => []
  | .inside .., [] => [replacement]
  | p, b :: bs =>
    let (out, next) := advance p b
    out ++ lenientFrom next bs

def decodeLenient (b : ByteArray) : String :=
  match decode? b with
  | some s => s
  | none => String.ofList (lenientFrom .idle b.toList)

end ScriptHost.Text.Utf8
