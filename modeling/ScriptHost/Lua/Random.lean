/-! # Random numbers

A generator of words of 64 bits with 256 bits of state: two shifts and rotations for the state, and a rotation between
two multiplications for the word. -/

namespace ScriptHost.Lua.Random

abbrev Seed := UInt64 × UInt64 × UInt64 × UInt64

def rotate (x n : UInt64) : UInt64 := (x <<< n) ||| (x >>> (64 - n))

def next : Seed → UInt64 × Seed
  | (a, b, c, d) =>
    let c' := c ^^^ a
    let d' := d ^^^ b
    (rotate (b * 5) 7 * 9, a ^^^ d', b ^^^ c', c' ^^^ (b <<< 17), rotate d' 45)

def drop : Nat → Seed → Seed
  | 0, s => s
  | n + 1, s => drop n (next s).2

def seeded (a b : UInt64) : Seed := drop 16 (a, 0xff, b, 0)

/-- The smallest mask of low bits that covers a word. -/
def maskFor (limit : UInt64) : UInt64 :=
  [1, 2, 4, 8, 16, 32].foldl (fun (m shift : UInt64) => m ||| (m >>> shift)) limit

/-- A word that is not above a limit, taken from a word by masking it, or else from further ones. -/
def projectFrom (limit : UInt64) : Nat → UInt64 → Seed → UInt64 × Seed
  | 0, w, s => (w % (limit + 1), s)
  | fuel + 1, w, s =>
    let masked := w &&& maskFor limit
    if masked ≤ limit then (masked, s)
    else
      let (w, s) := next s
      projectFrom limit fuel w s

def project (limit w : UInt64) (s : Seed) : UInt64 × Seed := projectFrom limit 1000 w s

end ScriptHost.Lua.Random
