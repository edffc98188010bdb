/-! # Blank characters and trimming

White space in the sense of the character database, not of any one encoding: besides the ASCII blanks it takes in
the next-line control, the no-break spaces and the typographic spaces. -/

namespace ScriptHost.Text

def isBlank (c : Char) : Bool :=
  let n := c.toNat
  (9 ≤ n && n ≤ 13) || n == 0x20 || n == 0x85 || n == 0xa0 || n == 0x1680 || (0x2000 ≤ n && n ≤ 0x200a) ||
    n == 0x2028 || n == 0x2029 || n == 0x202f || n == 0x205f || n == 0x3000

def trimChars (cs : List Char) : List Char :=
  ((cs.dropWhile isBlank).reverse.dropWhile isBlank).reverse

def trim (s : String) : String := String.ofList (trimChars s.toList)

/-- A text in which the ASCII capitals are replaced by their small letters and nothing else changes. -/
def lowerAscii (s : String) : String := s.map Char.toLower

end ScriptHost.Text
