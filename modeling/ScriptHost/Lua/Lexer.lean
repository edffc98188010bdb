import ScriptHost.Lua.ChunkName
import ScriptHost.Lua.Number

/-! # Tokens

A scanner reads one token at a time and keeps the line it is on. A diagnostic quotes the token at which reading stopped;
for a token that is broken inside, it quotes as much as was read of it. -/

namespace ScriptHost.Lua

inductive Token where
  | name (s : Bytes)
  | string (s : Bytes)
  | int (n : Int64)
  | float (x : Float)
  | word (w : String)
  | mark (m : String)
  | other (b : UInt8)
  | eof

structure Lexeme where
  token : Token
  shown : Bytes

def Token.is (t : Token) (s : String) : Bool :=
  match t with
  | .word w => w == s
  | .mark m => m == s
  | _ => false

/-- Why a chunk could not be compiled: a diagnostic of the compiler, or a failure of the interpreter on the way. -/
inductive CompileError where
  | invalid (message : Bytes)
  | overflow (message : Bytes)

namespace Lexer

/-- What is left of a source, and the line. -/
structure Cursor where
  rest : List UInt8
  line : Nat

def reservedWords : List String :=
  ["and", "break", "do", "else", "elseif", "end", "false", "for", "function", "goto", "if", "in", "local", "nil", "not",
   "or", "repeat", "return", "then", "true", "until", "while"]

def isNewline (b : UInt8) : Bool := b == 10 || b == 13

def isDigit (b : UInt8) : Bool := 48 ≤ b && b ≤ 57

def hexValue? (b : UInt8) : Option Nat := Decimal.digitValue? 16 (Char.ofNat b.toNat)

def isLetter (b : UInt8) : Bool := (65 ≤ b && b ≤ 90) || (97 ≤ b && b ≤ 122) || b == 95

def isWordByte (b : UInt8) : Bool := isLetter b || isDigit b

def isSpace (b : UInt8) : Bool := b == 32 || (9 ≤ b && b ≤ 13)

def isPrintable (b : UInt8) : Bool := 32 ≤ b && b ≤ 126

def quote (s : Bytes) : Bytes := bytes "'" ++ s ++ bytes "'"

def untilZero (s : Bytes) : Bytes := s.extract 0 ((s.toList.findIdx? (· == 0)).getD s.size)

/-- What reading stopped at: nothing to quote, the end of the source, or some bytes of a token. -/
inductive Near where
  | nothing
  | endOfSource
  | text (s : Bytes)

def Near.suffix : Near → Bytes
  | .nothing => bytes ""
  | .endOfSource => bytes " near <eof>"
  | .text s => bytes " near " ++ quote (untilZero s)

def diagnostic (source : Bytes) (line : Nat) (message : Bytes) (near : Near) : CompileError :=
  .invalid (source ++ bytes s!":{line}: " ++ message ++ near.suffix)

/-- A failure to scan: what is wrong, what was read of the token, and the line. -/
structure Failure where
  message : String
  near : Near
  line : Nat

abbrev Scan (α : Type) := Except Failure α

def skipNewline : List UInt8 → List UInt8
  | a :: b :: rest => if isNewline b && a != b then rest else b :: rest
  | _ :: rest => rest
  | [] => []

def countEquals : List UInt8 → Nat × List UInt8
  | 0x3d :: rest => let (n, rest) := countEquals rest; (n + 1, rest)
  | rest => (0, rest)

def closesLong (level : Nat) (rest : List UInt8) : Option (List UInt8) :=
  let (n, after) := countEquals rest
  match after with
  | 0x5d :: after => if n = level then some after else none
  | _ => none

def longBody (level : Nat) (what : String) (start : Nat) : Nat → Cursor → List UInt8 → Scan (List UInt8 × Cursor)
  | 0, c, _ => .error ⟨what, .endOfSource, c.line⟩
  | fuel + 1, c, acc =>
    match c.rest with
    | [] => .error ⟨s!"unfinished long {what} (starting at line {start})", .endOfSource, c.line⟩
    | b :: rest =>
      if b == 0x5d then
        match closesLong level rest with
        | some after => .ok (acc, ⟨after, c.line⟩)
        | none => longBody level what start fuel ⟨rest, c.line⟩ (b :: acc)
      else if isNewline b then longBody level what start fuel ⟨skipNewline (b :: rest), c.line + 1⟩ (10 :: acc)
      else longBody level what start fuel ⟨rest, c.line⟩ (b :: acc)

/-- A long bracket from behind its opening one; a line break at the very front is dropped. -/
def longBracket (level : Nat) (what : String) (c : Cursor) : Scan (Bytes × Cursor) := do
  let start := c.line
  let c :=
    match c.rest with
    | b :: rest => if isNewline b then ⟨skipNewline (b :: rest), c.line + 1⟩ else c
    | [] => c
  let (body, c) ← longBody level what start (c.rest.length + 1) c []
  .ok (⟨body.reverse.toArray⟩, c)

/-- The bytes that encode a number in the extended form of UTF-8, which has up to six bytes. -/
def encodeUtf8 (n : Nat) : List UInt8 :=
  let tail (count : Nat) : List UInt8 :=
    (List.range count).reverse.map fun i => UInt8.ofNat (0x80 + n / 64 ^ i % 64)
  if n < 0x80 then [UInt8.ofNat n]
  else if n < 0x800 then UInt8.ofNat (0xc0 + n / 64) :: tail 1
  else if n < 0x10000 then UInt8.ofNat (0xe0 + n / 64 ^ 2) :: tail 2
  else if n < 0x200000 then UInt8.ofNat (0xf0 + n / 64 ^ 3) :: tail 3
  else if n < 0x4000000 then UInt8.ofNat (0xf8 + n / 64 ^ 4) :: tail 4
  else UInt8.ofNat (0xfc + n / 64 ^ 5) :: tail 5

/-- A failure inside an escape: the bytes of the string so far, of the escape so far, and the byte that was not
expected. -/
def badEscape (message : String) (acc escape rest : List UInt8) (line : Nat) : Failure :=
  ⟨message, .text ⟨(acc.reverse ++ escape ++ rest.take 1).toArray⟩, line⟩

def takeDecimals : Nat → List UInt8 → Nat → List UInt8 → Nat × List UInt8 × List UInt8
  | 0, rest, n, taken => (n, taken, rest)
  | count + 1, rest, n, taken =>
    match rest with
    | b :: tail => if isDigit b then takeDecimals count tail (n * 10 + (b.toNat - 48)) (taken ++ [b]) else (n, taken, rest)
    | [] => (n, taken, [])

def moreHex (acc : List UInt8) (line : Nat) : List UInt8 → Nat → List UInt8 → Scan (Nat × List UInt8 × List UInt8)
  | [], n, taken => .ok (n, taken, [])
  | b :: rest, n, taken =>
    match hexValue? b with
    | some v =>
      if n ≤ 0x7ffffff then moreHex acc line rest (n * 16 + v) (taken ++ [b])
      else .error (badEscape "UTF-8 value too large" acc taken (b :: rest) line)
    | none => .ok (n, taken, b :: rest)

def codePoint (acc : List UInt8) (line : Nat) (rest : List UInt8) : Scan (List UInt8 × List UInt8) := do
  match rest with
  | 0x7b :: tail =>
    match tail with
    | b :: tail' =>
      match hexValue? b with
      | none => .error (badEscape "hexadecimal digit expected" acc [0x5c, 0x75, 0x7b] tail line)
      | some v =>
        let (n, taken, after) ← moreHex acc line tail' v [0x5c, 0x75, 0x7b, b]
        match after with
        | 0x7d :: after => .ok (encodeUtf8 n, after)
        | after => .error (badEscape "missing '\x7d'" acc taken after line)
    | [] => .error (badEscape "hexadecimal digit expected" acc [0x5c, 0x75, 0x7b] [] line)
  | rest => .error (badEscape "missing '\x7b'" acc [0x5c, 0x75] rest line)

def hexEscape (acc : List UInt8) (line : Nat) (rest : List UInt8) : Scan (UInt8 × List UInt8) :=
  match rest with
  | a :: tail =>
    match hexValue? a with
    | none => .error (badEscape "hexadecimal digit expected" acc [0x5c, 0x78] rest line)
    | some x =>
      match tail with
      | b :: after =>
        match hexValue? b with
        | none => .error (badEscape "hexadecimal digit expected" acc [0x5c, 0x78, a] tail line)
        | some y => .ok (UInt8.ofNat (x * 16 + y), after)
      | [] => .error (badEscape "hexadecimal digit expected" acc [0x5c, 0x78, a] [] line)
  | [] => .error (badEscape "hexadecimal digit expected" acc [0x5c, 0x78] [] line)

def skipSpaces : Nat → Cursor → Cursor
  | 0, c => c
  | fuel + 1, c =>
    match c.rest with
    | b :: rest =>
      if isNewline b then skipSpaces fuel ⟨skipNewline (b :: rest), c.line + 1⟩
      else if isSpace b then skipSpaces fuel ⟨rest, c.line⟩
      else c
    | [] => c

def simpleEscape? (b : UInt8) : Option UInt8 :=
  match Char.ofNat b.toNat with
  | 'a' => some 7
  | 'b' => some 8
  | 'f' => some 12
  | 'n' => some 10
  | 'r' => some 13
  | 't' => some 9
  | 'v' => some 11
  | '\\' => some 0x5c
  | '"' => some 0x22
  | '\'' => some 0x27
  | _ => none

/-- A short string. `acc` is what was read of the token, the opening quote included, last byte first. -/
def shortString (delimiter : UInt8) : Nat → Cursor → List UInt8 → Scan (Bytes × Cursor)
  | 0, c, _ => .error ⟨"unfinished string", .endOfSource, c.line⟩
  | fuel + 1, c, acc =>
    match c.rest with
    | [] => .error ⟨"unfinished string", .endOfSource, c.line⟩
    | b :: rest =>
      if b == delimiter then .ok (⟨(acc.reverse.drop 1).toArray⟩, ⟨rest, c.line⟩)
      else if isNewline b then .error ⟨"unfinished string", .text ⟨acc.reverse.toArray⟩, c.line⟩
      else if b != 0x5c then shortString delimiter fuel ⟨rest, c.line⟩ (b :: acc)
      else
        match rest with
        | [] => .error ⟨"unfinished string", .endOfSource, c.line⟩
        | e :: tail =>
          if e == 0x78 then do
            let (v, after) ← hexEscape acc c.line tail
            shortString delimiter fuel ⟨after, c.line⟩ (v :: acc)
          else if e == 0x75 then do
            let (vs, after) ← codePoint acc c.line tail
            shortString delimiter fuel ⟨after, c.line⟩ (vs.reverse ++ acc)
          else if isNewline e then shortString delimiter fuel ⟨skipNewline (e :: tail), c.line + 1⟩ (10 :: acc)
          else if e == 0x7a then shortString delimiter fuel (skipSpaces (tail.length + 1) ⟨tail, c.line⟩) acc
          else
            match simpleEscape? e with
            | some v => shortString delimiter fuel ⟨tail, c.line⟩ (v :: acc)
            | none =>
              let (n, taken, after) := takeDecimals 3 rest 0 []
              if taken.isEmpty then .error (badEscape "invalid escape sequence" acc [0x5c] rest c.line)
              else if 255 < n then .error (badEscape "decimal escape too large" acc (0x5c :: taken) after c.line)
              else shortString delimiter fuel ⟨after, c.line⟩ (UInt8.ofNat n :: acc)

/-- The bytes of a numeral: digits of any base, points, and exponents with their signs. -/
def numeralBytes (exponent : UInt8 → Bool) : Nat → List UInt8 → List UInt8 → List UInt8 × List UInt8
  | 0, rest, acc => (acc, rest)
  | fuel + 1, rest, acc =>
    match rest with
    | b :: tail =>
      if exponent b then
        match tail with
        | s :: after =>
          if s == 0x2b || s == 0x2d then numeralBytes exponent fuel after (s :: b :: acc)
          else numeralBytes exponent fuel tail (b :: acc)
        | [] => (b :: acc, [])
      else if (hexValue? b).isSome || b == 0x2e then numeralBytes exponent fuel tail (b :: acc)
      else (acc, rest)
    | [] => (acc, [])

def isHexNumeral (first : UInt8) (rest : List UInt8) : Bool :=
  first == 0x30 && (rest.head? == some 0x78 || rest.head? == some 0x58)

def isExponent (isHex : Bool) (b : UInt8) : Bool := if isHex then b == 0x70 || b == 0x50 else b == 0x65 || b == 0x45

def numeralDigits (first : UInt8) (rest : List UInt8) : List UInt8 × List UInt8 :=
  if isHexNumeral first rest then
    numeralBytes (isExponent true) (rest.length + 1) (rest.drop 1) ((rest.take 1).reverse ++ [first])
  else numeralBytes (isExponent false) (rest.length + 1) rest [first]

def touching (acc : List UInt8) : List UInt8 → List UInt8 × List UInt8
  | b :: tail => if isLetter b then (b :: acc, tail) else (acc, b :: tail)
  | [] => (acc, [])

def numeralText (first : UInt8) (rest : List UInt8) : List UInt8 × List UInt8 :=
  let (acc, after) := numeralDigits first rest
  touching acc after

def number? (text : Bytes) : Option Lexeme :=
  match Number.ofText? text with
  | some (.int n) => some ⟨.int n, text⟩
  | some (.float x) => some ⟨.float x, text⟩
  | _ => none

def numeral (line : Nat) (first : UInt8) (rest : List UInt8) : Scan (Lexeme × Cursor) :=
  let (acc, after) := numeralText first rest
  let text : Bytes := ⟨acc.reverse.toArray⟩
  match number? text with
  | some l => .ok (l, ⟨after, line⟩)
  | none => .error ⟨"malformed number", .text text, line⟩

def mark? : List UInt8 → Option (String × List UInt8)
  | 0x2e :: 0x2e :: 0x2e :: rest => some ("...", rest)
  | 0x2e :: 0x2e :: rest => some ("..", rest)
  | 0x3d :: 0x3d :: rest => some ("==", rest)
  | 0x7e :: 0x3d :: rest => some ("~=", rest)
  | 0x3c :: 0x3d :: rest => some ("<=", rest)
  | 0x3e :: 0x3d :: rest => some (">=", rest)
  | 0x3c :: 0x3c :: rest => some ("<<", rest)
  | 0x3e :: 0x3e :: rest => some (">>", rest)
  | 0x2f :: 0x2f :: rest => some ("//", rest)
  | 0x3a :: 0x3a :: rest => some ("::", rest)
  | 0x2b :: rest => some ("+", rest)
  | 0x2d :: rest => some ("-", rest)
  | 0x2a :: rest => some ("*", rest)
  | 0x2f :: rest => some ("/", rest)
  | 0x25 :: rest => some ("%", rest)
  | 0x5e :: rest => some ("^", rest)
  | 0x23 :: rest => some ("#", rest)
  | 0x26 :: rest => some ("&", rest)
  | 0x7e :: rest => some ("~", rest)
  | 0x7c :: rest => some ("|", rest)
  | 0x3c :: rest => some ("<", rest)
  | 0x3e :: rest => some (">", rest)
  | 0x3d :: rest => some ("=", rest)
  | 0x28 :: rest => some ("(", rest)
  | 0x29 :: rest => some (")", rest)
  | 0x7b :: rest => some ("\x7b", rest)
  | 0x7d :: rest => some ("\x7d", rest)
  | 0x5b :: rest => some ("[", rest)
  | 0x5d :: rest => some ("]", rest)
  | 0x3b :: rest => some (";", rest)
  | 0x3a :: rest => some (":", rest)
  | 0x2c :: rest => some (",", rest)
  | 0x2e :: rest => some (".", rest)
  | _ => none

def skipLine (c : Cursor) : Cursor := ⟨c.rest.dropWhile fun b => !isNewline b, c.line⟩

def showByte (b : UInt8) : Bytes := if isPrintable b then ⟨#[b]⟩ else bytes s!"<\\{b.toNat}>"

def next : Nat → Cursor → Scan (Lexeme × Cursor)
  | 0, c => .ok (⟨.eof, bytes ""⟩, c)
  | fuel + 1, c =>
    match c.rest with
    | [] => .ok (⟨.eof, bytes ""⟩, c)
    | b :: rest =>
      if isNewline b then next fuel ⟨skipNewline (b :: rest), c.line + 1⟩
      else if isSpace b then next fuel ⟨rest, c.line⟩
      else if b == 0x2d && rest.head? == some 0x2d then
        let body := rest.drop 1
        match body with
        | 0x5b :: tail =>
          let (level, after) := countEquals tail
          match after with
          | 0x5b :: after => do
            let (_, c) ← longBracket level "comment" ⟨after, c.line⟩
            next fuel c
          | _ => next fuel (skipLine ⟨body, c.line⟩)
        | _ => next fuel (skipLine ⟨body, c.line⟩)
      else if b == 0x5b && (rest.head? == some 0x5b || rest.head? == some 0x3d) then
        let (level, after) := countEquals rest
        match after with
        | 0x5b :: after => do
          let (s, c) ← longBracket level "string" ⟨after, c.line⟩
          let equals := List.replicate level (0x3d : UInt8)
          let opening : Bytes := ⟨(0x5b :: equals ++ [0x5b]).toArray⟩
          let closing : Bytes := ⟨(0x5d :: equals ++ [0x5d]).toArray⟩
          .ok (⟨.string s, opening ++ s ++ closing⟩, c)
        | _ => .error ⟨"invalid long string delimiter", .text ⟨(b :: rest.take level).toArray⟩, c.line⟩
      else if b == 0x22 || b == 0x27 then do
        let (s, c) ← shortString b (rest.length + 1) ⟨rest, c.line⟩ [b]
        .ok (⟨.string s, ⟨#[b]⟩ ++ s ++ ⟨#[b]⟩⟩, c)
      else if isDigit b || (b == 0x2e && (rest.head?.map isDigit) == some true) then numeral c.line b rest
      else if isLetter b then
        let text : Bytes := ⟨(b :: rest.takeWhile isWordByte).toArray⟩
        let after := rest.dropWhile isWordByte
        match reservedWords.find? fun w => w.toUTF8 == text with
        | some w => .ok (⟨.word w, text⟩, ⟨after, c.line⟩)
        | none => .ok (⟨.name text, text⟩, ⟨after, c.line⟩)
      else
        match mark? (b :: rest) with
        | some (m, after) => .ok (⟨.mark m, bytes m⟩, ⟨after, c.line⟩)
        | none => .ok (⟨.other b, showByte b⟩, ⟨rest, c.line⟩)

end Lexer

end ScriptHost.Lua
