import ScriptHost.Decimal.Layout

/-! # JSON values and their written form

Values as the library writes them. The compact form has no blanks; the indented form puts every item and member on a
line of its own. Fields keep the order in which they were given. -/

namespace ScriptHost

/-- A JSON value to be written. -/
inductive Json where
  | null
  | bool (b : Bool)
  | int (n : Int)
  | double (x : Float)
  | string (s : String)
  | array (items : List Json)
  | object (members : List (String × Json))

namespace Json

/-- Doubles in JSON: positional from `1e-5` up to `1e16`, with `.0` on whole numbers, and otherwise with an exponent. -/
def doubleLayout : Decimal.Layout := ⟨fun e => -5 ≤ e && e < 16, ".0", 1⟩

/-- A double as JSON. What is no finite number has no numeral and is written as null. -/
def doubleText (x : Float) : String :=
  match Decimal.read x with
  | .finite d => doubleLayout.shortestText d
  | _ => "null"

def hexDigit (n : Nat) : Char := (Nat.digitChar n)

/-- A character inside a string: the quote, the backslash and the controls below the blank are escaped. -/
def escapeChar (c : Char) : List Char :=
  match c with
  | '"' => ['\\', '"']
  | '\\' => ['\\', '\\']
  | '\x08' => ['\\', 'b']
  | '\x0c' => ['\\', 'f']
  | '\n' => ['\\', 'n']
  | '\r' => ['\\', 'r']
  | '\t' => ['\\', 't']
  | c => if c.toNat < 0x20 then ['\\', 'u', '0', '0', hexDigit (c.toNat / 16), hexDigit (c.toNat % 16)] else [c]

def stringText (s : String) : String :=
  String.ofList ('"' :: s.toList.flatMap escapeChar ++ ['"'])

mutual

def compact : Json → String
  | .null => "null"
  | .bool b => if b then "true" else "false"
  | .int n => toString n
  | .double x => doubleText x
  | .string s => stringText s
  | .array items => "[" ++ ",".intercalate (compactItems items) ++ "]"
  | .object members => "\x7b" ++ ",".intercalate (compactMembers members) ++ "\x7d"

def compactItems : List Json → List String
  | [] => []
  | v :: vs => compact v :: compactItems vs

def compactMembers : List (String × Json) → List String
  | [] => []
  | (k, v) :: ms => (stringText k ++ ":" ++ compact v) :: compactMembers ms

end

def bracketed (openText closeText : String) (depth : Nat) (lines : List String) : String :=
  if lines.isEmpty then openText ++ closeText else
  let indent (n : Nat) := "\n" ++ String.ofList (List.replicate (2 * n) ' ')
  openText ++ ",".intercalate (lines.map (indent (depth + 1) ++ ·)) ++ indent depth ++ closeText

mutual

/-- A value with every item and member on a line of its own, two blanks deeper than what holds it. -/
def indented (depth : Nat) : Json → String
  | .array items => bracketed "[" "]" depth (indentedItems depth items)
  | .object members => bracketed "\x7b" "\x7d" depth (indentedMembers depth members)
  | .null => "null"
  | .bool b => if b then "true" else "false"
  | .int n => toString n
  | .double x => doubleText x
  | .string s => stringText s

def indentedItems (depth : Nat) : List Json → List String
  | [] => []
  | v :: vs => indented (depth + 1) v :: indentedItems depth vs

def indentedMembers (depth : Nat) : List (String × Json) → List String
  | [] => []
  | (k, v) :: ms => (stringText k ++ ": " ++ indented (depth + 1) v) :: indentedMembers depth ms

end

end Json

end ScriptHost
