import ScriptHost.Text.Combining
import ScriptHost.Text.Unprintable

/-! # Quoted text for inspection

A text between double quotes in which quotes, backslashes and the usual controls are escaped by a letter, and every
character without a visible form of its own by its number. -/

namespace ScriptHost.Text

/-- A character by its number: `\u{...}` with as few hexadecimal digits as it has. -/
def escapeByNumber (c : Char) : List Char :=
  ['\\', 'u', '\x7b'] ++ Nat.toDigits 16 c.toNat ++ ['\x7d']

def escapeChar (c : Char) : List Char :=
  match c with
  | '\x00' => ['\\', '0']
  | '\t' => ['\\', 't']
  | '\r' => ['\\', 'r']
  | '\n' => ['\\', 'n']
  | '\\' => ['\\', '\\']
  | '"' => ['\\', '"']
  | c => if isCombining c || !isPrintable c then escapeByNumber c else [c]

def quoted (s : String) : String :=
  String.ofList ('"' :: s.toList.flatMap escapeChar ++ ['"'])

def quotedSet (items : List String) : String :=
  "\x7b" ++ ", ".intercalate (items.map quoted) ++ "\x7d"

end ScriptHost.Text
