import ScriptHost.Decimal.Numeral
import ScriptHost.Failure
import ScriptHost.Text.Digit

/-! # Source positions in diagnostics

A diagnostic about a script starts with the script's first line in brackets and quotes, followed by a line number. Since
the quoted text may itself look like the end of such a mark, the last mark in the first line of the diagnostic counts. -/

namespace ScriptHost

structure Location where
  chunk : String
  line : Nat
  deriving DecidableEq, Repr

namespace Location

def opening : List Char := "[string \"".toList

/-- The digits of a mark: a quote, a bracket and a colon, one or more digits of any script, and a colon. -/
def mark? : List Char → Option (List Char)
  | '"' :: ']' :: ':' :: rest =>
    let digits := rest.takeWhile Text.isDigit
    if digits.isEmpty ∨ (rest.dropWhile Text.isDigit).head? ≠ some ':' then none else some digits
  | _ => none

/-- The characters before the last mark, and its digits. -/
def lastMark? : List Char → Option (List Char × List Char)
  | [] => none
  | c :: cs =>
    match lastMark? cs with
    | some (chunk, digits) => some (c :: chunk, digits)
    | none => (mark? (c :: cs)).map ([], ·)

/-- A line number: ASCII digits that denote at most 32 bits. -/
def lineNumber? (digits : List Char) : Option Nat :=
  let (n, _, rest) := Decimal.digitRun 10 digits 0 0
  if rest.isEmpty ∧ n < 2 ^ 32 then some n else none

/-- The position that a diagnostic starts with, if any. -/
def ofMessage? (message : String) : Option Location := do
  let firstLine := message.toList.takeWhile (· ≠ '\n')
  if ¬ opening.isPrefixOf firstLine then none
  let (chunk, digits) ← lastMark? (firstLine.drop opening.length)
  let line ← lineNumber? digits
  some ⟨String.ofList chunk, line⟩

end Location

def ExecutionError.location? (e : ExecutionError) : Option Location := Location.ofMessage? e.message

end ScriptHost
