import ScriptHost.Decimal.Numeral
import ScriptHost.Failure
import ScriptHost.LogLevel

/-! # Settings of an engine

A log level and an optional limit on the memory of the interpreter. Both may come from named settings of the
environment; the first that makes no sense is reported with the text it was given. -/

namespace ScriptHost

/-- The settings of an engine. The limit counts bytes. -/
structure EngineOptions where
  logLevel : LogLevel := .default
  memoryLimit : Option Nat := none
  deriving DecidableEq, Repr

namespace EngineOptions

def logLevelSetting : String := "LB_LOG_LEVEL"

def memoryLimitSetting : String := "LB_MEMORY_LIMIT"

/-- A byte count: blanks around it, an optional plus sign, ASCII digits, a value of at most 64 bits. -/
def byteCount? (raw : String) : Option Nat :=
  let digits :=
    match Text.trimChars raw.toList with
    | '+' :: rest => rest
    | cs => cs
  let (n, count, rest) := Decimal.digitRun 10 digits 0 0
  if 0 < count ∧ rest.isEmpty ∧ n < 2 ^ 64 then some n else none

/-- The value that a setting has, or a given one if it is absent. A text that makes no sense is reported in the words of
the setting. -/
def readSetting {α : Type} (parse? : String → Option α) (absent : α) (report : String → String) :
    Option String → Except HostError α
  | none => .ok absent
  | some raw =>
    match parse? raw with
    | some a => .ok a
    | none => .error ⟨"ENGINE_CONFIG_INVALID", report raw⟩

def readLogLevel : Option String → Except HostError LogLevel :=
  readSetting LogLevel.parse? .default fun raw => s!"{logLevelSetting} has unsupported value \"{raw}\"."

def readMemoryLimit : Option String → Except HostError (Option Nat) :=
  readSetting (fun raw => (byteCount? raw).map some) none fun raw =>
    s!"{memoryLimitSetting} must be a byte count, got \"{raw}\"."

/-- The settings found under their names; the log level is looked at first. -/
def ofLookup (lookup : String → Option String) : Except HostError EngineOptions := do
  let logLevel ← readLogLevel (lookup logLevelSetting)
  let memoryLimit ← readMemoryLimit (lookup memoryLimitSetting)
  .ok ⟨logLevel, memoryLimit⟩

end EngineOptions

end ScriptHost
