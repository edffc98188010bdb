import ScriptHost.Json.Value
import ScriptHost.Text.Blank

/-! # Log levels

A level says how much an engine reports. Each event has a severity, and a level admits the severities up to its own;
there is no event as grave as the level above errors asks for, so that level admits what the level of errors does. -/

namespace ScriptHost

inductive Severity where
  | error
  | warn
  | info
  | debug
  | trace
  deriving DecidableEq, Repr

namespace Severity

def all : List Severity := [error, warn, info, debug, trace]

def rank : Severity → Nat
  | error => 1
  | warn => 2
  | info => 3
  | debug => 4
  | trace => 5

def name : Severity → String
  | error => "ERROR"
  | warn => "WARN"
  | info => "INFO"
  | debug => "DEBUG"
  | trace => "TRACE"

end Severity

inductive LogLevel where
  | off
  | fatal
  | error
  | warn
  | info
  | debug
  | trace
  deriving DecidableEq, Repr

namespace LogLevel

def all : List LogLevel := [off, fatal, error, warn, info, debug, trace]

def default : LogLevel := info

instance : Inhabited LogLevel := ⟨default⟩

/-- The position of a level from silent to talkative. -/
def rank : LogLevel → Nat
  | off => 0
  | fatal => 1
  | error => 2
  | warn => 3
  | info => 4
  | debug => 5
  | trace => 6

instance : Ord LogLevel := ⟨fun a b => compare a.rank b.rank⟩

def name : LogLevel → String
  | off => "off"
  | fatal => "fatal"
  | error => "error"
  | warn => "warn"
  | info => "info"
  | debug => "debug"
  | trace => "trace"

def ofName? (s : String) : Option LogLevel := all.find? (·.name == s)

/-- The level that a text names, in capital or small letters and with blanks around it; everything is another word for
the most talkative one. -/
def parse? (raw : String) : Option LogLevel :=
  let word := Text.lowerAscii (Text.trim raw)
  if word = "all" then some trace else ofName? word

/-- The greatest rank of severity that a level admits. -/
def ceiling : LogLevel → Nat
  | off => 0
  | fatal => 1
  | error => 1
  | warn => 2
  | info => 3
  | debug => 4
  | trace => 5

def admits (l : LogLevel) (s : Severity) : Bool := s.rank ≤ l.ceiling

def toJson (l : LogLevel) : Json := .string l.name

end LogLevel

structure LogEvent where
  severity : Severity
  message : String
  deriving DecidableEq, Repr

end ScriptHost
