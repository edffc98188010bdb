import ScriptHost.Case.Model

/-! # Test cases as JSON

Every field is written, in the order of declaration, except the parts of an expected outcome that are not given. All but
a few fields may be left out when a case is read. -/

namespace ScriptHost.Case

open Json (Decoder Fields)

def optionJson : Option String → Json
  | none => .null
  | some s => .string s

def errorJson (e : HostError) : Json := .object [("code", .string e.code), ("message", .string e.message)]

def FunctionSpec.toJson (f : FunctionSpec) : Json :=
  .object [("namespace", .string f.key.space), ("name", .string f.key.name), ("result", .int f.result.toInt),
    ("error", (f.error.map errorJson).getD .null)]

def Call.toJson (c : Call) : Json :=
  .object [("namespace", .string c.key.space), ("name", .string c.key.name),
    ("args", .array (c.args.map Argument.toJson))]

def optionalField (name : String) : Option String → List (String × Json)
  | none => []
  | some s => [(name, .string s)]

def Outcome.toJson (o : Outcome) : Json :=
  .object (("code", o.code.toJson) :: optionalField "message" o.message ++ optionalField "messageContains" o.fragment)

def TestCase.toJson (t : TestCase) : Json :=
  .object [("schemaVersion", .string t.schema), ("logLevel", optionJson t.logLevel), ("executions", .int t.executions),
    ("functions", .array (t.functions.map FunctionSpec.toJson)),
    ("expectedCalls", .array (t.expectedCalls.map Call.toJson)), ("expectedOutcome", t.expectedOutcome.toJson)]

def decodeResult : Decoder Int32 := fun depth t =>
  Int32.ofInt <$> Json.decodeWhole (-(2 ^ 31)) (2 ^ 31 - 1) depth t

def decodeCount : Decoder Nat := fun depth t => Int.toNat <$> Json.decodeWhole 0 (2 ^ 64 - 1) depth t

def decodeError : Decoder HostError := fun depth t => do
  let text := Json.decodeString
  let fields ← Json.decodeFields ["code", "message"] (fun _ => true) (fun depth _ => text.check depth) depth t
  let code ← fields.value 0 text depth (.error .mismatch)
  let message ← fields.value 1 text depth (.error .mismatch)
  .ok ⟨code, message⟩

def decodeFunctionSpec : Decoder FunctionSpec := fun depth t => do
  let text := Json.decodeString
  let error := Json.decodeOption decodeError
  let check (depth i : Nat) : Json.Tree → Except Json.Fault Unit :=
    match i with
    | 0 | 1 => text.check depth
    | 2 => decodeResult.check depth
    | _ => error.check depth
  let fields ← Json.decodeFields ["namespace", "name", "result", "error"] (· == 1) check depth t
  let space ← fields.value 0 text depth (.ok defaultNamespace)
  let name ← fields.value 1 text depth (.error .mismatch)
  let result ← fields.value 2 decodeResult depth (.ok 0)
  let failure ← fields.value 3 error (depth - 1) (.ok none)
  .ok ⟨⟨space, name⟩, result, failure⟩

def decodeCall : Decoder Call := fun depth t => do
  let text := Json.decodeString
  let args := Json.decodeArray Argument.decode
  let check (depth i : Nat) : Json.Tree → Except Json.Fault Unit :=
    match i with
    | 0 | 1 => text.check depth
    | _ => args.check depth
  let fields ← Json.decodeFields ["namespace", "name", "args"] (· == 1) check depth t
  let space ← fields.value 0 text depth (.ok defaultNamespace)
  let name ← fields.value 1 text depth (.error .mismatch)
  let args ← fields.value 2 args (depth - 1) (.ok [])
  .ok ⟨⟨space, name⟩, args⟩

def decodeOutcome : Decoder Outcome := fun depth t => do
  let text := Json.decodeOption Json.decodeString
  let check (depth i : Nat) : Json.Tree → Except Json.Fault Unit :=
    match i with
    | 0 => ReturnCode.decode.check depth
    | _ => text.check depth
  let fields ← Json.decodeFields ["code", "message", "messageContains"] (· == 0) check depth t
  let code ← fields.value 0 ReturnCode.decode (depth - 1) (.error .mismatch)
  let message ← fields.value 1 text depth (.ok none)
  let fragment ← fields.value 2 text depth (.ok none)
  .ok ⟨code, message, fragment⟩

def TestCase.decode : Decoder TestCase := fun depth t => do
  let text := Json.decodeString
  let level := Json.decodeOption Json.decodeString
  let functions := Json.decodeArray decodeFunctionSpec
  let calls := Json.decodeArray decodeCall
  let check (depth i : Nat) : Json.Tree → Except Json.Fault Unit :=
    match i with
    | 0 => text.check depth
    | 1 => level.check depth
    | 2 => decodeCount.check depth
    | 3 => functions.check depth
    | 4 => calls.check depth
    | _ => decodeOutcome.check depth
  let names := ["schemaVersion", "logLevel", "executions", "functions", "expectedCalls", "expectedOutcome"]
  let fields ← Json.decodeFields names (· == 0) check depth t
  let schema ← fields.value 0 text depth (.error .mismatch)
  let logLevel ← fields.value 1 level depth (.ok none)
  let executions ← fields.value 2 decodeCount depth (.ok 1)
  let functions ← fields.value 3 functions (depth - 1) (.ok [])
  let expectedCalls ← fields.value 4 calls (depth - 1) (.ok [])
  let expectedOutcome ← fields.value 5 decodeOutcome (depth - 1) (.ok {})
  .ok ⟨schema, logLevel, executions, functions, expectedCalls, expectedOutcome⟩

def TestCase.ofText (s : String) : Except Json.Fault TestCase := Json.decodeText TestCase.decode s

end ScriptHost.Case
