import ScriptHost.Case.Format
import ScriptHost.Proofs.Json.Decoding

/-! # Cases survive their text

Each record of a case is read from its own tree as it was written, and a whole case from its text. The one part that may
change on the way is a double, so the doubles among the arguments are assumed to read back. -/

namespace ScriptHost

open Json (Tree Faithful Accepted)

namespace Argument

/-- Whether an argument survives its text: all but numbers do anyway. -/
def ReadsBack : Argument → Prop
  | number x => Json.ReadsBack x
  | _ => True

instance : DecidablePred ReadsBack
  | number x => inferInstanceAs (Decidable (Json.ReadsBack x))
  | nil | bool _ | text _ => .isTrue trivial

theorem faithful {a : Argument} (h : a.ReadsBack) : Faithful a.toJson := by
  cases a with
  | nil => exact .null
  | bool b => exact .bool b
  | number x => exact .double h
  | text s => exact .string s

theorem decode_tree {a : Argument} (h : a.ReadsBack) (depth : Nat) : decode depth a.toJson.tree = .ok a := by
  cases a with
  | nil | bool | text => rfl
  | number x =>
    obtain ⟨n, -, hroot, hvalue⟩ := Json.ReadsBack.exists_number h
    rw [toJson, Json.tree, hroot, decode]
    cases hnumber : n.value with
    | error f =>
      rw [hnumber] at hvalue
      cases hvalue
    | ok v =>
      rw [hnumber] at hvalue
      cases hvalue
      rfl

end Argument

theorem ReturnCode.decode_tree (c : ReturnCode) (depth : Nat) : decode depth c.toJson.tree = .ok c := by
  rw [toJson, Json.tree, decode, Json.decodeName]
  simp only [bind, Except.bind, ofName?_name]

namespace Case

theorem decode_optionTree (o : Option String) (depth : Nat) :
    Json.decodeOption Json.decodeString depth (optionJson o).tree = .ok o := by
  cases o <;> rfl

theorem decodeError_tree (e : HostError) {depth : Nat} (hdepth : 1 < depth) :
    decodeError depth (errorJson e).tree = .ok e := by
  have htree : (errorJson e).tree = .object (Json.written ["code", "message"]
      [some (.string (.ok e.code)), some (.string (.ok e.message))]) none := rfl
  rw [decodeError, htree, Json.decodeFields_written hdepth (by decide) rfl (.given rfl (.given rfl (.nil 2)))]
  rfl

theorem decodeResult_tree (n : Int32) (depth : Nat) : decodeResult depth (Json.int n.toInt).tree = .ok n := by
  have hlow := n.le_toInt
  have hhigh := n.toInt_lt
  rw [decodeResult, Json.tree, Json.decodeWhole_ofInt hlow (by omega) (by omega) (by omega)]
  exact congrArg Except.ok (Int32.ofInt_toInt n)

theorem decodeCount_tree {n : Nat} (h : n < 2 ^ 64) (depth : Nat) : decodeCount depth (Json.int n).tree = .ok n := by
  rw [decodeCount, Json.tree, Json.decodeWhole_ofInt (by omega) (by omega) (by omega) (by omega)]
  rfl

theorem decodeFunctionSpec_tree (f : FunctionSpec) {depth : Nat} (hdepth : 2 < depth) :
    decodeFunctionSpec depth f.toJson.tree = .ok f := by
  have htree : f.toJson.tree = .object (Json.written ["namespace", "name", "result", "error"]
      [some (.string (.ok f.key.space)), some (.string (.ok f.key.name)), some (Json.int f.result.toInt).tree,
        some ((f.error.map errorJson).getD .null).tree]) none := rfl
  have hresult (d : Nat) := decodeResult_tree f.result d
  have herror : Json.decodeOption decodeError (depth - 1) ((f.error.map errorJson).getD .null).tree = .ok f.error := by
    cases f.error with
    | none => rfl
    | some e => exact Json.decodeOption_some nofun (decodeError_tree e (by omega))
  rw [decodeFunctionSpec, htree, Json.decodeFields_written (by omega) (by decide) rfl
    (.given rfl (.given rfl (.given (Json.check_of_ok (hresult _)) (.given (Json.check_of_ok herror) (.nil 4)))))]
  simp [Json.Fields.value, Json.decodeString, hresult, herror, bind, Except.bind]

theorem decodeCall_tree {c : Call} (h : ∀ a ∈ c.args, a.ReadsBack) {depth : Nat} (hdepth : 2 < depth) :
    decodeCall depth c.toJson.tree = .ok c := by
  have htree : c.toJson.tree = .object (Json.written ["namespace", "name", "args"]
      [some (.string (.ok c.key.space)), some (.string (.ok c.key.name)),
        some (Json.array (c.args.map Argument.toJson)).tree]) none := rfl
  have hargs : Json.decodeArray Argument.decode (depth - 1) (Json.array (c.args.map Argument.toJson)).tree = .ok c.args :=
    Json.decodeArray_tree (by omega) fun a ha => Argument.decode_tree (h a ha) _
  rw [decodeCall, htree, Json.decodeFields_written (by omega) (by decide) rfl
    (.given rfl (.given rfl (.given (Json.check_of_ok hargs) (.nil 3))))]
  simp [Json.Fields.value, Json.decodeString, hargs, bind, Except.bind]

theorem decodeOutcome_tree (o : Outcome) {depth : Nat} (hdepth : 1 < depth) :
    decodeOutcome depth o.toJson.tree = .ok o := by
  obtain ⟨code, message, fragment⟩ := o
  let fields : Json.Fields :=
    [some code.toJson.tree, message.map fun s => .string (.ok s), fragment.map fun s => .string (.ok s)]
  have htree : (Outcome.toJson ⟨code, message, fragment⟩).tree =
      .object (Json.written ["code", "message", "messageContains"] fields) none := by
    cases message <;> cases fragment <;> rfl
  have hcode (d : Nat) := code.decode_tree d
  rw [decodeOutcome, htree, Json.decodeFields_written hdepth (by decide) rfl]
  · cases message <;> cases fragment <;>
      simp [fields, Json.Fields.value, Json.decodeOption, Json.decodeString, hcode, bind, Except.bind]
  · refine .given (Json.check_of_ok (hcode _)) ?_
    cases message <;> cases fragment
    · exact .omitted rfl (.omitted rfl (.nil 3))
    · exact .omitted rfl (.given rfl (.nil 3))
    · exact .given rfl (.omitted rfl (.nil 3))
    · exact .given rfl (.given rfl (.nil 3))

theorem TestCase.decode_tree {t : TestCase} (hcount : t.executions < 2 ^ 64)
    (hargs : ∀ c ∈ t.expectedCalls, ∀ a ∈ c.args, a.ReadsBack) {depth : Nat} (hdepth : 4 < depth) :
    decode depth t.toJson.tree = .ok t := by
  have htree : t.toJson.tree = .object
      (Json.written ["schemaVersion", "logLevel", "executions", "functions", "expectedCalls", "expectedOutcome"]
        [some (.string (.ok t.schema)), some (optionJson t.logLevel).tree, some (Json.int t.executions).tree,
          some (Json.array (t.functions.map FunctionSpec.toJson)).tree,
          some (Json.array (t.expectedCalls.map Call.toJson)).tree, some t.expectedOutcome.toJson.tree]) none := rfl
  have hlevel (d : Nat) := decode_optionTree t.logLevel d
  have hexecutions (d : Nat) := decodeCount_tree hcount d
  have hfunctions : Json.decodeArray decodeFunctionSpec (depth - 1)
      (Json.array (t.functions.map FunctionSpec.toJson)).tree = .ok t.functions :=
    Json.decodeArray_tree (by omega) fun f _ => decodeFunctionSpec_tree f (by omega)
  have hcalls : Json.decodeArray decodeCall (depth - 1)
      (Json.array (t.expectedCalls.map Call.toJson)).tree = .ok t.expectedCalls :=
    Json.decodeArray_tree (by omega) fun c hc => decodeCall_tree (hargs c hc) (by omega)
  have houtcome : decodeOutcome (depth - 1) t.expectedOutcome.toJson.tree = .ok t.expectedOutcome :=
    decodeOutcome_tree t.expectedOutcome (by omega)
  rw [decode, htree, Json.decodeFields_written (by omega) (by decide) rfl
    (.given rfl (.given (Json.check_of_ok (hlevel _)) (.given (Json.check_of_ok (hexecutions _))
      (.given (Json.check_of_ok hfunctions) (.given (Json.check_of_ok hcalls)
        (.given (Json.check_of_ok houtcome) (.nil 6)))))))]
  simp [Json.Fields.value, Json.decodeString, hlevel, hexecutions, hfunctions, hcalls, houtcome, bind, Except.bind]

theorem FunctionSpec.faithful (f : FunctionSpec) : Faithful f.toJson := by
  have herror : Faithful ((f.error.map errorJson).getD .null) := by
    cases f.error with
    | none => exact .null
    | some e => exact .member (.string _) (.member (.string _) .noMembers)
  exact .member (.string _) (.member (.string _) (.member (.int _) (.member herror .noMembers)))

theorem Call.faithful {c : Call} (h : ∀ a ∈ c.args, a.ReadsBack) : Faithful c.toJson := by
  have hargs : Faithful (.array (c.args.map Argument.toJson)) := .items fun a ha => Argument.faithful (h a ha)
  exact .member (.string _) (.member (.string _) (.member hargs .noMembers))

theorem Outcome.faithful (o : Outcome) : Faithful o.toJson := by
  obtain ⟨code, message, fragment⟩ := o
  refine .member (.string _) ?_
  cases message <;> cases fragment
  · exact .noMembers
  · exact .member (.string _) .noMembers
  · exact .member (.string _) .noMembers
  · exact .member (.string _) (.member (.string _) .noMembers)

theorem TestCase.faithful {t : TestCase} (hargs : ∀ c ∈ t.expectedCalls, ∀ a ∈ c.args, a.ReadsBack) :
    Faithful t.toJson := by
  have hlevel : Faithful (optionJson t.logLevel) := by
    cases t.logLevel with
    | none => exact .null
    | some level => exact .string level
  have hfunctions : Faithful (.array (t.functions.map FunctionSpec.toJson)) := .items fun f _ => f.faithful
  have hcalls : Faithful (.array (t.expectedCalls.map Call.toJson)) := .items fun c hc => Call.faithful (hargs c hc)
  exact .member (.string _) (.member hlevel (.member (.int _) (.member hfunctions (.member hcalls
    (.member t.expectedOutcome.faithful .noMembers)))))

/-- A case is read from its text as it was written. -/
theorem TestCase.ofText_written {t : TestCase} (hcount : t.executions < 2 ^ 64)
    (hargs : ∀ c ∈ t.expectedCalls, ∀ a ∈ c.args, a.ReadsBack) : ofText t.toJson.compact = .ok t := by
  rw [ofText, Json.decodeText_compact decode (faithful hargs)]
  exact decode_tree hcount hargs (by decide)

/-- A case with texts that need escapes, with texts that look like other values, and with the largest numbers. -/
def quotingCase : TestCase where
  schema := "\"\\/\x08\x0c\n\r\t\x00\x1f\x7f é 😀"
  executions := 2 ^ 64 - 1
  functions := [{ key := ⟨"", ":"⟩, result := -2147483648, error := some ⟨"\\u0041", ""⟩ }, { key := ⟨"a", "b"⟩ }]
  expectedCalls := [⟨⟨"a", "b"⟩, [.text "0.1", .number 0.1, .number (-0.0)]⟩,
    ⟨⟨"a", "b"⟩, [.text "null", .nil, .text "true", .bool true]⟩]
  expectedOutcome := { code := .syntaxError, fragment := some "" }

theorem TestCase.ofText_written_quoting : quotingCase.executions < 2 ^ 64 ∧
    (∀ c ∈ quotingCase.expectedCalls, ∀ a ∈ c.args, a.ReadsBack) ∧
    ofText quotingCase.toJson.compact = .ok quotingCase := by
  have hcount : quotingCase.executions < 2 ^ 64 := by decide
  have hargs : ∀ c ∈ quotingCase.expectedCalls, ∀ a ∈ c.args, a.ReadsBack := by decide +kernel
  exact ⟨hcount, hargs, ofText_written hcount hargs⟩

end Case

end ScriptHost
