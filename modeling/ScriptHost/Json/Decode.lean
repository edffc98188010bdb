import ScriptHost.Json.Number

/-! # Reading typed values from JSON text

A decoder walks a tree in the order of its text and reports the first fault on the way. A record is written as an object,
whose fields may come in any order, or as an array of its fields in their order of declaration. Unknown fields are
skipped, and skipping asks less of a text than reading does. -/

namespace ScriptHost.Json

mutual

/-- The first fault that one who skips a value meets. -/
def Tree.skipFault : Tree → Option Fault
  | .null | .bool _ | .number _ | .string _ => none
  | .array items stop => skipItems items stop
  | .object members stop => skipMembers members stop
  | .broken b => some b.skip

def skipItems : List Tree → Option Fault → Option Fault
  | [], stop => stop
  | t :: ts, stop => t.skipFault.or (skipItems ts stop)

def skipMembers : List (Except Fault String × Tree) → Option Fault → Option Fault
  | [], stop => stop
  | (_, t) :: ms, stop => t.skipFault.or (skipMembers ms stop)

end

def faultOf {α : Type} : Except Fault α → Option Fault
  | .ok _ => none
  | .error f => some f

mutual

/-- The first fault that one who reads a value of any shape meets. `depth` levels of nesting are allowed, the last of
them excluded. -/
def Tree.readFault (depth : Nat) : Tree → Option Fault
  | .null | .bool _ => none
  | .number n => faultOf n.value
  | .string s => faultOf s
  | .array items stop => if depth ≤ 1 then some .malformed else readFaultItems (depth - 1) items stop
  | .object members stop => if depth ≤ 1 then some .malformed else readFaultMembers (depth - 1) members stop
  | .broken b => some b.value

def readFaultItems (depth : Nat) : List Tree → Option Fault → Option Fault
  | [], stop => stop
  | t :: ts, stop => (t.readFault depth).or (readFaultItems depth ts stop)

def readFaultMembers (depth : Nat) : List (Except Fault String × Tree) → Option Fault → Option Fault
  | [], stop => stop
  | (k, t) :: ms, stop => (faultOf k).or ((t.readFault depth).or (readFaultMembers depth ms stop))

end

abbrev Decoder (α : Type) := Nat → Tree → Except Fault α

/-- What a reader finds at a place where it wanted something else: a scalar is looked at before it is turned away. -/
def Tree.unwanted {α : Type} : Tree → Except Fault α
  | .number n => .error ((faultOf n.value).getD .mismatch)
  | .string s => .error ((faultOf s).getD .mismatch)
  | .broken b => .error b.value
  | _ => .error .mismatch

def decodeString : Decoder String
  | _, .string s => s
  | _, t => t.unwanted

def decodeWhole (low high : Int) : Decoder Int
  | _, .number n => do
    match ← n.value with
    | .whole k => if low ≤ k ∧ k ≤ high then .ok k else .error .mismatch
    | .double _ => .error .mismatch
  | _, t => t.unwanted

def decodeOption {α : Type} (decode : Decoder α) : Decoder (Option α)
  | _, .null => .ok none
  | depth, t => some <$> decode depth t

def decodeItems {α : Type} (decode : Tree → Except Fault α) : List Tree → Option Fault → Except Fault (List α)
  | [], none => .ok []
  | [], some f => .error f
  | t :: ts, stop => do
    let v ← decode t
    let vs ← decodeItems decode ts stop
    .ok (v :: vs)

def decodeArray {α : Type} (decode : Decoder α) : Decoder (List α)
  | depth, .array items stop =>
    if depth ≤ 1 then .error .malformed else decodeItems (decode (depth - 1)) items stop
  | _, t => t.unwanted

/-- One of a few names, given as a string, or as an object of which the name is the only field and null its value. -/
def decodeName {α : Type} (find : String → Option α) : Decoder α
  | _, .string s => do
    match find (← s) with
    | some v => .ok v
    | none => .error .mismatch
  | depth, .object members stop =>
    if depth ≤ 1 then .error .malformed else
    match members with
    | [] => .error (stop.getD .malformed)
    | (key, value) :: more => do
      match find (← key) with
      | none => .error .mismatch
      | some v =>
        match value with
        | .null =>
          if more.isEmpty then
            match stop with
            | none => .ok v
            | some f => .error f
          else .error .malformed
        | t => t.unwanted
  | _, .broken b => .error b.name
  | _, _ => .error .malformed

abbrev Fields := List (Option Tree)

def fieldIndex? (names : List String) (key : String) : Option Nat := names.findIdx? (· == key)

/-- Takes the members of an object in turn: a known field may come once and is checked on the spot, an unknown one is
skipped. -/
def takeMembers (names : List String) (check : Nat → Tree → Except Fault Unit) :
    List (Except Fault String × Tree) → Option Fault → Fields → Except Fault Fields
  | [], none, got => .ok got
  | [], some f, _ => .error f
  | (key, value) :: more, stop, got => do
    match fieldIndex? names (← key) with
    | some i =>
      if (got[i]?.join).isSome then .error .mismatch else
      check i value
      takeMembers names check more stop (got.set i (some value))
    | none =>
      match value.skipFault with
      | some f => .error f
      | none => takeMembers names check more stop got

/-- Takes the items of an array as the fields in turn; `required` fields may not be left out, and no item may follow the
last field. -/
def takeItems (required : Nat → Bool) (check : Nat → Tree → Except Fault Unit) :
    Nat → Nat → List Tree → Option Fault → Except Fault Fields
  | 0, _, [], none => .ok []
  | 0, _, [], some f => .error f
  | 0, _, _ :: _, _ => .error .malformed
  | left + 1, i, [], none =>
    if required i then .error .mismatch else (none :: ·) <$> takeItems required check left (i + 1) [] none
  | _ + 1, _, [], some f => .error f
  | left + 1, i, t :: ts, stop => do
    check i t
    (some t :: ·) <$> takeItems required check left (i + 1) ts stop

def decodeFields (names : List String) (required : Nat → Bool) (check : Nat → Nat → Tree → Except Fault Unit) :
    Decoder Fields
  | depth, .object members stop => do
    if depth ≤ 1 then .error .malformed
    let got ← takeMembers names (check (depth - 1)) members stop (names.map fun _ => none)
    if (List.range names.length).any fun i => required i && (got[i]?.join).isNone then .error .mismatch
    .ok got
  | depth, .array items stop =>
    if depth ≤ 1 then .error .malformed else takeItems required (check (depth - 1)) names.length 0 items stop
  | _, t => t.unwanted

def Decoder.check {α : Type} (decode : Decoder α) (depth : Nat) (t : Tree) : Except Fault Unit :=
  (fun _ => ()) <$> decode depth t

def Fields.value {α : Type} (fields : Fields) (i : Nat) (decode : Decoder α) (depth : Nat) (default : Except Fault α) :
    Except Fault α :=
  match fields[i]?.join with
  | some t => decode depth t
  | none => default

/-- The levels of nesting that a text may have. -/
def depthLimit : Nat := 128

/-- Reads a whole text: its value, then nothing but blanks. -/
def decodeText {α : Type} (decode : Decoder α) (s : String) : Except Fault α := do
  let doc := Document.ofText s
  let v ← decode depthLimit doc.root
  if doc.trailing then .error .malformed else .ok v

end ScriptHost.Json
