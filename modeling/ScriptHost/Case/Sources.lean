import ScriptHost.Case.Error

/-! # Reading a case

The scripts of a case are the files with the extension of scripts, wherever they lie below its folder; one of them is
the main script. -/

namespace ScriptHost.Case

def mainScript : String := "main.lua"

abbrev Sources := List (String × String)

def Sources.insert (path script : String) : Sources → Sources
  | [] => [(path, script)]
  | (p, s) :: rest =>
    match compare path p with
    | .lt => (path, script) :: (p, s) :: rest
    | .eq => (path, script) :: rest
    | .gt => (p, s) :: Sources.insert path script rest

def slashed (path : String) : String := String.ofList (path.toList.map fun c => if c = '\\' then '/' else c)

def gather (folder : Folder) : List (String × ByteArray) → Sources → Except Error Sources
  | [], sources => .ok sources
  | (path, _) :: rest, sources =>
    if Folder.extension? path ≠ some "lua" then gather folder rest sources
    else
      match folder.readText path with
      | .error fault => .error (.unreadable path fault)
      | .ok script => gather folder rest (sources.insert (slashed path) script)

def readSources (folder : Folder) : Except Error Sources := do
  let sources ← gather folder folder.files []
  if sources.any (·.1 == mainScript) then .ok sources else .error .mainMissing

def readCase (folder : Folder) (path : String) : Except Error TestCase := do
  let text ←
    match folder.readText path with
    | .ok text => .ok text
    | .error fault => .error (.unreadable path fault)
  let case ←
    match TestCase.ofText text with
    | .ok case => .ok case
    | .error fault => .error (.unparsable path fault)
  if case.schema == schemaVersion then .ok case else .error (.schema case.schema)

end ScriptHost.Case
