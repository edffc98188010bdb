import ScriptHost.Text.Utf8

/-! # The files of a case

A folder is a finite set of files with their contents, by their paths below the folder. The parts of a path are joined
by slashes; a folder inside the folder exists where a file lies below it, or on its own. -/

namespace ScriptHost.Case

inductive ReadFault where
  | notFound
  | isDirectory
  | notDirectory
  | notText
  deriving DecidableEq, Repr

def ReadFault.reason : ReadFault → String
  | notFound => "No such file or directory (os error 2)"
  | isDirectory => "Is a directory (os error 21)"
  | notDirectory => "Not a directory (os error 20)"
  | notText => "stream did not contain valid UTF-8"

/-- The files below a folder, and the folders below it that may have none. -/
structure Folder where
  files : List (String × ByteArray) := []
  folders : List String := []

namespace Folder

def isBelow (path folder : String) : Bool := folder.isEmpty || (folder ++ "/").toList.isPrefixOf path.toList

def hasFolder (f : Folder) (path : String) : Bool :=
  path.isEmpty || f.folders.any (fun p => p == path || isBelow p path) || f.files.any fun (p, _) => isBelow p path

def read (f : Folder) (path : String) : Except ReadFault ByteArray :=
  match f.files.find? (·.1 == path) with
  | some (_, content) => .ok content
  | none =>
    if f.hasFolder path then .error .isDirectory
    else if f.files.any (fun (p, _) => isBelow path p) then .error .notDirectory
    else .error .notFound

def readText (f : Folder) (path : String) : Except ReadFault String := do
  match Text.Utf8.decode? (← f.read path) with
  | some s => .ok s
  | none => .error .notText

def fileName (path : String) : List Char := (path.toList.reverse.takeWhile (· ≠ '/')).reverse

/-- The extension of a path: what follows the last dot of the file name, unless the name starts with that dot. -/
def extension? (path : String) : Option String :=
  let name := fileName path
  let ending := name.reverse.takeWhile (· ≠ '.')
  if name.length ≤ ending.length + 1 then none else some (String.ofList ending.reverse)

end Folder

end ScriptHost.Case
