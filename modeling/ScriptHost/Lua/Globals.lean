import ScriptHost.Lua.Library

/-! # The variables a script starts with

The store of a new interpreter: the global functions and the tables of the library. -/

namespace ScriptHost.Lua

def BasicFn.global : List BasicFn :=
  [assert, collectgarbage, error, getmetatable, ipairs, load, next, pairs, pcall, print, rawequal, rawget, rawlen,
    rawset, select, setmetatable, tonumber, tostring, type, xpcall]

def StringFn.named : List StringFn :=
  [byte, char, find, format, gmatch, gsub, len, lower, «match», rep, reverse, sub, upper, pack, packsize, unpack]

def StringFn.events : List StringFn := [add, sub_, mul, mod, pow, div, idiv, unm]

def TableFn.named : List TableFn := [concat, insert, move, pack, remove, sort, unpack]

def MathFn.named : List MathFn :=
  [abs, acos, asin, atan, ceil, cos, deg, exp, floor, fmod, log, max, min, modf, rad, random, randomseed, sin, sqrt, tan,
    tointeger, type, ult]

def Utf8Fn.named : List Utf8Fn := [char, codepoint, codes, len, offset]

def CoroutineFn.named : List CoroutineFn := [close, create, isyieldable, resume, running, status, wrap, yield]

namespace Globals

def outsiders (library : String) (names : List String) : List (String × Value) :=
  names.map fun name => (name, .builtin (.outside (if library.isEmpty then name else library ++ "." ++ name)))

def addRecord (h : Heap) (fields : List (String × Value)) : Nat × Heap :=
  h.addTable (fields.foldl (fun t (name, v) => t.setStr name v) (.sized 0 fields.length))

def addLibrary (h : Heap) (fields : List (String × Value)) : Value × Heap :=
  let (r, h) := addRecord h fields
  (.table r, h)

def stringFields : List (String × Value) := StringFn.named.map fun f => (f.name, .builtin (.string f))

def mathFields : List (String × Value) :=
  (MathFn.named.map fun f => (f.name, Value.builtin (.math f))) ++
    [("pi", .float Maths.pi), ("huge", .float (1.0 / 0.0)), ("maxinteger", .int Int64.maxValue),
      ("mininteger", .int Int64.minValue)]

def characterPattern : Bytes := .mk #[0x5b, 0x00, 0x2d, 0x7f, 0xc2, 0x2d, 0xfd, 0x5d, 0x5b, 0x80, 0x2d, 0xbf, 0x5d, 0x2a]

def utf8Fields : List (String × Value) :=
  (Utf8Fn.named.map fun f => (f.name, Value.builtin (.utf8 f))) ++ [("charpattern", .str characterPattern)]

def fileMethods : List (String × Value) := outsiders "file" ["close", "flush", "lines", "read", "seek", "setvbuf", "write"]

def inputFields : List (String × Value) :=
  outsiders "io" ["close", "flush", "input", "lines", "open", "output", "popen", "read", "tmpfile", "type", "write"]

def systemFields : List (String × Value) :=
  outsiders "os" ["clock", "date", "difftime", "execute", "exit", "getenv", "remove", "rename", "setlocale", "time",
    "tmpname"]

def addFiles (h : Heap) : List (String × Value) × Heap :=
  let (methods, h) := addLibrary h fileMethods
  let (metatable, h) := addRecord h
    (("__name", .ofText "FILE*") :: ("__index", methods) :: ("__tostring", .builtin .fileText) ::
      outsiders "" ["__gc", "__close"])
  let first := h.userdata.size
  let files := ["stdin", "stdout", "stderr"]
  (files.mapIdx fun i name => (name, Value.userdata (first + i)),
    { h with userdata := h.userdata ++ Array.replicate files.length ⟨some metatable⟩ })

def addStringMetatable (h : Heap) (strings : Value) : Heap :=
  let (metatable, h) := addRecord h
    (("__index", strings) :: StringFn.events.map fun f => (f.name, Value.builtin (.string f)))
  { h with stringMetatable := some metatable }

def addLibraries (h : Heap) : List (String × Value) × Heap :=
  let (strings, h) := addLibrary h stringFields
  let h := addStringMetatable h strings
  let (tables, h) := addLibrary h (TableFn.named.map fun f => (f.name, .builtin (.table f)))
  let (maths, h) := addLibrary h mathFields
  let (utf8, h) := addLibrary h utf8Fields
  let (coroutines, h) := addLibrary h (CoroutineFn.named.map fun f => (f.name, .builtin (.coroutine f)))
  let (files, h) := addFiles h
  let (io, h) := addLibrary h (inputFields ++ files)
  let (os, h) := addLibrary h systemFields
  ([("string", strings), ("table", tables), ("math", maths), ("utf8", utf8), ("coroutine", coroutines), ("io", io),
    ("os", os)], h)

def addPackages (h : Heap) (globals : Value) (libraries : List (String × Value)) : Value × Heap :=
  let (loaded, h) := addRecord h (("_G", globals) :: libraries)
  let (preload, h) := addLibrary h []
  let (package, h) := addLibrary h
    ([("loaded", .table loaded), ("preload", preload), ("config", .ofText "/\n;\n?\n!\n-\n"),
      ("path", .ofText ""), ("cpath", .ofText "")] ++ outsiders "package" ["loadlib", "searchpath"])
  (package, h.modifyTable loaded (·.setStr "package" package))

/-- The store of a new interpreter with its global variables, without any namespace. -/
def fresh : Heap :=
  let globals := Heap.globals
  let (libraries, h) := addLibraries {}
  let (package, h) := addPackages h (.table globals) libraries
  let fields := (BasicFn.global.map fun f => (f.name, Value.builtin (.basic f))) ++
    outsiders "" ["dofile", "loadfile", "require", "warn"] ++ libraries ++
    [("package", package), ("_G", .table globals), ("_VERSION", .ofText "Lua 5.4")]
  fields.foldl (fun h (name, v) => h.rawSet globals (.ofText name) v) h

end Globals

end ScriptHost.Lua
