import ScriptHost.Lua.Library.Basic
import ScriptHost.Lua.Library.Coroutine
import ScriptHost.Lua.Library.Format
import ScriptHost.Lua.Library.Maths
import ScriptHost.Lua.Library.Pack
import ScriptHost.Lua.Library.Tables
import ScriptHost.Lua.Library.Unicode

/-! # The library

What every supplied function does, and the name under which diagnostics know it when its call has none. -/

namespace ScriptHost.Lua

def StringFn.run (f : StringFn) (args : List Value) : Native (List Value) :=
  match f with
  | byte => Text.byte args
  | char => Text.char args
  | find => Text.look true args
  | format => Format.format args
  | gmatch => Text.gmatch args
  | gsub => Text.gsub args
  | len => Text.len args
  | lower => Text.lower args
  | «match» => Text.look false args
  | rep => Text.rep args
  | reverse => Text.reverse args
  | sub => Text.sub args
  | upper => Text.upper args
  | pack => Pack.pack args
  | packsize => Pack.packsize args
  | unpack => Pack.unpack args
  | add => Text.arith .add "add" args
  | sub_ => Text.arith .sub "sub" args
  | mul => Text.arith .mul "mul" args
  | mod => Text.arith .mod "mod" args
  | pow => Text.arith .pow "pow" args
  | div => Text.arith .div "div" args
  | idiv => Text.arith .idiv "idiv" args
  | unm => Text.unm args

def springTrap (args : List Value) : Native (List Value) := do
  let _ ← Native.ask .trap
  return [Native.arg args 1]

def Builtin.run (p : Platform) (f : Builtin) (args : List Value) : Native (List Value) :=
  match f with
  | basic f => f.run p args
  | string f => f.run args
  | table f => f.run args
  | math f => f.run p args
  | utf8 f => f.run args
  | coroutine f => f.run args
  | dispatch => Native.ask (.host args)
  | trap => springTrap args
  | fileText => return [.ofText ("file (" ++ Marshal.addressText (Native.arg args 1) ++ ")")]
  | outside name => do p.outside (← Platform.question) name args

def BasicFn.name : BasicFn → String
  | assert => "assert"
  | collectgarbage => "collectgarbage"
  | error => "error"
  | getmetatable => "getmetatable"
  | ipairs => "ipairs"
  | ipairsStep => "?"
  | load => "load"
  | next => "next"
  | pairs => "pairs"
  | pcall => "pcall"
  | print => "print"
  | rawequal => "rawequal"
  | rawget => "rawget"
  | rawlen => "rawlen"
  | rawset => "rawset"
  | select => "select"
  | setmetatable => "setmetatable"
  | tonumber => "tonumber"
  | tostring => "tostring"
  | type => "type"
  | xpcall => "xpcall"

def StringFn.name : StringFn → String
  | byte => "byte"
  | char => "char"
  | find => "find"
  | format => "format"
  | gmatch => "gmatch"
  | gsub => "gsub"
  | len => "len"
  | lower => "lower"
  | «match» => "match"
  | rep => "rep"
  | reverse => "reverse"
  | sub => "sub"
  | upper => "upper"
  | pack => "pack"
  | packsize => "packsize"
  | unpack => "unpack"
  | add => "__add"
  | sub_ => "__sub"
  | mul => "__mul"
  | mod => "__mod"
  | pow => "__pow"
  | div => "__div"
  | idiv => "__idiv"
  | unm => "__unm"

def TableFn.name : TableFn → String
  | concat => "concat"
  | insert => "insert"
  | move => "move"
  | pack => "pack"
  | remove => "remove"
  | sort => "sort"
  | unpack => "unpack"

def MathFn.name : MathFn → String
  | abs => "abs"
  | acos => "acos"
  | asin => "asin"
  | atan => "atan"
  | ceil => "ceil"
  | cos => "cos"
  | deg => "deg"
  | exp => "exp"
  | floor => "floor"
  | fmod => "fmod"
  | log => "log"
  | max => "max"
  | min => "min"
  | modf => "modf"
  | rad => "rad"
  | random => "random"
  | randomseed => "randomseed"
  | sin => "sin"
  | sqrt => "sqrt"
  | tan => "tan"
  | tointeger => "tointeger"
  | type => "type"
  | ult => "ult"

def Utf8Fn.name : Utf8Fn → String
  | char => "char"
  | codepoint => "codepoint"
  | codes => "codes"
  | codesStep => "?"
  | codesStepLax => "?"
  | len => "len"
  | offset => "offset"

def CoroutineFn.name : CoroutineFn → String
  | close => "close"
  | create => "create"
  | isyieldable => "isyieldable"
  | resume => "resume"
  | running => "running"
  | status => "status"
  | wrap => "wrap"
  | yield => "yield"

def Builtin.name : Builtin → String
  | basic f => f.name
  | string f => if f.name.startsWith "__" then "?" else "string." ++ f.name
  | table f => "table." ++ f.name
  | math f => "math." ++ f.name
  | utf8 f => if f.name = "?" then "?" else "utf8." ++ f.name
  | coroutine f => "coroutine." ++ f.name
  | dispatch | trap | fileText => "?"
  | outside name => name

end ScriptHost.Lua
