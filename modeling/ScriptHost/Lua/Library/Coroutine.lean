import ScriptHost.Lua.Native

/-! # The functions on coroutines -/

namespace ScriptHost.Lua.Coroutine

open Native

def checkThread (args : List Value) (n : Nat) : Native Nat :=
  match arg args n with
  | .thread t => pure t
  | _ => typeError args n "coroutine"

def create (args : List Value) : Native (List Value) := do ask (.spawn (← checkFunction args 1))

def resume (args : List Value) : Native (List Value) := do ask (.resume (← checkThread args 1) (args.drop 1))

def wrap (args : List Value) : Native (List Value) := do
  match first (← create args) with
  | .thread t => ask (.bind (.wrap t))
  | v => return [v]

def closeFailed (thread : Nat) (e : Value) : Native Value := do
  let answer ← ask (.close thread)
  return if (arg answer 1).truthy then e else arg answer 2

/-- Resumes a wrapped coroutine. Its errors go on to the caller; to a string the place of the call is added. -/
def wrapped (thread : Nat) (args : List Value) : Native (List Value) := do
  let answer ← ask (.resume thread args)
  if (arg answer 1).truthy then return answer.drop 1
  let failed ← ask (.failed thread)
  let e ← if (arg failed 1).truthy then closeFailed thread (arg answer 2) else pure (arg answer 2)
  match e with
  | .str s =>
    if (arg failed 2).truthy then fail .memory
    match first (← ask (.position 1)) with
    | .str place => fail (.object (.str (place ++ s)))
    | _ => fail (.object e)
  | e => fail (.object e)

def threadOrRunning (args : List Value) : Native (List Value) := do
  match arg args 1 with
  | .thread t => return [.thread t]
  | _ => ask .running

def isyieldable (args : List Value) : Native (List Value) := do
  match arg args 1, first (← ask .running) with
  | .thread t, .thread running => if t = running then ask .yieldable else return [.bool true]
  | _, _ => ask .yieldable

def status (args : List Value) : Native (List Value) := do ask (.status (← checkThread args 1))

def close (args : List Value) : Native (List Value) := do
  let t ← checkThread args 1
  match first (← ask (.status t)) with
  | .str s =>
    if s == bytes "dead" || s == bytes "suspended" then ask (.close t)
    else errorBytes (bytes "cannot close a " ++ s ++ bytes " coroutine")
  | _ => return []

end ScriptHost.Lua.Coroutine

namespace ScriptHost.Lua

def CoroutineFn.run (f : CoroutineFn) (args : List Value) : Native (List Value) :=
  match f with
  | close => Coroutine.close args
  | create => Coroutine.create args
  | isyieldable => Coroutine.isyieldable args
  | resume => Coroutine.resume args
  | running => Native.ask .running
  | status => Coroutine.status args
  | wrap => Coroutine.wrap args
  | yield => Native.ask (.yield args)

end ScriptHost.Lua
