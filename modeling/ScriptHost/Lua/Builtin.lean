/-!
# Functions that scripts find ready

The names of the functions of the standard library and of the host, library by library. What
they do is defined with the libraries.
-/

set_option autoImplicit false

namespace ScriptHost.Lua

inductive BaseFunction where
  | assert | collectgarbage | dofile | error | getmetatable | ipairs | load | loadfile | next
  | pairs | pcall | rawequal | rawget | rawlen | rawset | select | setmetatable | tonumber
  | tostring | type | warn | xpcall
  /-- The step of an `ipairs` loop. -/
  | ipairsStep
deriving DecidableEq, Repr, Hashable, Inhabited

inductive StringFunction where
  | byte | char | dump | find | format | gmatch | gsub | len | lower | «match» | pack | packsize
  | rep | reverse | sub | unpack | upper
  | gmatchStep
  /-- Arithmetic on strings that look like numbers. -/
  | add | subtract | multiply | modulo | power | divide | floorDivide | negate
deriving DecidableEq, Repr, Hashable, Inhabited

inductive TableFunction where
  | concat | insert | move | pack | remove | sort | unpack
deriving DecidableEq, Repr, Hashable, Inhabited

inductive MathFunction where
  | abs | acos | asin | atan | ceil | cos | deg | exp | floor | fmod | log | max | min | modf
  | rad | random | randomseed | sin | sqrt | tan | tointeger | type | ult
deriving DecidableEq, Repr, Hashable, Inhabited

inductive Utf8Function where
  | char | codepoint | codes | len | offset
  | codesStep
deriving DecidableEq, Repr, Hashable, Inhabited

inductive CoroutineFunction where
  | close | create | isyieldable | resume | running | status | wrap | yield
  /-- The function that `wrap` gives. -/
  | wrapped
deriving DecidableEq, Repr, Hashable, Inhabited

inductive PackageFunction where
  | require | searchpath | loadlib
  | searchPreload | searchFiles | searchNative
deriving DecidableEq, Repr, Hashable, Inhabited

inductive SystemFunction where
  | clock | date | difftime | getenv | time
  | absent (library name : String)
deriving DecidableEq, Repr, Hashable, Inhabited

/-- Functions of the host, which act on the engine, the invocation and the engine manager. -/
inductive HostFunction where
  | print | write | log | isAbsent
  /-- Refuses assignments to binding names. -/
  | guardAssignment
  | resultsGet | resultsSet | resultsCount | resultsPairs
  | managerIndex | managerCachedKeys | managerIsCached | managerClear
  | contextGet
  /-- The text of a failure that a script has caught. -/
  | failureText
  /-- A function that the host gave for the time of one run. -/
  | callback (index : Nat)
deriving DecidableEq, Repr, Hashable, Inhabited

inductive Builtin where
  | base (f : BaseFunction)
  | string (f : StringFunction)
  | table (f : TableFunction)
  | math (f : MathFunction)
  | utf8 (f : Utf8Function)
  | coroutine (f : CoroutineFunction)
  | package (f : PackageFunction)
  | system (f : SystemFunction)
  | host (f : HostFunction)
deriving DecidableEq, Repr, Hashable, Inhabited

end ScriptHost.Lua
