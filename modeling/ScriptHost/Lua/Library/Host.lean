import ScriptHost.Decimal.Layout
import ScriptHost.Lua.Conversion
import ScriptHost.Lua.Library.Base

/-!
# Functions of the host

Output, results, the context of an invocation, and the engine manager, as scripts see them. An
error inside a function that scripts pass to the host reaches them as a failure of the host.
-/

set_option autoImplicit false

namespace ScriptHost.Lua.Library

open Operation

/-- The failure that an error value stands for, if it stands for one. -/
def failure? (h : Heap) : Value → Option Failure
  | .userdata id =>
    match h.resource? id with
    | some (.failure f) => some f
    | _ => none
  | _ => none

/-- The failure that an error is outside of the script. A value that is no failure counts by the
text that scripts see for it. -/
def failureOf : Thrown → Eval Failure
  | .outOfMemory => return .memory
  | .error v => do
    match ← Eval.read fun h => failure? h v with
    | some f => return f
    | none =>
      match ← Eval.protect (do return [.string (← toText v)]) with
      | .ok vs => return .runtime (((firstOf vs).stringBytes?.map shownBytes).getD "")
      | .error .outOfMemory => return .memory
      | .error (.error _) => return .runtime "error in error handling"

/-- Calls a function; its errors become failures of the host. -/
def hostCall (f : Value) (args : List Value) : Eval (List Value) := do
  match ← Eval.protect (Eval.callBack f args) with
  | .ok vs => return vs
  | .error thrown => Eval.failure (← failureOf thrown)

/-- Yields what a conversion gives, or fails. -/
def converted {α : Type} : Except Failure α → Eval α
  | .ok a => return a
  | .error f => Eval.failure f

/-! ## Output -/

def write (bytes : ByteArray) : Eval Unit := do
  match ← Eval.ask (.write bytes) with
  | .ok () => return ()
  | .error message => Eval.failure (.host message)

/-- Values as one line, separated by tabs. -/
def lineOf : List Value → Eval (List UInt8)
  | [] => return [10]
  | [v] => do return (← textOf v) ++ [10]
  | v :: vs => do
    let text ← textOf v
    return text ++ 9 :: (← lineOf vs)
where
  textOf (v : Value) : Eval (List UInt8) := do
    let result := firstOf (← hostCall (.builtin (.base .tostring)) [v])
    return (result.stringBytes?.map ByteArray.toList).getD []

def print (args : Arguments) : Eval (List Value) := do
  write (← lineOf args.values).toByteArray
  return []

/-- Writes strings as they are and numbers in full positional notation. -/
def writeValues (i : Nat) : List Value → Eval (List Value)
  | [] => return []
  | v :: vs => do
    match v with
    | .string s => write s
    | .integer n => write (Number.integerText n).toUTF8
    | .float x => write (Decimal.plain x).toUTF8
    | v =>
      Eval.failure
        (.runtime s!"bad argument #{i} to 'write' (string expected, got {v.hostTypeName})")
    writeValues (i + 1) vs

/-! ## Arguments -/

/-- An argument as text; `function` is the name of a method, whose object counts as the first
argument. -/
def textArgument (function? : Option String) (args : Arguments) (i : Nat) : Eval String := do
  match Conversion.toText (args.get i) with
  | .ok s => return s
  | .error f =>
    let place := (function?.map fun name => s!" to \x60{name}\x60").getD ""
    Eval.failure (.argument s!"bad argument #{i}{place}: {f.cause}")

def self (method : String) (args : Arguments) : Eval Resource := do
  let refuse (found : String) : Eval Resource :=
    Eval.failure <| .argument <|
      s!"bad argument \x60self\x60 to \x60{method}\x60: " ++
      s!"error converting Lua {found} to userdata"
  match args.get 1 with
  | .userdata id =>
    match ← Eval.read fun h => h.resource? id with
    | some r => return r
    | none => refuse "userdata"
  | v => refuse (if args.isMissing 1 then "missing argument" else v.hostTypeName)

def wrongSelf {α : Type} (method : String) : Eval α :=
  Eval.failure <| .argument <|
    s!"bad argument \x60self\x60 to \x60{method}\x60: userdata is not expected type"

/-! ## Results -/

def resultsOf (method : String) (args : Arguments) : Eval ResultsId := do
  match ← self method args with
  | .results id => return id
  | _ => wrongSelf method

def jsonValue (j : Json) : Eval Value := Eval.alter fun h => Conversion.ofJson h j

def resultsGet (args : Arguments) : Eval (List Value) := do
  let method := "ResultsContainer.__index"
  let id ← resultsOf method args
  let key ← textArgument (some method) args 2
  match ← Eval.ask (.result id key) with
  | some j => return [← jsonValue j]
  | none => return [.nil]

def resultsSet (args : Arguments) : Eval (List Value) := do
  let method := "ResultsContainer.__newindex"
  let id ← resultsOf method args
  let key ← textArgument (some method) args 2
  let v := args.get 3
  if v.isNil then
    Eval.ask (.removeResult id key)
    return []
  else
    match ← Eval.read fun h => Conversion.toJson h v with
    | .ok j =>
      Eval.ask (.setResult id key j)
      return []
    | .error fault => Eval.failure (.unstorable fault.message)

/-- A table of all results, and the function that goes through it. -/
def resultsPairs (args : Arguments) : Eval (List Value) := do
  let id ← resultsOf "ResultsContainer.__pairs" args
  let entries ← Eval.ask (.results id)
  let snapshot ← jsonValue (.obj entries)
  let next ← index {} none (← globalsValue) (.ofText "next")
  match next with
  | .closure _ | .builtin _ => return [next, snapshot, .nil]
  | v => Eval.failure (.ofConversion v.hostTypeName "function" none)

/-! ## The engine manager -/

def managerOf (method : String) (args : Arguments) : Eval (Option ManagerId) := do
  match ← self method args with
  | .manager id? => return id?
  | _ => wrongSelf method

/-- The answer of a manager, or the failure that it is gone. -/
def answer {α : Type} : Option α → Eval α
  | some a => return a
  | none => Eval.failure (.host "engine manager is no longer alive")

def managerCachedKeys (args : Arguments) : Eval (List Value) := do
  let id? ← managerOf "ManagerHandle.cached_keys" args
  let keys ← answer (← Eval.ask (.cachedKeys id?))
  let id ← Eval.alter fun h => h.newList (keys.map Value.ofText)
  return [.table id]

def managerIsCached (args : Arguments) : Eval (List Value) := do
  let method := "ManagerHandle.is_cached"
  let id? ← managerOf method args
  let key ← textArgument (some method) args 2
  let found ← answer (← Eval.ask (.isCached id? key))
  return [.boolean found]

def managerClear (args : Arguments) : Eval (List Value) := do
  let id? ← managerOf "ManagerHandle.clear_engines" args
  let count ← answer (← Eval.ask (.clearEngines id?))
  return [.integer (Int64.ofNat count)]

def managerIndex (args : Arguments) : Eval (List Value) := do
  match args.get 2 with
  | .string s =>
    let name := shownBytes s
    if name = "cached_keys" then return [.builtin (.host .managerCachedKeys)]
    else if name = "is_cached" then return [.builtin (.host .managerIsCached)]
    else if name = "clear_engines" then return [.builtin (.host .managerClear)]
    else return [.nil]
  | _ => return [.nil]

/-! ## The context -/

def contextFields : List String :=
  ["policy", "cache_key", "output", "search_paths", "command_name", "bundle", "extension",
    "unique_id", "script_source", "alternate_script_source", "has_document", "debug_mode",
    "alternate_mode"]

def contextGet (args : Arguments) : Eval (List Value) := do
  match ← self "ContextHandle.__index" args, args.get 2 with
  | .context id, .string s =>
    let name := shownBytes s
    if contextFields.contains name then
      match ← Eval.ask (.contextField id name) with
      | .text s => return [.ofText s]
      | .flag b => return [.boolean b]
      | .absent => return [.nil]
      | .texts items =>
        let list ← Eval.alter fun h => h.newList (items.map Value.ofText)
        return [.table list]
    else unknown name
  | _, v =>
    match v.stringBytes? with
    | some s => unknown (shownBytes s)
    | none => unknown v.typeName
where
  unknown (name : String) : Eval (List Value) :=
    Eval.failure (.runtime s!"attempt to get an unknown field '{name}'")

/-! ## Globals -/

/-- Assigns a new global, unless its name is one of the given ones. -/
def guardAssignment (names : List String) (args : Arguments) : Eval (List Value) := do
  match args.get 1 with
  | .table id =>
    let key := args.get 2
    let name? := match key with
      | .string s => String.fromUTF8? s
      | _ => none
    match name?.filter names.contains with
    | some name => Eval.failure (.runtime s!"'{name}' is a read-only binding")
    | none =>
      match key.key? with
      | some k =>
        Eval.modify fun h => h.rawSet id k (args.get 3)
        return []
      | none =>
        Eval.failure (.runtime (if key.isNil then "table index is nil" else "table index is NaN"))
  | v =>
    Eval.failure (.argument ("bad argument #1: " ++
      (Failure.ofConversion v.hostTypeName "table" none).cause))

/-- The functions of the host; `names` are the names that scripts cannot assign. -/
def host (names : List String) (f : HostFunction) (args : Arguments) : Eval (List Value) :=
  match f with
  | .print => print args
  | .write => writeValues 1 args.values
  | .log => do
    let _ ← textArgument none args 1
    let _ ← textArgument none args 2
    return []
  | .isAbsent => return [.boolean (args.get 1).isAbsent]
  | .guardAssignment => guardAssignment names args
  | .resultsGet => resultsGet args
  | .resultsSet => resultsSet args
  | .resultsCount => do
    let id ← resultsOf "ResultsContainer.__len" args
    let entries ← Eval.ask (.results id)
    return [.integer (Int64.ofNat entries.length)]
  | .resultsPairs => resultsPairs args
  | .managerIndex => managerIndex args
  | .managerCachedKeys => managerCachedKeys args
  | .managerIsCached => managerIsCached args
  | .managerClear => managerClear args
  | .contextGet => contextGet args
  | .failureText => do
    match args.get 1 with
    | .userdata id =>
      match ← Eval.read fun h => h.resource? id with
      | some (.failure f) => return [.ofText f.message]
      | _ => return [.ofText "error"]
    | _ => return [.ofText "error"]
  | .callback i => do
    let result ← Eval.ask (.callback i)
    return [.boolean result]

end ScriptHost.Lua.Library
