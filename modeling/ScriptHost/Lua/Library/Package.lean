import ScriptHost.Lua.Library.Base

/-!
# The package library

Modules are looked for among the preloaded ones and in files; native modules are refused. The
functions remember the tables that they work with, whatever scripts do to the globals.
-/

set_option autoImplicit false

namespace ScriptHost.Lua.Library

open Operation

/-- Replaces every occurrence of a byte by a text. -/
def substitute (b : UInt8) (text : List UInt8) (s : List UInt8) : List UInt8 :=
  s.flatMap fun c => if c = b then text else [c]

def notFoundText (path : List UInt8) : String :=
  "no file '" ++ Utf8.text (substitute 59 (Utf8.bytes "'\n\tno file '") path) ++ "'"

/-- The first of several files that can be opened. -/
def firstReadable : List (List UInt8) → Eval (Option (List UInt8))
  | [] => return none
  | name :: names => do
    match ← Eval.ask (.readFile ⟨name⟩) with
    | .ok _ | .error .isDirectory => return some name
    | .error _ => firstReadable names

/-- Looks for a module in the files that a path names: `?` stands for the name of the module. -/
def searchFiles (name path : List UInt8) : Eval (Except String (List UInt8)) := do
  let path := substitute 63 name path
  let names := if path.isEmpty then [] else Path.splitAt 59 path
  match ← firstReadable names with
  | some found => return .ok found
  | none => return .error (notFoundText path)

def searchpath (args : Arguments) : Eval (List Value) := do
  let name := (← args.bytes 1).toList
  let path := (← args.bytes 2).toList
  let separator := (← args.bytesOr 3 ".".toUTF8).toList
  let replacement := (← args.bytesOr 4 "/".toUTF8).toList
  let name := match separator with
    | [b] => substitute b replacement name
    | _ => name
  match ← searchFiles name path with
  | .ok found => return [.string found.toByteArray]
  | .error message => return [.nil, .ofText message]

/-- Looks for a module among the preloaded ones. -/
def searchPreload (preload : Value) (args : Arguments) : Eval (List Value) := do
  let name ← args.bytes 1
  let loader ← index {} none preload (.string name)
  if loader.isNil then return [.ofText s!"no field package.preload['{shownBytes name}']"]
  else return [loader, .ofText ":preload:"]

/-- Looks for a module in the files of `package.path`. -/
def searchSource (package : Value) (args : Arguments) : Eval (List Value) := do
  let name ← args.bytes 1
  let path ← index {} none package (.ofText "path")
  match path.stringBytes? with
  | none => Eval.fail "'package.path' must be a string"
  | some path =>
    match ← searchFiles (substitute 46 [47] name.toList) path.toList with
    | .error message => return [.ofText message]
    | .ok file =>
      match ← compileFile file.toByteArray (← globalsValue) with
      | .ok f => return [f, .string file.toByteArray]
      | .error message =>
        Eval.fail <| s!"error loading module '{shownBytes name}' from file " ++
          s!"'{Utf8.text file}':\n\t{message}"

/-- Asks one searcher after another for a loader; messages are collected. -/
def findLoader (searchers : TableId) (name : ByteArray) (messages : String) (i : Nat) :
    Nat → Eval (Value × Value)
  | 0 => notFound
  | fuel + 1 => do
    let searcher ← Eval.read fun h => (h.table searchers).getIndex i
    if searcher.isNil then notFound
    else
      let found ← Eval.callBack searcher [.string name]
      match firstOf found with
      | .closure _ | .builtin _ => return (firstOf found, firstOf (found.drop 1))
      | v =>
        match v.stringBytes? with
        | some message =>
          findLoader searchers name (messages ++ "\n\t" ++ shownBytes message) (i + 1) fuel
        | none => findLoader searchers name messages (i + 1) fuel
where
  notFound : Eval (Value × Value) :=
    Eval.fail s!"module '{shownBytes name}' not found:{messages}"

def require (package : Value) (args : Arguments) : Eval (List Value) := do
  let name ← args.bytes 1
  let loaded ← Eval.read fun h => Value.table h.loaded
  let present ← index {} none loaded (.string name)
  if present.isTruthy then return [present]
  match ← index {} none package (.ofText "searchers") with
  | .table searchers =>
    let count ← Eval.read fun h => (h.table searchers).slots.size
    let (loader, data) ← findLoader searchers name "" 1 (count + 1)
    let result := firstOf (← Eval.callBack loader [.string name, data])
    if !result.isNil then assign {} none loaded (.string name) result
    let stored ← index {} none loaded (.string name)
    if stored.isNil then
      assign {} none loaded (.string name) (.boolean true)
      return [.boolean true, data]
    else return [stored, data]
  | _ => Eval.fail "'package.searchers' must be a table"

def package (captured : List Value) (f : PackageFunction) (args : Arguments) :
    Eval (List Value) :=
  match f with
  | .require => require (firstOf captured) args
  | .searchpath => searchpath args
  | .loadlib => Eval.failure (.runtime "package.loadlib is disabled in safe mode")
  | .searchPreload => searchPreload (firstOf captured) args
  | .searchFiles => searchSource (firstOf captured) args
  | .searchNative => return [.ofText "\n\tcan't load C modules in safe mode"]

end ScriptHost.Lua.Library
