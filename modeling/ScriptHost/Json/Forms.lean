import ScriptHost.Json.Basic
import ScriptHost.Command
import ScriptHost.Config.Basic

/-!
# JSON forms

Policies, cache keys, commands and configurations as JSON values. A record is an object, or an
array of its values in order; unknown keys of an object are ignored.
-/

set_option autoImplicit false

namespace ScriptHost

namespace Json

abbrev Form (α : Type) := Json → Option α

namespace Form

def boolean : Form Bool
  | .bool b => some b
  | _ => none

def text : Form String
  | .str s => some s
  | _ => none

def natural : Form Nat
  | .int n => if 0 ≤ n then some n.toNat else none
  | _ => none

def path : Form Path := fun value => (text value).map Path.ofString

def list {α : Type} (item : Form α) : Form (List α)
  | .arr items => items.mapM item
  | _ => none

def nullable {α : Type} (form : Form α) : Form (Option α)
  | .null => some none
  | value => (form value).map some

/-- The member of a set of names: its name, or an object with null under that one key. -/
def named {α : Type} (ofName? : String → Option α) : Form α
  | .str s => ofName? s
  | .obj [(s, .null)] => ofName? s
  | _ => none

end Form

/-- The parts of a record, taken one after another. -/
inductive Record where
  | keyed (entries : List (String × Json))
  | listed (items : List Json)

/-- Takes the next part; `absent?` stands in for one that an object lacks, and `short?` for one
that an array lacks. -/
def Record.take {α : Type} (key : String) (form : Form α) (absent? short? : Option α) :
    StateT Record Option α := do
  match ← get with
  | .keyed entries =>
    match Ordered.find? key entries with
    | some value => form value
    | none => absent?
  | .listed (item :: rest) =>
    set (Record.listed rest)
    form item
  | .listed [] => short?

def record {α : Type} (read : StateT Record Option α) : Form α := fun value => do
  let parts ← match value with
    | .obj entries => some (Record.keyed entries)
    | .arr items => some (Record.listed items)
    | _ => none
  match ← read.run parts with
  | (_, .listed (_ :: _)) => none
  | (result, _) => some result

/-- A part that has a default. -/
def Record.part {α : Type} (key : String) (form : Form α) (default : α) :
    StateT Record Option α :=
  Record.take key form (some default) (some default)

def Record.required {α : Type} (key : String) (form : Form α) : StateT Record Option α :=
  Record.take key form none none

end Json

namespace Policy

def ofJson? : Json.Form Policy := .named ofName?

def toJson (policy : Policy) : Json := .str policy.name

end Policy

namespace CacheKey

def ofJson? : Json.Form CacheKey := fun value => (Json.Form.text value).map CacheKey.mk

def toJson (key : CacheKey) : Json := .str key.text

end CacheKey

def Path.toJson? (path : Path) : Option Json := path.text?.map Json.str

namespace Command

def ofJson? : Json.Form Command := Json.record do
  let name ← Json.Record.required "name" .text
  let bundle ← Json.Record.required "bundle" .text
  let package ← Json.Record.required "extension" .text
  let uniqueId ← Json.Record.required "unique_id" .text
  let script ← Json.Record.required "script_source" .path
  let alternate ← Json.Record.take "alternate_script_source" (.nullable .path) (some none) none
  return ⟨name, bundle, package, uniqueId, script, alternate⟩

def toJson? (command : Command) : Option Json := do
  let script ← command.script.toJson?
  let alternate ← match command.alternate? with
    | some path => path.toJson?
    | none => some .null
  return .object [("name", .str command.name), ("bundle", .str command.bundle),
    ("extension", .str command.package), ("unique_id", .str command.uniqueId),
    ("script_source", script), ("alternate_script_source", alternate)]

end Command

namespace Config

def readEngineJson : Json.Form EngineConfig := Json.record do
  let memoryLimitMb ← Json.Record.part "memory_limit_mb" (.nullable .natural) none
  let searchPaths ← Json.Record.part "search_paths" (.list .path) []
  let collectOnRelease ← Json.Record.part "collect_on_release" .boolean false
  let defaultPolicy ← Json.Record.part "default_policy" Policy.ofJson? Policy.standard
  return ⟨memoryLimitMb, searchPaths, collectOnRelease, defaultPolicy⟩

def readLoggingJson : Json.Form LoggingConfig := Json.record do
  return ⟨← Json.Record.part "level" .text "warn"⟩

def ofJson? : Json.Form Config := Json.record do
  let debug ← Json.Record.part "debug" .boolean false
  let engine ← Json.Record.part "engine" readEngineJson {}
  let logging ← Json.Record.part "logging" readLoggingJson {}
  return ⟨debug, engine, logging⟩

def toJson? (config : Config) : Option Json := do
  let paths ← config.engine.searchPaths.mapM Path.toJson?
  let limit := match config.engine.memoryLimitMb with
    | some mb => Json.int mb
    | none => .null
  return .object [("debug", .bool config.debug),
    ("engine", .object [("memory_limit_mb", limit), ("search_paths", .arr paths),
      ("collect_on_release", .bool config.engine.collectOnRelease),
      ("default_policy", config.engine.defaultPolicy.toJson)]),
    ("logging", .object [("level", .str config.logging.level)])]

end Config

end ScriptHost
