import ScriptHost.Config.Basic
import ScriptHost.Toml.Reader
import ScriptHost.Toml.Printer

/-!
# Configuration documents

A configuration read from and written as a TOML document, and a layer read from one. Keys that
have no meaning are ignored; a key with a value of the wrong type spoils the whole document.
A section may also be an array that lists its values in the order of the keys; further items of
the array are ignored. A date counts as a section without any of the keys.
-/

set_option autoImplicit false

namespace ScriptHost.Config

open ScriptHost (Toml)

/-- Reads a value of one type. -/
abbrev Field (α : Type) := Toml → Option α

namespace Field

def boolean : Field Bool
  | .boolean b => some b
  | _ => none

def text : Field String
  | .string s => some s
  | _ => none

def natural : Field Nat
  | .integer n => if 0 ≤ n then some n.toNat else none
  | _ => none

def path : Field Path := fun value => (text value).map Path.ofString

def list {α : Type} (item : Field α) : Field (List α)
  | .array items => items.mapM item
  | .tables items => items.mapM fun entries => item (.table .header entries)
  | _ => none

def isEmpty : Toml → Bool
  | .array items => items.isEmpty
  | .table _ entries => entries.isEmpty
  | .tables items => items.isEmpty
  | _ => false

/-- A policy by its name, or as the one key of a table that holds nothing under it. -/
def policy : Field Policy
  | .string s => Policy.ofName? s
  | .table _ [(name, value)] => if isEmpty value then Policy.ofName? name else none
  | _ => none

/-- A value that a document may leave out. -/
def optional {α : Type} (field : Field α) : Field (Option α) := fun value => (field value).map some

end Field

/-- The parts of a section: by key, or by position in an array. -/
inductive Section where
  | keyed (entries : Toml.Entries)
  | listed (items : List Toml)

namespace Section

def ofToml? : Toml → Option Section
  | .table _ entries => some (.keyed entries)
  | .array items => some (.listed items)
  | .tables items => some (.listed (items.map (Toml.table .header)))
  | .datetime => some (.keyed [])
  | _ => none

/-- Reads the part with the given key and position; `absent` stands in for a missing one. -/
def read? {α : Type} (part : Section) (index : Nat) (key : String) (field : Field α) (absent : α) :
    Option α :=
  let found := match part with
    | keyed entries => entries.get? key
    | listed items => items[index]?
  match found with
  | some value => field value
  | none => some absent

def parse? {α : Type} (read : Section → Option α) : Field α := fun value =>
  (ofToml? value).bind read

end Section

def readEngine : Field EngineConfig := Section.parse? fun part => do
  let memoryLimitMb ← part.read? 0 "memory_limit_mb" (.optional .natural) none
  let searchPaths ← part.read? 1 "search_paths" (.list .path) []
  let collectOnRelease ← part.read? 2 "collect_on_release" .boolean false
  let defaultPolicy ← part.read? 3 "default_policy" .policy Policy.standard
  some ⟨memoryLimitMb, searchPaths, collectOnRelease, defaultPolicy⟩

def readLogging : Field LoggingConfig := Section.parse? fun part => do
  some ⟨← part.read? 0 "level" .text "warn"⟩

def ofToml? (document : String) : Option Config := do
  let part := Section.keyed (← Toml.parse? document)
  let debug ← part.read? 0 "debug" .boolean false
  let engine ← part.read? 1 "engine" readEngine {}
  let logging ← part.read? 2 "logging" readLogging {}
  some ⟨debug, engine, logging⟩

def readEngineLayer : Field EngineLayer := Section.parse? fun part => do
  let memoryLimitMb ← part.read? 0 "memory_limit_mb" (.optional .natural) none
  let searchPaths ← part.read? 1 "search_paths" (.optional (.list .path)) none
  let collectOnRelease ← part.read? 2 "collect_on_release" (.optional .boolean) none
  let defaultPolicy ← part.read? 3 "default_policy" (.optional .policy) none
  some ⟨memoryLimitMb, searchPaths, collectOnRelease, defaultPolicy⟩

def readLoggingLayer : Field LoggingLayer := Section.parse? fun part => do
  some ⟨← part.read? 0 "level" (.optional .text) none⟩

inductive WriteError where
  | limitTooLarge
  | pathNotText
deriving DecidableEq, Repr

def WriteError.message : WriteError → String
  | limitTooLarge => "failed to serialize config: out-of-range value for u64 type"
  | pathNotText => "failed to serialize config: path contains invalid UTF-8 characters"

/-- The line of the heap limit, if there is one. -/
def limitLine : Option Nat → Except WriteError String
  | none => .ok ""
  | some mb => if mb < 2 ^ 63 then .ok s!"memory_limit_mb = {mb}\n" else .error .limitTooLarge

def pathText (path : Path) : Except WriteError String :=
  match path.text? with
  | some s => .ok (Toml.stringText s)
  | none => .error .pathNotText

def toToml (config : Config) : Except WriteError String := do
  let limit ← limitLine config.engine.memoryLimitMb
  let paths ← config.engine.searchPaths.mapM pathText
  return "debug = " ++ Toml.booleanText config.debug ++ "\n\n[engine]\n" ++ limit ++
    "search_paths = " ++ Toml.arrayText paths ++ "\n" ++
    "collect_on_release = " ++ Toml.booleanText config.engine.collectOnRelease ++ "\n" ++
    "default_policy = " ++ Toml.stringText config.engine.defaultPolicy.name ++ "\n" ++
    "\n[logging]\nlevel = " ++ Toml.stringText config.logging.level ++ "\n"

end Config

def Layer.ofToml? (document : String) : Option Layer := do
  let part := Config.Section.keyed (← Toml.parse? document)
  let debug ← part.read? 0 "debug" (.optional .boolean) none
  let engine ← part.read? 1 "engine" Config.readEngineLayer {}
  let logging ← part.read? 2 "logging" Config.readLoggingLayer {}
  some ⟨debug, engine, logging⟩

end ScriptHost
