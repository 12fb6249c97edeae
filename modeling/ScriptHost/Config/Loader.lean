import ScriptHost.Config.Document
import ScriptHost.Files
import ScriptHost.Text.LowerCase

/-!
# Loading a configuration

Defaults, the global file, the project file and the environment, each on top of the one before.
A missing file is skipped; the first fault of a source ends the load.
-/

set_option autoImplicit false

namespace ScriptHost.Config

structure Environment where
  values : List (String × List UInt8) := []
  /-- The home directory of the account, as the system knows it. -/
  accountHome? : Option Path := none

/-- The value of a variable, unless it is missing or not text. -/
def Environment.text? (environment : Environment) (name : String) : Option String :=
  (environment.values.lookup name).bind Utf8.text?

/-- The home directory: the variable HOME unless it is empty, or else that of the account. -/
def Environment.home? (environment : Environment) : Option Path :=
  match environment.values.lookup "HOME" with
  | some bytes => if bytes.isEmpty then environment.accountHome? else some ⟨bytes⟩
  | none => environment.accountHome?

def defaultDirectory (environment : Environment) : Path :=
  (environment.home?.getD (.ofString ".")).join (.ofString ".cinder")

def fileName : Path := .ofString "config.toml"

def defaultPath (environment : Environment) : Path :=
  (defaultDirectory environment).join fileName

def projectPath (root : Path) : Path := (root.join (.ofString ".cinder")).join fileName

inductive LoadError where
  | unreadable (path : Path) (fault : ReadFault)
  | parse (path : Path)
  | badVariable (name : String) (reason : String)
deriving DecidableEq, Repr

def LoadError.message : LoadError → String
  | unreadable path fault => s!"failed to read config file '{path.display}': {fault.message}"
  | parse path => s!"failed to parse config file '{path.display}'"
  | badVariable name reason => s!"invalid value for environment variable '{name}': {reason}"

/-- Which sources are read. -/
structure Loader where
  globalPath? : Option Path := none
  projectRoot? : Option Path := none
  skipEnvironment : Bool := false
  skipGlobal : Bool := false
  skipProject : Bool := false

/-- A truth value in words or digits, in any case. -/
def boolean? (s : String) : Option Bool :=
  let s := Text.toLower s
  if s = "true" || s = "1" || s = "yes" || s = "on" then some true
  else if s = "false" || s = "0" || s = "no" || s = "off" then some false
  else none

/-- A whole number of 64 bits in decimal digits, with an optional plus sign. -/
def natural64? (s : String) : Option Nat :=
  let digits := match s.toList with
    | '+' :: rest => rest
    | cs => cs
  if digits.isEmpty || !digits.all Char.isDigit then none
  else
    let n := digits.foldl (fun n c => n * 10 + (c.toNat - '0'.toNat)) 0
    if n < 2 ^ 64 then some n else none

/-- The heap limit that a variable gives: blank and the single digit zero mean none. -/
def limitVariable? (s : String) : Option (Option Nat) :=
  let trimmed := Text.trim s
  if trimmed = "" || trimmed = "0" then some none
  else (natural64? trimmed).map some

/-- The non-empty pieces of a list separated by colons. -/
def searchPathVariable (s : String) : List Path :=
  ((Path.splitAt 58 (Utf8.bytes s)).filter fun piece => !piece.isEmpty).map Path.mk

/-- Changes a configuration by the value of a variable, if it is set. -/
def applyVariable {α : Type} (environment : Environment) (name : String)
    (read : String → Except String α) (put : α → Config → Config) (config : Config) :
    Except LoadError Config :=
  match environment.text? name with
  | none => .ok config
  | some text =>
    match read text with
    | .ok value => .ok (put value config)
    | .error reason => .error (.badVariable name reason)

def readBoolean (s : String) : Except String Bool := (boolean? s).elim (.error "expected bool") .ok

def readLimit (s : String) : Except String (Option Nat) :=
  (limitVariable? s).elim (.error "expected integer") .ok

def readPolicy (s : String) : Except String Policy :=
  match Policy.parse s with
  | .ok policy => .ok policy
  | .error unknown => .error unknown.message

/-- Puts the variables on top, in a fixed order. -/
def applyEnvironment (environment : Environment) (config : Config) : Except LoadError Config := do
  let config ← applyVariable environment "CINDER_DEBUG" readBoolean
    (fun b c => { c with debug := b }) config
  let config ← applyVariable environment "CINDER_FULL_GC" readBoolean
    (fun b c => { c with engine := { c.engine with collectOnRelease := b } }) config
  let config ← applyVariable environment "CINDER_MEMORY_LIMIT_MB" readLimit
    (fun mb c => { c with engine := { c.engine with memoryLimitMb := mb } }) config
  let config ← applyVariable environment "CINDER_POLICY" readPolicy
    (fun p c => { c with engine := { c.engine with defaultPolicy := p } }) config
  let config ← applyVariable environment "CINDER_SEARCH_PATH" (fun s => .ok (searchPathVariable s))
    (fun ps c => { c with engine := { c.engine with searchPaths := ps } }) config
  applyVariable environment "CINDER_LOG_LEVEL" .ok
    (fun l c => { c with logging := ⟨l⟩ }) config

/-- The layer in a file, if the file is there. -/
def loadLayer (files : FileTree) (path : Path) : Except LoadError (Option Layer) := do
  if !files.exists? path then return none
  match files.readText path with
  | .error fault => throw (.unreadable path fault)
  | .ok text =>
    match Layer.ofToml? text with
    | some layer => return some layer
    | none => throw (.parse path)

def applyFile (files : FileTree) (path : Path) (config : Config) : Except LoadError Config := do
  return (← loadLayer files path).elim config config.apply

def Loader.load (loader : Loader) (files : FileTree) (environment : Environment) :
    Except LoadError Config := do
  let config ←
    if loader.skipGlobal then pure {}
    else applyFile files (loader.globalPath?.getD (defaultPath environment)) {}
  let config ←
    match loader.skipProject, loader.projectRoot? with
    | false, some root => applyFile files (projectPath root) config
    | _, _ => pure config
  if loader.skipEnvironment then return config else applyEnvironment environment config

end ScriptHost.Config
