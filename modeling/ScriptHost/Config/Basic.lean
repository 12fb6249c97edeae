import ScriptHost.Instances
import ScriptHost.Path
import ScriptHost.Policy

/-!
# Configuration

The settings of a host, and layers that set some of them.
-/

set_option autoImplicit false

namespace ScriptHost

structure EngineConfig where
  /-- The heap limit of an engine in MiB; none and zero mean no limit. -/
  memoryLimitMb : Option Nat := none
  searchPaths : List Path := []
  /-- Whether garbage is collected after every invocation. -/
  collectOnRelease : Bool := false
  defaultPolicy : Policy := Policy.standard
deriving DecidableEq, Repr, Inhabited

structure LoggingConfig where
  level : String := "warn"
deriving DecidableEq, Repr, Inhabited

structure Config where
  debug : Bool := false
  engine : EngineConfig := {}
  logging : LoggingConfig := {}
deriving DecidableEq, Repr, Inhabited

/-- The greatest number of bytes that can be asked for. -/
def maxBytes : Nat := 2 ^ 64 - 1

/-- The heap limit in bytes, capped at the greatest number of bytes. -/
def EngineConfig.memoryLimitBytes (config : EngineConfig) : Option Nat :=
  (config.memoryLimitMb.filter fun mb => mb != 0).map fun mb => min (mb * 2 ^ 20) maxBytes

/-- Engine settings of a layer; what is absent stays as it is. -/
structure EngineLayer where
  memoryLimitMb : Option Nat := none
  searchPaths : Option (List Path) := none
  collectOnRelease : Option Bool := none
  defaultPolicy : Option Policy := none
deriving DecidableEq, Repr, Inhabited

structure LoggingLayer where
  level : Option String := none
deriving DecidableEq, Repr, Inhabited

structure Layer where
  debug : Option Bool := none
  engine : EngineLayer := {}
  logging : LoggingLayer := {}
deriving DecidableEq, Repr, Inhabited

/-- A limit as a layer gives it: zero asks for no limit. -/
def limitOf (mb : Nat) : Option Nat := if 0 < mb then some mb else none

def EngineConfig.apply (config : EngineConfig) (layer : EngineLayer) : EngineConfig where
  memoryLimitMb :=
    match layer.memoryLimitMb with
    | some mb => limitOf mb
    | none => config.memoryLimitMb
  searchPaths := layer.searchPaths.getD config.searchPaths
  collectOnRelease := layer.collectOnRelease.getD config.collectOnRelease
  defaultPolicy := layer.defaultPolicy.getD config.defaultPolicy

/-- Puts a layer on top: what it sets wins, also when it sets the default. -/
def Config.apply (config : Config) (layer : Layer) : Config where
  debug := layer.debug.getD config.debug
  engine := config.engine.apply layer.engine
  logging := ⟨layer.logging.level.getD config.logging.level⟩

end ScriptHost
