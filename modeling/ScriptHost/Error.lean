import ScriptHost.Engine.SearchPath
import ScriptHost.Files
import ScriptHost.Identity
import ScriptHost.Lua.Failure

/-!
# Errors

What can go wrong while an engine is made, prepared, used and released.
-/

set_option autoImplicit false

namespace ScriptHost

inductive EngineError where
  /-- A script failed. `traced` tells whether it failed while it ran, not before or after. -/
  | script (failure : Lua.Failure) (traced : Bool)
  | construction (reason : String)
  | invalidSearchPath (path : Path) (fault : SearchPathFault)
  | scriptNotFound (path : Path)
  | scriptUnreadable (path : Path) (fault : ReadFault)
  | streamGuardMismatch (guard engine : EngineId)
  | streamOutOfOrder (engine : EngineId)
  | bindingGuardMismatch (guard engine : EngineId)
deriving DecidableEq, Repr, Inhabited

namespace EngineError

def message : EngineError → String
  | script failure _ => "lua error: " ++ failure.message
  | construction reason => "engine construction failed: " ++ reason
  | invalidSearchPath path fault => s!"invalid search path '{path.display}': {fault.message}"
  | scriptNotFound path => "script not found: " ++ path.display
  | scriptUnreadable path fault => s!"failed to read script '{path.display}': {fault.message}"
  | streamGuardMismatch guard engine =>
    s!"stream guard belongs to engine {guard.text}, not {engine.text}"
  | streamOutOfOrder engine =>
    s!"out-of-order stream release on engine {engine.text}: " ++
      "a nested redirection is still attached"
  | bindingGuardMismatch guard engine =>
    s!"binding guard belongs to engine {guard.text}, not {engine.text}"

/-- The message and those of its causes. The cause of a script that failed while it ran is part of
the message. -/
def chain : EngineError → List String
  | .script failure false => [message (.script failure false), failure.message]
  | .scriptUnreadable path fault => [message (.scriptUnreadable path fault), fault.message]
  | e => [e.message]

def ofReadFault (path : Path) : ReadFault → EngineError
  | .notFound => .scriptNotFound path
  | fault => .scriptUnreadable path fault

def ofRun (failure : Lua.Failure) : EngineError := .script failure (failure != .memory)

end EngineError

end ScriptHost
