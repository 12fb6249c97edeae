import ScriptHost.Command
import ScriptHost.Json.Basic
import ScriptHost.Policy
import ScriptHost.Stream

/-!
# Invocation contexts

Everything an invocation needs besides the engine. A context stays as it is, except that the
script fills the results container that it names.
-/

set_option autoImplicit false

namespace ScriptHost

structure Documents where
  uiDocument : Json
  document : Json
deriving Inhabited

structure Context where
  policy : Policy := Policy.standard
  output : Stream
  searchPaths : List Path := []
  host : Json := .null
  documents? : Option Documents := none
  commandData : Json := .null
  selectedElements : List Json := []
  command : Command
  debugMode : Bool := false
  alternateMode : Bool := false
  results : ResultsId
deriving Inhabited

namespace Context

/-- Contexts with one cache key may share an engine. -/
def cacheKey (context : Context) : CacheKey := context.command.cacheKey

def hasDocument (context : Context) : Bool := context.documents?.isSome

def scriptPath (context : Context) : Path := context.command.scriptFor context.alternateMode

end Context

end ScriptHost
