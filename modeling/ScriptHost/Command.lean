import ScriptHost.Path

/-!
# Commands

The identity of a command: its names, and the scripts it can run.
-/

set_option autoImplicit false

namespace ScriptHost

/-- Commands with one cache key may run on one engine. -/
structure CacheKey where
  text : String
deriving DecidableEq, Repr, Inhabited

structure Command where
  name : String := ""
  bundle : String := ""
  package : String := ""
  uniqueId : String := ""
  script : Path := ⟨[]⟩
  alternate? : Option Path := none
deriving DecidableEq, Repr, Inhabited

namespace Command

/-- Commands are grouped by package. -/
def cacheKey (command : Command) : CacheKey := ⟨command.package⟩

def scriptDirectory? (command : Command) : Option Path := command.script.directory?

def alternateDirectory? (command : Command) : Option Path :=
  command.alternate?.bind Path.directory?

/-- The script an invocation runs: the alternate one in alternate mode, if there is one. -/
def scriptFor (command : Command) (alternateMode : Bool) : Path :=
  if alternateMode then command.alternate?.getD command.script else command.script

end Command

end ScriptHost
