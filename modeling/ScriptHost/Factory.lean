import ScriptHost.Engine.Options

/-!
# Engine factories

What a host adds to every engine it makes: limits, and scripts that prepare the engine.
-/

set_option autoImplicit false

namespace ScriptHost

/-- Which requests for an engine a factory refuses, counted from one. -/
inductive Outage where
  | never
  | always
  | during (requests : List Nat)
deriving DecidableEq, Repr, Inhabited

def Outage.covers (request : Nat) : Outage → Bool
  | never => false
  | always => true
  | during requests => requests.contains request

structure Factory where
  /-- The limit of engines that do not ask for one. -/
  memoryLimit? : Option Nat := none
  collectOnRelease : Bool := false
  /-- Script texts that prepare a new engine, in order. -/
  initializers : List String := []
  outage : Outage := .never
deriving DecidableEq, Repr, Inhabited

/-- The options of an engine that is asked for with other ones. -/
def Factory.effective (factory : Factory) (options : EngineOptions) : EngineOptions :=
  { options with
    memoryLimit? := options.memoryLimit?.or factory.memoryLimit?
    collectOnRelease := options.collectOnRelease || factory.collectOnRelease }

end ScriptHost
