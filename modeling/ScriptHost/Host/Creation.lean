import ScriptHost.Host.Script

/-!
# Making engines

New engines, and the scripts of a factory that prepare them.
-/

set_option autoImplicit false

namespace ScriptHost.Host

/-- A new engine that nothing has prepared. Its output is the standard output. -/
def newEngine (h : Host) (options : EngineOptions) : Except EngineError EngineId × Host :=
  let (output, h) := h.newStandardStream
  let id : EngineId := ⟨h.engines.size⟩
  match Engine.fresh? id options output with
  | some engine => (.ok id, { h with engines := h.engines.push engine })
  | none =>
    (.error (.construction s!"install helpers: {Lua.Failure.memory.message}"), h)

/-- Runs the scripts that prepare an engine until one fails. They are numbered from `index`. -/
def prepare (h : Host) (engine : EngineId) (index : Nat) :
    List String → Except EngineError Unit × Host
  | [] => (.ok (), h)
  | script :: scripts =>
    match h.exec engine (Utf8.bytes s!"init{index}") (Utf8.bytes script) with
    | (.ok _, h) => h.prepare engine (index + 1) scripts
    | (.error e, h) => (.error (.construction s!"initializer #{index} failed: {e.message}"), h)

def createEngine (h : Host) (factory : Factory) (options : EngineOptions) :
    Except EngineError EngineId × Host :=
  match h.newEngine (factory.effective options) with
  | (.error e, h) => (.error e, h)
  | (.ok engine, h) =>
    match h.prepare engine 0 factory.initializers with
    | (.error e, h) => (.error e, h)
    | (.ok _, h) => (.ok engine, h)

/-- A new engine for a manager, unless its factory refuses. -/
def requestEngine (h : Host) (id : ManagerId) (options : EngineOptions) :
    Except EngineError EngineId × Host :=
  let h := h.modifyManager id fun m => { m with requested := m.requested ++ [options] }
  let manager := h.manager id
  let request := manager.requested.length
  if manager.factory.outage.covers request then
    (.error (.construction s!"runtime unavailable ({request})"), h)
  else h.createEngine manager.factory options

end ScriptHost.Host
