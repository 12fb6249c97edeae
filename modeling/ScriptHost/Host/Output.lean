import ScriptHost.Error
import ScriptHost.Host

/-!
# Redirecting output

Attaching a stream to an engine and detaching it again with the guard that the attachment gave.
-/

set_option autoImplicit false

namespace ScriptHost.Host

def routing (h : Host) (engine : EngineId) : Routing := (h.engine engine).routing

def output (h : Host) (engine : EngineId) : Stream := (h.routing engine).output

def alterRouting {α : Type} (h : Host) (engine : EngineId) (f : Routing → α × Routing) :
    α × Host :=
  let (a, routing) := f (h.routing engine)
  (a, h.modifyEngine engine fun e => { e with routing })

/-- Replaces the output of an engine for good and yields the stream before. -/
def replaceOutput (h : Host) (engine : EngineId) (stream : Stream) : Stream × Host :=
  h.alterRouting engine fun routing => routing.replaceOutput stream

def attach (h : Host) (engine : EngineId) (sink : Stream) : StreamGuard × Host :=
  let (redirection, h) := h.alterRouting engine fun routing => routing.attach sink
  (⟨engine, redirection, sink⟩, h)

/-- Ends the redirection of a guard. It also ends, with an error, if a later redirection of the
engine is still active; a guard of another engine changes nothing. -/
def detach (h : Host) (engine : EngineId) (guard : StreamGuard) : Except EngineError Unit × Host :=
  if guard.engine = engine then
    match h.alterRouting engine fun routing => routing.detach guard.redirection with
    | (true, h) => (.ok (), h)
    | (false, h) => (.error (.streamOutOfOrder engine), h)
  else (.error (.streamGuardMismatch guard.engine engine), h)

/-- The stream that the engine of a guard returns to when the guard is detached. -/
def previousOutput (h : Host) (guard : StreamGuard) : Stream :=
  let routing := h.routing guard.engine
  (routing.previous? guard.redirection).getD routing.output

end ScriptHost.Host
