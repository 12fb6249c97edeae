import ScriptHost.Host.Bindings
import ScriptHost.Host.Creation
import ScriptHost.Host.Output
import ScriptHost.Host.SearchPaths

/-!
# Invocations

An invocation is an engine that is ready to run one command. It is acquired from a manager, and
released when the command has run; invocations on one engine may overlap.
-/

set_option autoImplicit false

namespace ScriptHost

structure Invocation where
  engine : EngineId
  context : Context
  /-- Whether the engine comes from the cache. -/
  cached : Bool
  stream : StreamGuard
  bindings : BindingGuard
deriving Inhabited

namespace Host

/-- The engine for a policy, and whether it comes from the cache. An engine that is made for the
cache is stored there. -/
def selectEngine (h : Host) (id : ManagerId) (policy : Policy) (key : CacheKey) :
    Except EngineError (EngineId × Bool) × Host :=
  let cacheId := (h.manager id).cache
  match policy with
  | .reuse =>
    match (h.cache cacheId).get? key with
    | some engine => (.ok (engine, true), h)
    | none =>
      let (made, h) := h.requestEngine id (.ofPolicy policy)
      let (made, h) := h.alterCache cacheId fun cache => cache.fill key made
      (made.map (·, false), h)
  | .refresh =>
    match h.requestEngine id (.ofPolicy policy) with
    | (.error e, h) => (.error e, h)
    | (.ok engine, h) =>
      let (_, h) := h.alterCache cacheId fun cache => cache.put key engine
      (.ok (engine, false), h)
  | .clean | .fullIsolation =>
    let (made, h) := h.requestEngine id (.ofPolicy policy)
    (made.map (·, false), h)

/-- The search paths of an invocation: those of the context, then those of the manager. -/
def effectivePaths (h : Host) (id : ManagerId) (context : Context) : List Path :=
  SearchPath.extend context.searchPaths (h.manager id).defaultPaths

/-- Selects an engine and prepares it for a context. If a part fails, what was done before it is
undone; an engine that was made stays in the cache. -/
def acquire (h : Host) (id : ManagerId) (context : Context) :
    Except EngineError Invocation × Host :=
  match h.selectEngine id context.policy context.cacheKey with
  | (.error e, h) => (.error e, h)
  | (.ok (engine, cached), h) =>
    let (stream, h) := h.attach engine context.output
    match h.inject engine context cached (some id) with
    | (.error e, h) => (.error e, (h.detach engine stream).2)
    | (.ok bindings, h) =>
      match h.setSearchPaths engine (h.effectivePaths id context) with
      | (.error e, h) =>
        let (_, h) := h.clear engine bindings
        (.error e, (h.detach engine stream).2)
      | (.ok _, h) => (.ok { engine, context, cached, stream, bindings }, h)

/-- Clears the bindings and detaches the stream, both in any case, and reports the first error.
Without an error, garbage is collected if the options of the engine ask for it. -/
def release (h : Host) (invocation : Invocation) : Except EngineError Unit × Host :=
  let engine := invocation.engine
  let (cleared, h) := h.clear engine invocation.bindings
  let (detached, h) := h.detach engine invocation.stream
  match cleared, detached with
  | .error e, _ | .ok _, .error e => (.error e, h)
  | .ok _, .ok _ =>
    (.ok (), if (h.engine engine).options.collectsOnRelease then h.collectGarbage engine else h)

end Host

end ScriptHost
