import ScriptHost.Proofs.FailedAcquisition
import ScriptHost.Proofs.FreshEngines
import ScriptHost.Proofs.ScopeHistory

/-!
# Acquisitions and releases

What an acquisition that succeeds does to the engine that it selects, and what a release does to
the engine of its invocation.
-/

set_option autoImplicit false

namespace ScriptHost

open Lua Scope

/-- An invocation whose guards are for its own engine, and whose stream is that of its context. -/
structure Acquisition.Formed (a : Acquisition) : Prop where
  stream : a.invocation.stream.engine = a.invocation.engine
  bindings : a.invocation.bindings.engine = a.invocation.engine
  attached : a.invocation.stream.attached = a.invocation.context.output

namespace Host

variable {h selected after : Host}

/-- What an acquisition does to the engine that it has selected: the stream is attached, a new
scope is in front, and the patterns of modules are assigned. -/
structure Acquired (selected after : Host) (a : Acquisition) : Prop where
  formed : a.Formed
  size : after.engines.size = selected.engines.size
  others : ∀ other, other ≠ a.invocation.engine → after.engine other = selected.engine other
  stream : (selected.attach a.invocation.engine a.invocation.context.output).1 =
    a.invocation.stream
  routing : after.routing a.invocation.engine =
    ((selected.routing a.invocation.engine).attach a.invocation.context.output).2
  contexts : ∀ id context, selected.context? id = some context → after.context? id = some context
  scope : ∃ contextId middle p patterns, after.context? contextId = some a.invocation.context ∧
    Injected (selected.heap a.invocation.engine) middle a.invocation.bindings
      (a.subject contextId) ∧
    middle.rawGetText middle.globals "package" = .table p ∧
    after.heap a.invocation.engine = middle.rawSetText p "path" (.string patterns)

theorem acquired_of_acquire {id : ManagerId} {context : Context} {engine : EngineId}
    {cached : Bool} {invocation : Invocation}
    (selects : h.selectEngine id context.policy context.cacheKey = (.ok (engine, cached), selected))
    (orderly : Orderly (selected.heap engine))
    (acquires : h.acquire id context = (.ok invocation, after)) :
    invocation.engine = engine ∧ invocation.context = context ∧
      Acquired selected after ⟨invocation, id, none⟩ := by
  obtain ⟨chosen, middle, same, injected, sets, rfl, stream⟩ := steps_of_acquire acquires
  rw [selects] at same
  cases same
  have present := present_of_orderly orderly
  have attached := heap_attach selected invocation.engine invocation.engine invocation.context.output
  have injects := runsOn_inject (selected.attach invocation.engine invocation.context.output).2
    invocation.engine invocation.context invocation.cached (some id)
  have entered := inject_of_orderly
    (h := (selected.attach invocation.engine invocation.context.output).2)
    (by rwa [size_engines_attach]) (by rwa [attached]) invocation.context invocation.cached (some id)
  rw [injected] at injects entered
  obtain ⟨_, error, _⟩ | ⟨_, contextId, same, own, known, front⟩ := entered
  · cases error
  · cases same
    rw [attached] at front
    have there : invocation.engine.index < middle.engines.size := by
      rwa [injects.size, size_engines_attach]
    obtain ⟨collected, steady, ⟨e, refused⟩ | ⟨p, found, assigned⟩⟩ :=
      setSearchPaths_of_orderly front.orderly (middle.effectivePaths id invocation.context)
    · rw [refused] at sets
      cases sets
    · rw [assigned] at sets
      cases sets
      refine ⟨rfl, rfl, ⟨by rw [stream]; rfl, own, by rw [stream]; rfl⟩, ?_, ?_, stream.symm, ?_, ?_,
        contextId, _, p, (SearchPath.render (middle.effectivePaths id invocation.context)).toByteArray,
        known, front.steady orderly steady, found, ?_⟩
      · simpa [modifyHeap] using injects.size
      · intro other different
        rw [engine_modifyEngine_of_ne different, modifyHeap,
          engine_modifyEngine_of_ne different, injects.others other different,
          engine_attach_of_ne different]
      · rw [← routing_attach_self present, ← injects.routing, routing,
          engine_modifyEngine_self (by simpa [modifyHeap] using there), modifyHeap,
          engine_modifyEngine_self there]
        rfl
      · exact injects.contexts
      · rw [heap, engine_modifyEngine_self (by simpa [modifyHeap] using there)]
        exact heap_modifyHeap there _

/-! ## Releases -/

theorem heap_collectGarbage {engine : EngineId} (present : engine.index < h.engines.size) :
    ∃ running, (h.collectGarbage engine).heap engine = (h.heap engine).collect running := by
  refine ⟨(h.engine engine).suspended != 0, ?_⟩
  rw [collectGarbage, heap, engine_modifyEngine_self present]
  rfl

/-- What a release does besides detaching the stream: the scope is left, and the garbage may be
collected. -/
structure Released (h after : Host) (invocation : Invocation) : Prop where
  others : ∀ other, other ≠ invocation.engine → after.engine other = h.engine other
  contexts : ∀ id context, h.context? id = some context → after.context? id = some context
  scope : after.heap invocation.engine = leave invocation.bindings (h.heap invocation.engine) ∨
    ∃ running, after.heap invocation.engine =
      (leave invocation.bindings (h.heap invocation.engine)).collect running

theorem released_of_release {invocation : Invocation}
    (own : invocation.bindings.engine = invocation.engine)
    (present : invocation.engine.index < h.engines.size) :
    Released h (h.release invocation).2 invocation := by
  have clears := runsOn_clear h invocation.engine invocation.bindings
  have releases := runsOn_release h invocation
  have left : ((h.clear invocation.engine invocation.bindings).2.detach invocation.engine
      invocation.stream).2.heap invocation.engine =
        leave invocation.bindings (h.heap invocation.engine) := by
    rw [heap_detach, clear, if_pos own, heap_modifyHeap present]
  refine ⟨?_, ?_, ?_⟩
  · intro other different
    rw [releases.others other different, engine_detach_of_ne different,
      clears.others other different]
  · intro id context found
    refine releases.contexts id context ?_
    rw [context?_detach]
    exact clears.contexts id context found
  · obtain ⟨_, last | last⟩ := release_eq h invocation
    · rw [last]
      exact .inl left
    · have there : invocation.engine.index < ((h.clear invocation.engine
          invocation.bindings).2.detach invocation.engine invocation.stream).2.engines.size := by
        rwa [size_engines_detach, clears.size]
      obtain ⟨running, collected⟩ := heap_collectGarbage there
      exact .inr ⟨running, by rw [last, collected, left]⟩

end Host

end ScriptHost
