import ScriptHost.Proofs.FailedAcquisition
import ScriptHost.Proofs.SealedCreation

/-!
# Invocations on engines that keep their secrets

An acquisition enters a new scope on the engine that it selects, or it leaves everything on the
engine as it was. A release takes the scope away again, and so scripts see what they saw before.
-/

set_option autoImplicit false

namespace ScriptHost

open Lua Scope

namespace Host

variable {V W X : Vault} {engine : EngineId} {h selected middle after : Host} {context : Context}
  {invocation : Invocation}

/-! ## Redirections -/

theorem Bides.attach (sealed : Sealed V engine h) (sink : Stream) :
    Bides V V engine h (h.attach engine sink).2 := by
  obtain ⟨routing, attached⟩ := engine_attach h engine engine sink
  exact .ofStore sealed (Nat.le_of_eq (size_engines_attach sink).symm) (by rw [attached])

theorem Bides.detach (sealed : Sealed V engine h) (guard : StreamGuard) :
    Bides V V engine h (h.detach engine guard).2 := by
  obtain ⟨routing, detached⟩ := engine_detach h engine engine guard
  exact .ofStore sealed (Nat.le_of_eq (size_engines_detach guard).symm) (by rw [detached])

/-! ## Releases -/

/-- A release goes on to keep secrets. If its scope is the last one that was entered, it is taken
away again. -/
theorem Sealed.release (sealed : Sealed W engine h) (there : invocation.engine = engine)
    (own : invocation.bindings.engine = engine) (covers : W.Covers invocation.bindings) :
    ∃ X, Onward W X engine h (h.release invocation).2 ∧
      ∀ {V : Vault} {before : Host}, Shields V W engine before h invocation.bindings →
        Unwinds V X engine before (h.release invocation).2 := by
  subst there
  obtain ⟨X, clears, _, unwinds⟩ := sealed.clear own covers
  have detaches := Bides.detach clears.sealed invocation.stream
  have finishes : ∃ Y, Bides X Y invocation.engine (h.clear invocation.engine invocation.bindings).2
      (h.release invocation).2 := by
    obtain ⟨_, last | last⟩ := release_eq h invocation
    · rw [last]
      exact ⟨X, detaches⟩
    · obtain ⟨Y, collects⟩ := detaches.sealed.collectGarbage
      rw [last]
      exact ⟨Y, detaches.trans collects⟩
  obtain ⟨Y, finishes⟩ := finishes
  exact ⟨Y, clears.trans finishes.toOnward, fun shields => (unwinds shields).bides finishes⟩

/-! ## Acquisitions -/

/-- What scripts do while an engine is being prepared uses the globals in the ordinary way, and no
global has the name of a binding. -/
structure OrdinaryAcquire (h : Host) (id : ManagerId) (context : Context) : Prop where
  selection : h.OrdinarySelect id context.policy context.cacheKey
  unshadowed : ∀ {engine cached selected},
    h.selectEngine id context.policy context.cacheKey = (.ok (engine, cached), selected) →
      Unshadowed (selected.heap engine)
  install : ∀ {engine cached selected},
    h.selectEngine id context.policy context.cacheKey = (.ok (engine, cached), selected) →
      ((selected.attach engine context.output).2.heap engine).globalsMetatable? = none →
        (selected.attach engine context.output).2.OrdinaryInstall engine
  paths : ∀ {engine cached selected guard injected},
    h.selectEngine id context.policy context.cacheKey = (.ok (engine, cached), selected) →
      (selected.attach engine context.output).2.inject engine context cached (some id) =
        (.ok guard, injected) →
      injected.OrdinaryPaths engine (injected.effectivePaths id context)

/-- Whatever was done on an engine, its output and what scripts see are as before. -/
structure Retraces (V W : Vault) (engine : EngineId) (h after : Host) : Prop extends
    Unwinds V W engine h after where
  size : after.engines.size = h.engines.size
  others : ∀ other, other ≠ engine → after.engine other = h.engine other
  output : after.output engine = h.output engine
  active : (after.routing engine).active = (h.routing engine).active

/-- An engine is ready for an invocation. -/
structure Prepared (V W : Vault) (engine : EngineId) (context : Context) (selected after : Host)
    (invocation : Invocation) : Prop extends
    Shields V W engine selected after invocation.bindings where
  place : invocation.engine = engine
  given : invocation.context = context
  stream : invocation.stream = (selected.attach engine context.output).1
  works : WorksOn engine (selected.attach engine context.output).2 after

theorem Prepared.bides (prepared : Prepared V W engine context selected middle invocation)
    (second : Bides W X engine middle after) (works : WorksOn engine middle after) :
    Prepared V X engine context selected after invocation where
  toShields := prepared.toShields.bides second
  place := prepared.place
  given := prepared.given
  stream := prepared.stream
  works := prepared.works.trans works

/-- The release of an invocation leaves its engine as it was before the acquisition. -/
theorem Prepared.release (prepared : Prepared V W engine context selected after invocation) :
    ∃ X, Retraces V X engine selected (after.release invocation).2 := by
  obtain ⟨X, _, unwinds⟩ :=
    prepared.sealed.release prepared.place prepared.own prepared.covers
  have there := prepared.place
  have clears := runsOn_clear after engine invocation.bindings
  have releases := runsOn_release after invocation
  obtain ⟨others, output, active⟩ := outputs_of_worksOn (prepared.works.trans clears.worksOn)
  rw [there, prepared.stream] at releases
  refine ⟨X, unwinds prepared.toShields, ?_, fun other different => ?_, ?_, ?_⟩
  · rw [size_engines_release, prepared.works.size, size_engines_attach]
  · rw [releases.others other different, others other different]
  · rw [Host.output, releases.routing]
    exact output
  · rw [releases.routing]
    exact active

/-- An acquisition on an engine fails and leaves it as it was, or the engine is ready. -/
theorem Sealed.acquire {id : ManagerId} {cached : Bool} (sealed : Sealed V engine selected)
    (ordinary : h.OrdinaryAcquire id context)
    (selects : h.selectEngine id context.policy context.cacheKey =
      (.ok (engine, cached), selected)) :
    (∃ e W, (h.acquire id context).1 = .error e ∧
      Retraces V W engine selected (h.acquire id context).2) ∨
    ∃ invocation W, (h.acquire id context).1 = .ok invocation ∧
      Prepared V W engine context selected (h.acquire id context).2 invocation := by
  have attaches := Bides.attach sealed context.output
  have unshadowed := ordinary.unshadowed selects
  rw [← heap_attach selected engine engine context.output] at unshadowed
  have injects := attaches.sealed.inject unshadowed (ordinary.install selects) context cached
    (some id)
  have stays := runsOn_inject (selected.attach engine context.output).2 engine context cached
    (some id)
  -- An acquisition that fails has at most entered a scope, and left it again.
  have refuses : ∀ {e W last}, (h.acquire id context) = (.error e, last) →
      Unwinds V W engine selected last → ∃ e W, (h.acquire id context).1 = .error e ∧
        Retraces V W engine selected (h.acquire id context).2 := by
    intro e W last failed unwinds
    have restored := (refused_of_acquire selects failed).restored
    rw [failed]
    exact ⟨e, W, rfl, unwinds, restored.size, restored.others, restored.output, restored.active⟩
  obtain ⟨entered, ⟨e, refused, failed⟩ | ⟨guard, injected, last, ends⟩⟩ := acquire_cases selects
  · rw [refused] at injects
    obtain ⟨_, W, _, bides⟩ | ⟨_, _, given, _⟩ := injects
    · exact .inl (refuses failed (attaches.trans (bides.trans (.detach bides.sealed _))).unwinds)
    · cases given
  · rw [injected] at injects stays
    obtain ⟨_, _, none, _⟩ | ⟨_, W, given, shields⟩ := injects
    · cases none
    · cases given
      have before := attaches.shields shields
      obtain ⟨X, assigns⟩ := shields.sealed.setSearchPaths (ordinary.paths selects injected)
      have works := worksOn_setSearchPaths entered engine (entered.effectivePaths id context)
      rcases ends with ⟨e, refused, failed⟩ | ⟨assigned, acquired⟩
      · rw [refused] at assigns
        have whole := before.bides assigns
        obtain ⟨Y, _, _, clears⟩ := whole.sealed.clear whole.own whole.covers
        have unwinds := clears whole
        exact .inl (refuses failed (unwinds.bides (.detach unwinds.sealed _)))
      · rw [assigned] at assigns works
        rw [acquired]
        exact .inr ⟨_, X, rfl, before.bides assigns, rfl, rfl, rfl, stays.worksOn.trans works⟩

end Host

end ScriptHost
