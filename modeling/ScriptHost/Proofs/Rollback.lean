import ScriptHost.Host.Script
import ScriptHost.Proofs.InvocationHistory

/-!
# Rolling a failed acquisition back

An acquisition that fails after an engine was selected leaves nothing behind that an invocation
on this engine or on any other one could notice.
-/

set_option autoImplicit false

namespace ScriptHost

open Lua Scope

namespace Host

/-- What a failed acquisition leaves of a host, where `selected` is the host with the engine
selected and otherwise unchanged. What scripts see is the same if no script has put anything in
the way of scopes. -/
structure RolledBack (engine : EngineId) (h selected after : Host) : Prop where
  selection : ∀ other, other.index < h.engines.size → selected.engine other = h.engine other
  others : ∀ other, other ≠ engine → after.engine other = selected.engine other
  output : after.output engine = selected.output engine
  active : (after.routing engine).active = (selected.routing engine).active
  searchPaths : (after.engine engine).searchPaths = (selected.engine engine).searchPaths
  previousOutput : ∀ guard : StreamGuard, guard.engine.index < h.engines.size →
    after.previousOutput guard = h.previousOutput guard
  releases : ∀ invocations : List Invocation,
    (∀ i ∈ invocations, i.engine.index < h.engines.size) →
    after.releaseAll invocations = h.releaseAll invocations
  packagePath : Orderly (selected.heap engine) →
    Scope.packagePath (after.heap engine) = Scope.packagePath (selected.heap engine)
  bindings : Orderly (selected.heap engine) → ∀ binding,
    (after.binding engine binding).1 = (selected.binding engine binding).1 ∨
      (selected.binding engine binding).1 = .ok .nil ∧ (after.binding engine binding).1 = .ok .null

/-- An acquisition that fails after it has selected an engine takes back what it has done, in
every state of the host and for every context. -/
theorem failed_acquire_rolled_back {h selected : Host} {id : ManagerId} {context : Context}
    {engine : EngineId} {cached : Bool} {e : EngineError}
    (selects : h.selectEngine id context.policy context.cacheKey = (.ok (engine, cached), selected))
    (fails : (h.acquire id context).1 = .error e) :
    RolledBack engine h selected (h.acquire id context).2 := by
  have grows := grows_selectEngine h id context.policy context.cacheKey
  rw [selects] at grows
  obtain ⟨middle, runs, finish, _⟩ := exists_of_acquire_error selects fails
  have restored : Restored engine selected (h.acquire id context).2 := by
    rw [finish]
    exact restored_of_runsOn runs
  have same := grows.sameOutputs.trans restored.sameOutputs
  refine ⟨grows.engine, restored.others, restored.output, restored.active, restored.searchPaths,
    fun guard => same.previousOutput, fun invocations => same.releaseAll invocations, ?_, ?_⟩
  · exact fun orderly => (rewound_of_acquire_error selects fails orderly).packagePath
  · intro orderly binding
    have rewound := rewound_of_acquire_error selects fails orderly
    rw [Host.binding, global_of_orderly rewound.orderly, Host.binding, global_of_orderly orderly]
    rcases rewound.visible binding with same | ⟨absent, null⟩
    · exact .inl (congrArg Except.ok same)
    · exact .inr ⟨congrArg Except.ok absent, congrArg Except.ok null⟩

end Host

namespace InvocationHistory

/-- One invocation, which is not released. -/
def outerAcquired : InvocationHistory :=
  (⟨oneManager, []⟩ : InvocationHistory).acquire ⟨0⟩ (toolContext 0 "outer")

/-- A context with a path that stands for no directory. -/
def misplacedContext : Context := { toolContext 1 "inner" with searchPaths := [⟨[]⟩] }

/-- A second acquisition on the engine of an invocation fails, as its path cannot be set. -/
theorem failed_acquire_rolled_back_nested :
    ∃ selected e, outerAcquired.host.selectEngine ⟨0⟩ .reuse ⟨"tools"⟩ =
        (.ok (⟨0⟩, true), selected) ∧
      (outerAcquired.host.acquire ⟨0⟩ misplacedContext).1 = .error e ∧
      Orderly (selected.heap ⟨0⟩) ∧
      Host.RolledBack ⟨0⟩ outerAcquired.host selected
        (outerAcquired.host.acquire ⟨0⟩ misplacedContext).2 := by
  have run : Run oneManager outerAcquired := Run.start.step
    (.acquire ⟨0⟩ (toolContext 0 "outer") (admits_of_bare rfl (by decide +kernel)))
  have facts : (onEngine ⟨0⟩ outerAcquired.log).length = 1 ∧
      (outerAcquired.host.selectEngine ⟨0⟩ .reuse ⟨"tools"⟩).1.toOption = some (⟨0⟩, true) ∧
      (outerAcquired.host.acquire ⟨0⟩ misplacedContext).1.toOption = none := by
    decide +kernel
  obtain ⟨used, selects, fails⟩ := facts
  have coherent := run.coherent idle_oneManager
  -- The host is a variable from here on, so that nothing runs again.
  generalize outerAcquired = s at coherent used selects fails ⊢
  have grows := Host.grows_selectEngine s.host ⟨0⟩ .reuse ⟨"tools"⟩
  have sound := coherent.sound ⟨0⟩ (List.ne_nil_of_length_pos (by omega))
  have present := Host.present_of_orderly sound.ready.orderly
  cases selection : s.host.selectEngine ⟨0⟩ .reuse ⟨"tools"⟩ with
  | mk result selected =>
      rw [selection] at selects grows
      cases result with
      | error e => cases selects
      | ok choice =>
          obtain rfl := Option.some.inj selects
          have orderly : Orderly (selected.heap ⟨0⟩) := by
            rw [Host.heap, grows.engine ⟨0⟩ present]
            exact sound.ready.orderly
          cases failure : (s.host.acquire ⟨0⟩ misplacedContext).1 with
          | ok invocation =>
              rw [failure] at fails
              cases fails
          | error e =>
              exact ⟨selected, e, rfl, rfl, orderly,
                Host.failed_acquire_rolled_back selection failure⟩

/-- A script that makes an assignment to `package.path` fail after it has been carried out. -/
def guardPath : String :=
  "setmetatable(package, \x7b __newindex = function(t, k, v) rawset(t, k, v) error(k) end \x7d) " ++
    "package.path = nil"

/-- The host after this script has run. -/
def guardedPath : Host :=
  (outerAcquired.host.exec ⟨0⟩ (Utf8.bytes "guard") (Utf8.bytes guardPath)).2

/-- A script can see to it that a failed acquisition changes `package.path`. -/
theorem failed_acquire_changes_guarded_path :
    (guardedPath.selectEngine ⟨0⟩ .reuse ⟨"tools"⟩).1.toOption = some (⟨0⟩, true) ∧
      (guardedPath.acquire ⟨0⟩ (toolContext 1 "inner")).1.toOption.isNone = true ∧
      (packagePath (guardedPath.heap ⟨0⟩)).isNil = true ∧
      (packagePath ((guardedPath.acquire ⟨0⟩ (toolContext 1 "inner")).2.heap ⟨0⟩)).isNil =
        false := by
  decide +kernel

end InvocationHistory

end ScriptHost
