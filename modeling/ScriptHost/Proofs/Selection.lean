import ScriptHost.Host.Invocation
import ScriptHost.Proofs.HostRuns

/-!
# Selecting an engine

Whatever engine a manager selects or makes, the engines that are there stay as they are: the
scripts that prepare a new engine run on that engine alone.
-/

set_option autoImplicit false

namespace ScriptHost.Host

/-- From `h` to `after`, engines may have been added, to which no stream is attached yet, but none
that was there has changed. -/
structure Grows (h after : Host) : Prop where
  size : h.engines.size ≤ after.engines.size
  engine : ∀ id, id.index < h.engines.size → after.engine id = h.engine id
  idle : ∀ id, h.engines.size ≤ id.index → (after.routing id).active = []
  contexts : ∀ id context, h.context? id = some context → after.context? id = some context

namespace Grows

variable {h middle after : Host}

theorem active_of_missing {id : EngineId} (missing : h.engines.size ≤ id.index) :
    (h.routing id).active = [] := by
  rw [routing, Host.engine, Array.getElem?_eq_none missing]
  rfl

theorem refl (h : Host) : Grows h h :=
  ⟨Nat.le_refl _, fun _ _ => rfl, fun _ => active_of_missing, fun _ _ found => found⟩

theorem trans (first : Grows h middle) (second : Grows middle after) : Grows h after where
  size := Nat.le_trans first.size second.size
  engine id present := by
    rw [second.engine id (Nat.lt_of_lt_of_le present first.size), first.engine id present]
  idle id new := by
    rcases Nat.lt_or_ge id.index middle.engines.size with made | later
    · rw [routing, second.engine id made]
      exact first.idle id new
    · exact second.idle id later
  contexts id context found := second.contexts id context (first.contexts id context found)

theorem ofEngines (engines : after.engines = h.engines) (contexts : after.contexts = h.contexts) :
    Grows h after where
  size := Nat.le_of_eq (congrArg Array.size engines.symm)
  engine id _ := by simp [Host.engine, engines]
  idle id new := active_of_missing (by rw [engines]; exact new)
  contexts id context found := by rw [context?, contexts]; exact found

/-- What happens on a new engine alone leaves all others as they are. -/
theorem thenRunsOn {id : EngineId} (first : Grows h middle) (new : h.engines.size ≤ id.index)
    (runs : RunsOn id middle after) : Grows h after where
  size := Nat.le_trans first.size (Nat.le_of_eq runs.size.symm)
  engine other present := by
    have different : other ≠ id := by
      rintro rfl
      exact Nat.not_lt_of_ge new present
    rw [runs.others other different, first.engine other present]
  idle other missing := by
    by_cases same : other = id
    · rw [same, runs.routing]
      exact first.idle id new
    · rw [routing, runs.others other same]
      exact first.idle other missing
  contexts other context found := runs.contexts other context (first.contexts other context found)

end Grows

/-- On a new engine the helpers are installed, and nothing else has happened to it. -/
theorem eq_of_fresh? {id : EngineId} {options : EngineOptions} {output : Stream} {engine : Engine}
    (made : Engine.fresh? id options output = some engine) :
    engine = { options, routing := { output }, store := ⟨{ Engine.install id options
      (Lua.Library.freshHeap options.heapLimit?) with used := Lua.Library.freshSize }, {}⟩ } := by
  simp only [Engine.fresh?] at made
  split at made
  · cases made
  · exact (Option.some.inj made).symm

/-- A new engine comes after all others. -/
theorem fresh?_of_newEngine {h after : Host} {engine : EngineId} {options : EngineOptions}
    (made : h.newEngine options = (.ok engine, after)) :
    engine = ⟨h.engines.size⟩ ∧ after.engines.size = h.engines.size + 1 ∧
      Engine.fresh? engine options ⟨"stdout", ⟨h.writers.size⟩⟩ = some (after.engine engine) := by
  unfold newEngine at made
  dsimp only at made
  split at made
  · rename_i new built
    cases made
    refine ⟨rfl, by simp [newStandardStream, newStream], ?_⟩
    rw [Host.engine, Array.getElem?_push_size]
    exact built
  · cases made

theorem grows_newEngine (h : Host) (options : EngineOptions) :
    Grows h (h.newEngine options).2 ∧
      ∀ engine, (h.newEngine options).1 = .ok engine → engine.index = h.engines.size := by
  unfold newEngine
  dsimp only
  split
  · rename_i engine made
    refine ⟨⟨?_, ?_, ?_, fun _ _ found => found⟩, ?_⟩
    · simp [newStandardStream, newStream]
    · intro id present
      simp [Host.engine, newStandardStream, newStream, Array.getElem?_push, Nat.ne_of_lt present]
    · intro id missing
      rcases Nat.lt_or_eq_of_le missing with beyond | new
      · refine Grows.active_of_missing ?_
        simpa [newStandardStream, newStream] using Nat.succ_le_of_lt beyond
      · simp [routing, Host.engine, newStandardStream, newStream, ← new, eq_of_fresh? made]
    · intro id same
      rw [← Except.ok.inj same]
      rfl
  · exact ⟨.ofEngines rfl rfl, by simp⟩

theorem grows_createEngine (h : Host) (factory : Factory) (options : EngineOptions) :
    Grows h (h.createEngine factory options).2 := by
  obtain ⟨grown, new⟩ := grows_newEngine h (factory.effective options)
  unfold createEngine
  split
  · rename_i failed
    rwa [failed] at grown
  · rename_i engine _ made
    rw [made] at grown new
    have prepared := grown.thenRunsOn (Nat.le_of_eq (new engine rfl).symm)
      (runsOn_prepare _ engine factory.initializers 0)
    split
    · rename_i failed
      rwa [failed] at prepared
    · rename_i succeeded
      rwa [succeeded] at prepared

theorem grows_requestEngine (h : Host) (id : ManagerId) (options : EngineOptions) :
    Grows h (h.requestEngine id options).2 := by
  have counted : Grows h
      (h.modifyManager id fun m => { m with requested := m.requested ++ [options] }) :=
    .ofEngines rfl rfl
  unfold requestEngine
  dsimp only
  split
  · exact counted
  · exact counted.trans (grows_createEngine ..)

theorem grows_alterCache {α : Type} (h : Host) (id : CacheId)
    (f : EngineCache → α × EngineCache) : Grows h (h.alterCache id f).2 :=
  .ofEngines rfl rfl

theorem grows_selectEngine (h : Host) (id : ManagerId) (policy : Policy) (key : CacheKey) :
    Grows h (h.selectEngine id policy key).2 := by
  have requested := grows_requestEngine h id (.ofPolicy policy)
  cases policy with
  | reuse =>
      simp only [selectEngine]
      split
      · exact Grows.refl h
      · dsimp only
        exact requested.trans (grows_alterCache ..)
  | refresh =>
      simp only [selectEngine]
      split
      · rename_i failed
        rwa [failed] at requested
      · rename_i made
        rw [made] at requested
        dsimp only at requested ⊢
        exact requested.trans (grows_alterCache ..)
  | clean => exact requested
  | fullIsolation => exact requested

end ScriptHost.Host
