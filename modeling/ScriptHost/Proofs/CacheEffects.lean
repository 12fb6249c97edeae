import ScriptHost.Proofs.CachedEngines
import ScriptHost.Proofs.FailedAcquisition
import ScriptHost.Proofs.Answers

/-!
# What acquisitions do to caches

Selecting an engine reads one entry of one cache, and a new engine for the cache replaces that
entry. What is done to the engine afterwards concerns caches only by requests of scripts.
-/

set_option autoImplicit false

namespace ScriptHost

theorem eq_ok_of_toOption {ε α : Type} {result : Except ε α} {a : α}
    (succeeds : result.toOption = some a) : result = .ok a := by
  cases result with
  | error e => cases succeeds
  | ok b => exact congrArg Except.ok (Option.some.inj succeeds)

namespace Host

open Lua

variable {h middle after : Host}

/-! ## New engines -/

theorem new_createEngine {factory : Factory} {options : EngineOptions} {engine : EngineId}
    (made : h.createEngine factory options = (.ok engine, after)) :
    h.engines.size ≤ engine.index ∧ engine.index < after.engines.size := by
  have fresh := grows_newEngine h (factory.effective options)
  unfold createEngine at made
  cases opened : h.newEngine (factory.effective options) with
  | mk result start =>
      rw [opened] at made fresh
      cases result with
      | error e => cases made
      | ok new =>
          have prepared := runsOn_prepare start new factory.initializers 0
          dsimp only at made
          cases done : start.prepare new 0 factory.initializers with
          | mk outcome last =>
              rw [done] at made prepared
              cases outcome with
              | error e => cases made
              | ok _ =>
                  cases made
                  have index := fresh.2 engine rfl
                  have bigger : start.engines.size = h.engines.size + 1 := by
                    unfold newEngine at opened
                    dsimp only at opened
                    split at opened
                    · cases opened
                      simp [newStandardStream, newStream]
                    · cases opened
                  rw [prepared.size, bigger, index]
                  exact ⟨Nat.le_refl _, Nat.lt_succ_self _⟩

theorem new_requestEngine {id : ManagerId} {options : EngineOptions} {engine : EngineId}
    (made : h.requestEngine id options = (.ok engine, after)) :
    h.engines.size ≤ engine.index ∧ engine.index < after.engines.size := by
  unfold requestEngine at made
  dsimp only at made
  split at made
  · cases made
  · have new := new_createEngine made
    exact new

/-! ## Selecting -/

/-- What a selection that makes an engine does to caches: the engine takes the place of the one
that was there for the key, if the policy has it cached. -/
structure Stores (cache : CacheId) (policy : Policy) (key : CacheKey)
    (made : Except EngineError EngineId) (h after : Host) : Prop where
  elsewhere : after = { h with caches := after.caches }
  caches : after.caches.size = h.caches.size
  get? : ∀ other otherKey, (after.cache other).get? otherKey =
    match made with
    | .ok engine =>
      if policy.usesCache = true ∧ other = cache ∧ otherKey = key then some engine
      else (h.cache other).get? otherKey
    | .error _ => (h.cache other).get? otherKey

namespace Stores

variable {cache : CacheId} {policy : Policy} {key : CacheKey} {made : Except EngineError EngineId}

theorem engines (stores : Stores cache policy key made h after) : after.engines = h.engines := by
  rw [stores.elsewhere]

theorem managers (stores : Stores cache policy key made h after) : after.managers = h.managers := by
  rw [stores.elsewhere]

end Stores

theorem stores_put {cache : CacheId} (present : cache.index < h.caches.size) {policy : Policy}
    (cached : policy.usesCache = true) (key : CacheKey) (engine : EngineId) {α : Type}
    (f : EngineCache → α × EngineCache) (puts : ∀ c, (f c).2 = (c.put key engine).2) :
    Stores cache policy key (.ok engine) h (h.alterCache cache f).2 where
  elsewhere := rfl
  caches := by simp [alterCache]
  get? other otherKey := by
    rw [cache_alterCache, puts]
    by_cases same : other = cache
    · rw [if_pos ⟨same, present⟩, EngineCache.get?_put]
      subst same
      simp [cached]
    · rw [if_neg fun equal => same equal.1]
      simp [same]

theorem stores_nothing {cache : CacheId} {policy : Policy} {key : CacheKey}
    {made : Except EngineError EngineId} (elsewhere : after = { h with caches := after.caches })
    (caches : after.caches.size = h.caches.size)
    (entries : ∀ id, (after.cache id).entries = (h.cache id).entries)
    (unused : ∀ engine, made = .ok engine → policy.usesCache = false) :
    Stores cache policy key made h after where
  elsewhere := elsewhere
  caches := caches
  get? other otherKey := by
    rw [EngineCache.get?_of_entries (entries other)]
    cases made with
    | error e => rfl
    | ok engine => simp [unused engine rfl]

theorem selectEngine_of_found {id : ManagerId} {key : CacheKey} {engine : EngineId}
    (found : (h.cacheOf id).get? key = some engine) :
    h.selectEngine id .reuse key = (.ok (engine, true), h) := by
  rw [selectEngine]
  simp only [cacheOf] at found
  rw [found]

/-- Where no cached engine serves, one is requested, and the cache is told about it. -/
theorem selectEngine_of_missing {id : ManagerId} {policy : Policy} {key : CacheKey}
    (missing : policy = .reuse → (h.cacheOf id).get? key = none)
    (present : (h.manager id).cache.index < (h.requestEngine id (.ofPolicy policy)).2.caches.size) :
    (h.selectEngine id policy key).1 = (h.requestEngine id (.ofPolicy policy)).1.map (·, false) ∧
      Stores (h.manager id).cache policy key (h.requestEngine id (.ofPolicy policy)).1
        (h.requestEngine id (.ofPolicy policy)).2 (h.selectEngine id policy key).2 := by
  have cacheOf : (h.cache (h.manager id).cache) = h.cacheOf id := rfl
  cases policy with
  | reuse =>
      simp only [selectEngine, cacheOf, missing rfl]
      cases made : h.requestEngine id (.ofPolicy .reuse) with
      | mk result middle =>
          rw [made] at present
          refine ⟨?_, ?_⟩
          · cases result <;> rfl
          · cases result with
            | ok engine => exact stores_put present rfl key engine _ fun _ => rfl
            | error e =>
                refine stores_nothing rfl (by simp [alterCache]) (fun other => ?_)
                  fun _ absent => by cases absent
                dsimp only
                rw [cache_alterCache]
                split
                · next same =>
                    rw [same.1]
                    rfl
                · rfl
  | refresh =>
      simp only [selectEngine]
      cases made : h.requestEngine id (.ofPolicy .refresh) with
      | mk result middle =>
          rw [made] at present
          cases result with
          | ok engine => exact ⟨rfl, stores_put present rfl key engine _ fun _ => rfl⟩
          | error e =>
              exact ⟨rfl, stores_nothing rfl rfl (fun _ => rfl) fun _ absent => by cases absent⟩
  | clean | fullIsolation =>
      exact ⟨rfl, stores_nothing rfl rfl (fun _ => rfl) fun _ _ => rfl⟩

/-- A manager that has no engine cached for a policy and a key requests one. -/
theorem selectionRequests_of_missing {id : ManagerId} {policy : Policy} {key : CacheKey}
    (missing : policy = .reuse → (h.cacheOf id).get? key = none) :
    h.selectionRequests id policy key = h.engineRequests id (.ofPolicy policy) := by
  unfold selectionRequests
  split
  · next found =>
      rw [missing rfl] at found
      cases found
  · rfl

theorem selectEngine_cases (h : Host) (id : ManagerId) (policy : Policy) (key : CacheKey)
    (present : (h.manager id).cache.index < h.caches.size) :
    (∃ engine, policy = .reuse ∧ (h.cacheOf id).get? key = some engine ∧
        h.selectionRequests id policy key = [] ∧
        h.selectEngine id policy key = (.ok (engine, true), h)) ∨
      (policy = .reuse → (h.cacheOf id).get? key = none) ∧
        h.selectionRequests id policy key = h.engineRequests id (.ofPolicy policy) ∧
        (h.selectEngine id policy key).1 =
          (h.requestEngine id (.ofPolicy policy)).1.map (·, false) ∧
        Stores (h.manager id).cache policy key (h.requestEngine id (.ofPolicy policy)).1
          (h.requestEngine id (.ofPolicy policy)).2 (h.selectEngine id policy key).2 := by
  by_cases served : policy = .reuse ∧ ((h.cacheOf id).get? key).isSome = true
  · obtain ⟨rfl, served⟩ := served
    obtain ⟨engine, found⟩ := Option.isSome_iff_exists.mp served
    refine .inl ⟨engine, rfl, found, ?_, selectEngine_of_found found⟩
    unfold selectionRequests
    rw [found]
  · have missing : policy = .reuse → (h.cacheOf id).get? key = none := by
      intro reuse
      simpa [reuse] using served
    rw [← (serves_requestEngine h id (.ofPolicy policy)).caches] at present
    exact .inr ⟨missing, selectionRequests_of_missing missing,
      selectEngine_of_missing missing present⟩

/-- The engine that is selected comes from the cache, or was made on request and then cached. -/
theorem reused_or_requested {id : ManagerId} {policy : Policy} {key : CacheKey} {engine : EngineId}
    {cached : Bool} {selected : Host} (present : (h.manager id).cache.index < h.caches.size)
    (selects : h.selectEngine id policy key = (.ok (engine, cached), selected)) :
    policy = .reuse ∧ (h.cacheOf id).get? key = some engine ∧ selected = h ∨
      (policy = .reuse → (h.cacheOf id).get? key = none) ∧ ∃ requested,
        h.requestEngine id (.ofPolicy policy) = (.ok engine, requested) ∧
        Stores (h.manager id).cache policy key (.ok engine) requested selected := by
  rcases selectEngine_cases h id policy key present with
    ⟨other, reuse, found, _, chosen⟩ | ⟨missing, _, outcome, stores⟩
  · rw [selects] at chosen
    cases chosen
    exact .inl ⟨reuse, found, rfl⟩
  · rw [selects] at outcome stores
    cases made : h.requestEngine id (.ofPolicy policy) with
    | mk result requested =>
        rw [made] at outcome stores
        cases result with
        | error e => cases outcome
        | ok new =>
            cases outcome
            exact .inr ⟨missing, requested, rfl, stores⟩

/-! ## Setting up -/

theorem setupRequests_of_error {id : ManagerId} {context : Context} {e : EngineError}
    (refused : (h.selectEngine id context.policy context.cacheKey).1 = .error e) :
    h.setupRequests id context = [] := by
  unfold setupRequests
  split
  · rfl
  · next chosen =>
      rw [chosen] at refused
      cases refused

/-- What is done to an engine that was selected makes no engine, and beside the engine it changes
only what scripts ask for. -/
theorem serves_acquire {id : ManagerId} {context : Context} {engine : EngineId} {cached : Bool}
    {selected : Host}
    (selects : h.selectEngine id context.policy context.cacheKey = (.ok (engine, cached), selected)) :
    (h.acquire id context).2.engines.size = selected.engines.size ∧
      Serves (h.setupRequests id context) selected (h.acquire id context).2 := by
  have attached := serves_attach selected engine context.output
  have injects := serves_inject (selected.attach engine context.output).2 engine context cached
    (some id)
  have size := (runsOn_inject (selected.attach engine context.output).2 engine context cached
    (some id)).size
  rw [size_engines_attach] at size
  unfold setupRequests
  rw [selects]
  dsimp only
  obtain ⟨injected, ⟨e, refused, acquired⟩ | ⟨guard, entered, assigned, ends⟩⟩ := acquire_cases selects
  · rw [refused] at injects size
    rw [acquired, refused]
    refine ⟨by rw [size_engines_detach, size], ?_⟩
    exact (attached.trans (injects.quiet (serves_detach injected engine _))).trans (Serves.refl _)
  · rw [entered] at injects size
    rw [entered]
    have assigns := serves_setSearchPaths injected engine (injected.effectivePaths id context)
    have kept := (worksOn_setSearchPaths injected engine (injected.effectivePaths id context)).size
    rcases ends with ⟨e, refused, acquired⟩ | ⟨sets, acquired⟩
    · rw [refused] at assigns kept
      rw [acquired]
      have left := (runsOn_clear assigned engine guard).size
      refine ⟨by rw [size_engines_detach, left, kept, size], ?_⟩
      exact attached.trans (injects.trans
        ((assigns.quiet (serves_clear assigned engine guard)).quiet (serves_detach _ engine _)))
    · rw [sets] at assigns kept
      rw [acquired]
      exact ⟨kept.trans size, attached.trans (injects.trans assigns)⟩

theorem serves_release (h : Host) (invocation : Invocation) :
    Serves [] h (h.release invocation).2 := by
  have left := (serves_clear h invocation.engine invocation.bindings).trans
    (serves_detach _ invocation.engine invocation.stream)
  obtain ⟨_, last | last⟩ := release_eq h invocation
  · rw [last]
    exact left
  · rw [last]
    exact left.quiet (Serves.modifyEngine ..)

end Host

end ScriptHost
