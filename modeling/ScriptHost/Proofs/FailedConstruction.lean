import ScriptHost.Proofs.PreparationRequests

/-!
# Caches after a failed construction

Where an engine that is wanted for a cache cannot be made, the cache has the same entries as before.
But it is in use from then on, if one looked in it for the engine first.
-/

set_option autoImplicit false

namespace ScriptHost

namespace EngineCache

/-- Whatever is asked about the entries of two caches is answered alike. -/
structure AnswersAlike (cache other : EngineCache) : Prop where
  get? : ∀ key, other.get? key = cache.get? key
  contains : ∀ key, other.contains key = cache.contains key
  size : other.size = cache.size
  isEmpty : other.isEmpty = cache.isEmpty
  keys : other.keys = cache.keys

variable {cache other : EngineCache}

theorem AnswersAlike.ofEntries (same : other.entries = cache.entries) : cache.AnswersAlike other where
  get? key := get?_of_entries same key
  contains key := congrArg Option.isSome (get?_of_entries same key)
  size := congrArg List.length same
  isEmpty := congrArg (·.length == 0) same
  keys := congrArg Ordered.keys same

theorem getOrCreate_of_error {ε : Type} {key : CacheKey} {create : Unit → Except ε EngineId} {e : ε}
    (failed : (cache.getOrCreate key create).1 = .error e) :
    create () = .error e ∧ (cache.getOrCreate key create).2 = ⟨some cache.entries⟩ := by
  rcases cache.getOrCreate_cases key create with
    ⟨engine, _, served⟩ | ⟨_, ⟨engine, _, made⟩ | ⟨fault, refused, result⟩⟩
  · rw [served] at failed
    cases failed
  · rw [made] at failed
    cases failed
  · rw [result] at failed ⊢
    cases failed
    exact ⟨refused, rfl⟩

end EngineCache

namespace Host

variable {h : Host} {id : ManagerId} {policy : Policy} {key : CacheKey} {e : EngineError}

/-- A selection fails only with the construction of an engine. Then it has looked in the cache
before, or it has not touched the cache at all. -/
theorem cache_selectEngine_of_error (cached : policy.usesCache = true)
    (failed : (h.selectEngine id policy key).1 = .error e) :
    (h.requestEngine id (.ofPolicy policy)).1 = .error e ∧
      (h.selectEngine id policy key).2.managers = (h.requestEngine id (.ofPolicy policy)).2.managers ∧
      (h.selectEngine id policy key).2.cache (h.manager id).cache =
        if policy = .reuse ∧
            (h.manager id).cache.index < (h.requestEngine id (.ofPolicy policy)).2.caches.size then
          ⟨some ((h.requestEngine id (.ofPolicy policy)).2.cache (h.manager id).cache).entries⟩
        else (h.requestEngine id (.ofPolicy policy)).2.cache (h.manager id).cache := by
  cases policy with
  | reuse =>
      cases found : (h.cache (h.manager id).cache).get? key with
      | some engine =>
          simp only [selectEngine, found] at failed
          cases failed
      | none =>
          simp only [selectEngine, found] at failed ⊢
          cases made : h.requestEngine id (.ofPolicy .reuse) with
          | mk result middle =>
              rw [made] at failed
              cases result with
              | ok engine => cases failed
              | error fault =>
                  refine ⟨by cases failed; rfl, rfl, ?_⟩
                  dsimp only
                  rw [cache_alterCache]
                  simp only [true_and]
                  rfl
  | refresh =>
      simp only [selectEngine] at failed ⊢
      cases made : h.requestEngine id (.ofPolicy .refresh) with
      | mk result middle =>
          rw [made] at failed
          cases result with
          | ok engine => cases failed
          | error fault =>
              cases failed
              exact ⟨rfl, rfl, rfl⟩
  | clean | fullIsolation => cases cached

/-- The cache of a manager that could not have an engine made for it. -/
theorem cacheOf_acquire_of_error {context : Context} (cached : context.policy.usesCache = true)
    (present : (h.manager id).cache.index < h.caches.size)
    (failed : (h.selectEngine id context.policy context.cacheKey).1 = .error e) :
    (h.acquire id context).1 = .error e ∧
      (h.acquire id context).2.cacheOf id =
        if context.policy = .reuse then ⟨some (h.cacheOf id).entries⟩ else h.cacheOf id := by
  obtain ⟨_, managers, cache⟩ := cache_selectEngine_of_error cached failed
  have serves := serves_requestEngine h id (.ofPolicy context.policy)
  have spared : (h.manager id).cache ∉ h.cleared (h.engineRequests id (.ofPolicy context.policy)) := by
    rw [cleared_engineRequests]
    exact List.not_mem_nil
  rw [serves.caches, serves.kept _ spared] at cache
  have own : ((h.selectEngine id context.policy context.cacheKey).2.manager id).cache =
      (h.manager id).cache := by
    refine cache_of_setup (setup_manager (fun index => ?_) id)
    rw [managers]
    exact serves.managers index
  have acquired : h.acquire id context =
      (.error e, (h.selectEngine id context.policy context.cacheKey).2) :=
    acquire_of_error (Prod.ext failed rfl)
  refine ⟨congrArg Prod.fst acquired, ?_⟩
  rw [acquired, cacheOf, own, cache]
  simp only [present, and_true]
  rfl

/-- Where an engine cannot be made, a cache answers everything about its entries as before. A cache
that was asked for an engine first is in use from then on; a manager that refreshes the engine of a
key does not ask, and leaves the cache as it is. -/
theorem failed_construction_keeps_entries (cache : EngineCache) (key : CacheKey)
    (create : Unit → Except EngineError EngineId) (h : Host) (id : ManagerId) (context : Context)
    (e : EngineError) :
    ((cache.getOrCreate key create).1 = .error e →
      create () = .error e ∧ cache.AnswersAlike (cache.getOrCreate key create).2 ∧
        (cache.getOrCreate key create).2.isInitialized = true) ∧
    (context.policy.usesCache = true → (h.manager id).cache.index < h.caches.size →
      (h.selectEngine id context.policy context.cacheKey).1 = .error e →
        (h.acquire id context).1 = .error e ∧
          (h.cacheOf id).AnswersAlike ((h.acquire id context).2.cacheOf id) ∧
          ((h.acquire id context).2.cacheOf id).isInitialized =
            (decide (context.policy = .reuse) || (h.cacheOf id).isInitialized)) := by
  constructor
  · intro failed
    obtain ⟨refused, after⟩ := EngineCache.getOrCreate_of_error failed
    rw [after]
    exact ⟨refused, .ofEntries rfl, rfl⟩
  · intro cached present failed
    obtain ⟨fails, after⟩ := cacheOf_acquire_of_error cached present failed
    refine ⟨fails, ?_⟩
    rw [after]
    by_cases reuse : context.policy = .reuse
    · simp only [reuse, if_true]
      exact ⟨.ofEntries rfl, rfl⟩
    · simp only [reuse, if_false]
      exact ⟨.ofEntries rfl, rfl⟩

/-- A host whose one manager cannot have any engine made. -/
def refusing : Host where
  caches := #[{}]
  managers := #[{ cache := ⟨0⟩, factory := { outage := .always } }]
  files := default

/-- A new cache is in use after a manager could not have an engine made for it under reuse. -/
theorem failed_construction_keeps_entries_unused :
    let context : Context := { output := ⟨"stdout", ⟨0⟩⟩, command := {}, results := ⟨0⟩ }
    let after := (refusing.acquire ⟨0⟩ context).2.cacheOf ⟨0⟩
    (∃ e, (refusing.acquire ⟨0⟩ context).1 = .error e) ∧
      (refusing.cacheOf ⟨0⟩).AnswersAlike after ∧
      (refusing.cacheOf ⟨0⟩).isInitialized = false ∧ after.isInitialized = true ∧
      ∃ e : EngineError, EngineCache.AnswersAlike {}
        ((EngineCache.getOrCreate {} ⟨"k"⟩ fun _ => Except.error e).2) := by
  intro context after
  have refused : (refusing.selectEngine ⟨0⟩ context.policy context.cacheKey).1.toOption = none := by
    decide +kernel
  cases selected : (refusing.selectEngine ⟨0⟩ context.policy context.cacheKey).1 with
  | ok chosen =>
      rw [selected] at refused
      cases refused
  | error e =>
      obtain ⟨alone, acquires⟩ := failed_construction_keeps_entries {} ⟨"k"⟩ (fun _ => .error e)
        refusing ⟨0⟩ context e
      obtain ⟨fails, same, inUse⟩ := acquires rfl (by decide) selected
      exact ⟨⟨e, fails⟩, same, rfl, inUse, e, (alone rfl).2.1⟩

/-- A failed construction does not always leave a cache as it was. -/
theorem failed_construction_initializes :
    ¬ ∀ (cache : EngineCache) (key : CacheKey) (create : Unit → Except EngineError EngineId)
      (e : EngineError), (cache.getOrCreate key create).1 = .error e →
        (cache.getOrCreate key create).2.isInitialized = cache.isInitialized := by
  intro untouched
  have same := untouched {} ⟨"k"⟩ (fun _ => .error (.construction "no runtime")) _ rfl
  cases same

end Host

end ScriptHost
