import ScriptHost.Proofs.Agreement

/-!
# What is not shared

Whatever is done on an engine that is not shared leaves what is shared as it is, also if the engine
is selected under a key that is not shared.
-/

set_option autoImplicit false

namespace ScriptHost

open Lua

/-- A request of a script on an engine that is not shared: what is reported goes to results that
are not shared either. -/
def Shared.Spared (shared : Shared) (request : Request) : Prop :=
  request.Within (fun _ => True) fun id => ¬ shared.results id

namespace Host

variable {shared : Shared} {h middle after : Host} {engine : EngineId} {requests : List Request}

/-! ## Engines -/

/-- From `h` to `after`, no engine has changed but one, and no context is lost. -/
structure Touches (engine : EngineId) (h after : Host) : Prop where
  size : after.engines.size = h.engines.size
  others : ∀ other, other ≠ engine → after.engine other = h.engine other
  contexts : ∀ id context, h.context? id = some context → after.context? id = some context

namespace Touches

theorem refl (engine : EngineId) (h : Host) : Touches engine h h :=
  ⟨rfl, fun _ _ => rfl, fun _ _ found => found⟩

theorem trans (first : Touches engine h middle) (second : Touches engine middle after) :
    Touches engine h after where
  size := second.size.trans first.size
  others other different := (second.others other different).trans (first.others other different)
  contexts id context found := second.contexts id context (first.contexts id context found)

theorem ofRunsOn (runs : RunsOn engine h after) : Touches engine h after :=
  ⟨runs.size, runs.others, runs.contexts⟩

theorem modifyEngine (engine : EngineId) (h : Host) (f : Engine → Engine) :
    Touches engine h (h.modifyEngine engine f) :=
  ⟨size_engines_modifyEngine .., fun _ different => engine_modifyEngine_of_ne different f,
    fun _ _ found => found⟩

end Touches

section

variable (h : Host) (engine : EngineId)

theorem touches_detach (guard : StreamGuard) : Touches engine h (h.detach engine guard).2 := by
  by_cases own : guard.engine = engine
  · rw [detach_self guard own]
    exact Touches.modifyEngine ..
  · rw [detach_of_ne own]
    exact Touches.refl ..

theorem touches_setSearchPaths (paths : List Path) :
    Touches engine h (h.setSearchPaths engine paths).2 := by
  obtain ⟨middle, uses, ⟨e, sets⟩ | sets⟩ := h.uses_setSearchPaths engine paths
  · rw [sets]
    exact .ofRunsOn uses.runsOn
  · rw [sets]
    exact (Touches.ofRunsOn uses.runsOn).trans (.modifyEngine engine middle _)

theorem touches_execFile (path : Path) : Touches engine h (h.execFile engine path).2 :=
  .ofRunsOn (h.uses_execFile engine path).runsOn

end

theorem touches_release (h : Host) (invocation : Invocation) :
    Touches invocation.engine h (h.release invocation).2 :=
  ((Touches.ofRunsOn (runsOn_clear ..)).trans (touches_detach ..)).trans
    (.ofRunsOn (runsOn_release h invocation))

theorem touches_acquire {id : ManagerId} {context : Context} {cached : Bool} {selected : Host}
    (selects : h.selectEngine id context.policy context.cacheKey = (.ok (engine, cached), selected)) :
    Touches engine selected (h.acquire id context).2 := by
  have attached : Touches engine selected (selected.attach engine context.output).2 :=
    Touches.modifyEngine ..
  have injects := attached.trans (.ofRunsOn (runsOn_inject
    (selected.attach engine context.output).2 engine context cached (some id)))
  obtain ⟨injected, ⟨e, refused, acquired⟩ | ⟨guard, entered, assigned, ends⟩⟩ := acquire_cases selects
  · rw [refused] at injects
    rw [acquired]
    exact injects.trans (touches_detach ..)
  · have assigns := touches_setSearchPaths injected engine (injected.effectivePaths id context)
    rw [entered] at injects
    rcases ends with ⟨e, refused, acquired⟩ | ⟨sets, acquired⟩
    · rw [refused] at assigns
      rw [acquired]
      exact ((injects.trans assigns).trans (.ofRunsOn (runsOn_clear ..))).trans (touches_detach ..)
    · rw [sets] at assigns
      rw [acquired]
      exact injects.trans assigns

/-! ## What is shared -/

/-- From `h` to `after`, nothing that is shared has changed. -/
structure Spares (shared : Shared) (h after : Host) : Prop extends Alike shared h after where
  engineCount : h.engines.size ≤ after.engines.size
  writerCount : h.writers.size ≤ after.writers.size
  engines : ∀ id, shared.engines id → after.engine id = h.engine id
  contexts : ∀ id context, h.context? id = some context → after.context? id = some context

theorem contextCount_of_kept
    (kept : ∀ id context, h.context? id = some context → after.context? id = some context) :
    h.contexts.size ≤ after.contexts.size := by
  rcases Nat.eq_zero_or_pos h.contexts.size with none | some_
  · rw [none]
    exact Nat.zero_le _
  · have last : h.contexts.size - 1 < h.contexts.size := Nat.sub_one_lt_of_lt some_
    have found := kept ⟨h.contexts.size - 1⟩ _ (Array.getElem?_eq_getElem last)
    have there := (Array.getElem?_eq_some_iff.mp found).1
    dsimp only at there
    omega

theorem cleared_of_within {contexts : ContextId → Prop} {results : ResultsId → Prop} (h : Host)
    (within : ∀ request ∈ requests, request.Within contexts results) :
    h.cleared requests = [] := by
  rw [cleared, List.filterMap_eq_nil_iff]
  intro request member
  have kind := within request member
  cases request with
  | clearEngines id? => exact kind.elim
  | _ => rfl

theorem not_reports_of_within {contexts : ContextId → Prop} {results : ResultsId → Prop}
    {request : Request} (within : request.Within contexts results) {id : ResultsId}
    (other : ¬ results id) : ¬ request.Reports id := by
  intro reports
  cases request with
  | setResult of key value => exact other (reports ▸ within)
  | removeResult of key => exact other (reports ▸ within)
  | _ => exact reports

namespace Spares

theorem refl (shared : Shared) (h : Host) : Spares shared h h :=
  ⟨.refl shared h, Nat.le_refl _, Nat.le_refl _, fun _ _ => rfl, fun _ _ found => found⟩

theorem trans (first : Spares shared h middle) (second : Spares shared middle after) :
    Spares shared h after where
  toAlike := first.toAlike.trans second.toAlike
  engineCount := Nat.le_trans first.engineCount second.engineCount
  writerCount := Nat.le_trans first.writerCount second.writerCount
  engines id known := (second.engines id known).trans (first.engines id known)
  contexts id context found := second.contexts id context (first.contexts id context found)

theorem ofServes (serves : Serves requests h after)
    (spared : ∀ request ∈ requests, shared.Spared request)
    (engineCount : h.engines.size ≤ after.engines.size)
    (engines : ∀ id, shared.engines id → after.engine id = h.engine id)
    (contexts : ∀ id context, h.context? id = some context → after.context? id = some context) :
    Spares shared h after where
  engineCount := engineCount
  writerCount := serves.writerCount
  engines := engines
  contexts := contexts
  resultCount := serves.resultCount
  results id known := serves.results id fun request member =>
    not_reports_of_within (spared request member) fun absent => absent known
  caches := serves.caches
  entries key _ := by
    refine EngineCache.get?_of_entries ?_ key
    rw [serves.entries, cleared_of_within h spared, if_neg List.not_mem_nil]
  managers := serves.managers
  broken := serves.broken
  files := serves.files
  stepLimit := serves.stepLimit

theorem ofTouches (serves : Serves requests h after)
    (spared : ∀ request ∈ requests, shared.Spared request) (touches : Touches engine h after)
    (foreign : ¬ shared.engines engine) : Spares shared h after :=
  ofServes serves spared (Nat.le_of_eq touches.size.symm)
    (fun id known => touches.others id fun same => foreign (same ▸ known)) touches.contexts

end Spares

/-- What a host does for itself does not concern what it shares with another one. -/
theorem Agree.spares {lead : Lead} {g : Host} (agree : Agree shared lead h g)
    (present : ∀ id, shared.contexts id → (h.context? id).isSome = true)
    (spares : Spares shared h after) : ∃ lead, Agree shared lead after g := by
  have contextCount := contextCount_of_kept spares.contexts
  refine ⟨⟨after.engines.size - g.engines.size, after.contexts.size - g.contexts.size,
    after.writers.size - g.writers.size⟩, ?_⟩
  have engines := agree.engineCount
  have contexts := agree.contextCount
  have writers := agree.writerCount
  have more := spares.engineCount
  have further := spares.writerCount
  exact
    { toAlike := spares.toAlike.symm.trans agree.toAlike
      engineCount := by dsimp only; omega
      contextCount := by dsimp only; omega
      writerCount := by dsimp only; omega
      engines := fun id known =>
        ⟨(agree.engines id known).1, (agree.engine_eq known).trans (spares.engines id known).symm⟩
      contexts := fun id known => by
        obtain ⟨context, found⟩ := Option.isSome_iff_exists.mp (present id known)
        rw [agree.contexts id known, found, spares.contexts id context found] }

/-! ## Acquisitions -/

section

variable {id : ManagerId} {policy : Policy} {key : CacheKey} {context : Context} {cached : Bool}
  {selected : Host} {contexts : ContextId → Prop} {results : ResultsId → Prop}

/-- The engine that is selected comes from the cache, or nobody had its number before. -/
theorem selected_cases (present : (h.manager id).cache.index < h.caches.size)
    (selects : h.selectEngine id policy key = (.ok (engine, cached), selected)) :
    policy = .reuse ∧ (h.cacheOf id).get? key = some engine ∧ selected = h ∨
      h.engines.size ≤ engine.index ∧ engine.index < selected.engines.size := by
  obtain reused | ⟨_, requested, made, stores⟩ := reused_or_requested present selects
  · exact .inl reused
  · rw [stores.engines]
    exact .inr (new_requestEngine made)

/-- What a cache has for a key after a selection, if no script empties a cache. -/
theorem get?_selectEngine (present : (h.manager id).cache.index < h.caches.size)
    (within : ∀ request ∈ h.selectionRequests id policy key, request.Within contexts results)
    (other : CacheId) (otherKey : CacheKey) :
    ((h.selectEngine id policy key).2.cache other).get? otherKey =
      match (h.selectEngine id policy key).1 with
      | .ok (engine, _) =>
        if policy.usesCache = true ∧ other = (h.manager id).cache ∧ otherKey = key then some engine
        else (h.cache other).get? otherKey
      | .error _ => (h.cache other).get? otherKey := by
  rcases selectEngine_cases h id policy key present with
    ⟨engine, reuse, found, _, chosen⟩ | ⟨_, requests, outcome, stores⟩
  · rw [chosen]
    dsimp only
    split
    · next here =>
        rw [here.2.1, here.2.2]
        exact found
    · rfl
  · have kept : ((h.requestEngine id (.ofPolicy policy)).2.cache other).get? otherKey =
        (h.cache other).get? otherKey := by
      refine EngineCache.get?_of_entries ?_ otherKey
      rw [(serves_requestEngine h id (.ofPolicy policy)).entries, ← requests,
        cleared_of_within h within, if_neg List.not_mem_nil]
    rw [stores.get?, outcome, kept]
    cases (h.requestEngine id (.ofPolicy policy)).1 <;> rfl

theorem get?_acquire (present : (h.manager id).cache.index < h.caches.size)
    (selecting : ∀ request ∈ h.selectionRequests id context.policy context.cacheKey,
      request.Within contexts results)
    {handles : ContextId → Prop} {reports : ResultsId → Prop}
    (preparing : ∀ request ∈ h.setupRequests id context, request.Within handles reports)
    (other : CacheId) (key : CacheKey) :
    ((h.acquire id context).2.cache other).get? key =
      match (h.selectEngine id context.policy context.cacheKey).1 with
      | .ok (engine, _) =>
        if context.policy.usesCache = true ∧ other = (h.manager id).cache ∧
            key = context.cacheKey then some engine
        else (h.cache other).get? key
      | .error _ => (h.cache other).get? key := by
  rw [← get?_selectEngine present selecting]
  cases selects : h.selectEngine id context.policy context.cacheKey with
  | mk result selected =>
      cases result with
      | error e => rw [acquire_of_error selects]
      | ok choice =>
          have serves := (serves_acquire selects).2
          refine EngineCache.get?_of_entries ?_ key
          rw [serves.entries, cleared_of_within selected preparing, if_neg List.not_mem_nil]

theorem Spares.ofStores {made : Except EngineError EngineId}
    (stores : Stores shared.cache policy key made h after)
    (foreign : policy.usesCache = true → ¬ shared.keys key) : Spares shared h after := by
  have entries : ∀ other, shared.keys other →
      (after.cache shared.cache).get? other = (h.cache shared.cache).get? other := by
    intro other known
    rw [stores.get?]
    cases made with
    | error e => rfl
    | ok engine =>
        refine if_neg fun own => ?_
        rw [own.2.2] at known
        exact foreign own.1 known
  have caches := stores.caches
  rw [stores.elsewhere] at entries caches ⊢
  exact { Spares.refl shared h with caches, entries }

theorem spares_selectEngine (present : (h.manager id).cache.index < h.caches.size)
    (wired : (h.manager id).cache = shared.cache)
    (foreign : policy.usesCache = true → ¬ shared.keys key)
    (known : ∀ id, shared.engines id → id.index < h.engines.size)
    (spared : ∀ request ∈ h.selectionRequests id policy key, shared.Spared request) :
    Spares shared h (h.selectEngine id policy key).2 := by
  rcases selectEngine_cases h id policy key present with
    ⟨engine, reuse, found, _, chosen⟩ | ⟨_, requests, outcome, stores⟩
  · rw [chosen]
    exact Spares.refl shared h
  · have grows := grows_requestEngine h id (.ofPolicy policy)
    have asked : Spares shared h (h.requestEngine id (.ofPolicy policy)).2 :=
      Spares.ofServes (serves_requestEngine ..) (requests ▸ spared) grows.size
        (fun id shares => grows.engine id (known id shares)) grows.contexts
    rw [wired] at stores
    exact asked.trans (Spares.ofStores stores foreign)

theorem spares_acquire (present : (h.manager id).cache.index < h.caches.size)
    (wired : (h.manager id).cache = shared.cache)
    (foreign : context.policy.usesCache = true → ¬ shared.keys context.cacheKey)
    (known : ∀ id, shared.engines id → id.index < h.engines.size)
    (away : ∀ engine cached, (h.selectEngine id context.policy context.cacheKey).1 =
      .ok (engine, cached) → ¬ shared.engines engine)
    (selecting : ∀ request ∈ h.selectionRequests id context.policy context.cacheKey,
      shared.Spared request)
    (preparing : ∀ request ∈ h.setupRequests id context, shared.Spared request) :
    Spares shared h (h.acquire id context).2 := by
  have chosen := spares_selectEngine present wired foreign known selecting
  cases selects : h.selectEngine id context.policy context.cacheKey with
  | mk result selected =>
      rw [selects] at chosen away
      cases result with
      | error e =>
          rw [acquire_of_error selects]
          exact chosen
      | ok choice =>
          obtain ⟨engine, cached⟩ := choice
          have prepared := Spares.ofTouches (serves_acquire selects).2 preparing
            (touches_acquire selects) (away engine cached rfl)
          exact chosen.trans prepared

end

end Host

end ScriptHost
