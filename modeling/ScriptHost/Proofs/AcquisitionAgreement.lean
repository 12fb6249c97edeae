import ScriptHost.Proofs.Agreement

/-!
# Agreement of acquisitions

Two hosts that agree on the entry of the cache for a key select engines that are the same, and set
them up in the same way. A new engine is the same in both hosts if it gets the same number.
-/

set_option autoImplicit false

namespace ScriptHost

open Lua

namespace Host

variable {shared : Shared} {lead : Lead} {h g : Host} {id : ManagerId}

/-! ## Managers -/

theorem Agree.factory (agree : Agree shared lead h g) (id : ManagerId) :
    (g.manager id).factory = (h.manager id).factory :=
  factory_of_setup (setup_manager agree.managers id)

theorem Agree.managerCache (agree : Agree shared lead h g) (id : ManagerId) :
    (g.manager id).cache = (h.manager id).cache :=
  cache_of_setup (setup_manager agree.managers id)

theorem Agree.effectivePaths (agree : Agree shared lead h g) (id : ManagerId) (context : Context) :
    g.effectivePaths id context = h.effectivePaths id context := by
  have same : (g.manager id).defaultPaths = (h.manager id).defaultPaths :=
    (Manager.mk.inj (setup_manager agree.managers id)).2.2.1
  rw [Host.effectivePaths, same, Host.effectivePaths]

theorem Agree.modifyManager (agree : Agree shared lead h g) (id : ManagerId) {f : Manager → Manager}
    (kept : ∀ m, (f m).setup = m.setup) :
    Agree shared lead (h.modifyManager id f) (g.modifyManager id f) :=
  { agree with
    managers := fun index => by
      have same := agree.managers index
      simp only [Host.modifyManager, Array.getElem?_modify]
      split
      · simpa [Function.comp_def, kept] using same
      · exact same }

theorem Agree.stores {policy : Policy} {key : CacheKey} {made : Except EngineError EngineId}
    {after other : Host} (agree : Agree shared lead h g)
    (one : Stores shared.cache policy key made h after)
    (two : Stores shared.cache policy key made g other) : Agree shared lead after other := by
  have entries : ∀ key, shared.keys key →
      (other.cache shared.cache).get? key = (after.cache shared.cache).get? key := by
    intro key known
    rw [one.get?, two.get?, agree.entries key known]
  have caches := (two.caches.trans agree.caches).trans one.caches.symm
  rw [one.elsewhere, two.elsewhere] at entries caches ⊢
  exact { agree with caches, entries }

theorem Agree.chosen {made : Except EngineError EngineId}
    (agree : Agree (shared.adding fun engine => made = .ok engine) lead h g) :
    Agree (shared.adding fun engine => ∃ cached, made.map (·, false) = .ok (engine, cached))
      lead h g := by
  refine agree.onEngines fun engine known => known.imp_right ?_
  rintro ⟨_, chosen⟩
  cases made with
  | error e => cases chosen
  | ok made =>
      cases chosen
      rfl

/-! ## New engines -/

theorem same_newEngine (agree : Agree shared lead h g) (level : lead.engines = 0)
    (even : lead.writers = 0) (options : EngineOptions) :
    Same (shared.adding fun engine => (h.newEngine options).1 = .ok engine) lead
      (h.newEngine options) (g.newEngine options) := by
  have engineCount := agree.engineCount
  have writerCount := agree.writerCount
  rw [level, Nat.add_zero] at engineCount
  rw [even, Nat.add_zero] at writerCount
  have streams := fun id =>
    ((writer_push g id).trans (agree.broken id)).trans (writer_push h id).symm
  have opened : Agree shared lead { h with writers := h.writers.push .standard }
      { g with writers := g.writers.push .standard } :=
    { agree with
      writerCount := by simp [writerCount, even]
      broken := streams }
  unfold newEngine
  simp only [newStandardStream, newStream, ← engineCount, ← writerCount]
  cases made : Engine.fresh? ⟨h.engines.size⟩ options ⟨"stdout", ⟨h.writers.size⟩⟩ with
  | none =>
      refine ⟨rfl, opened.onEngines fun id known => ?_⟩
      rcases known with known | new
      · exact known
      · cases new
  | some engine =>
      refine ⟨rfl, { opened with engineCount := ?_, engines := ?_ }⟩
      · simp [engineCount, level]
      · intro id known
        rcases known with known | new
        · obtain ⟨present, same⟩ := agree.engines id known
          refine ⟨by simpa using Nat.lt_succ_of_lt present, ?_⟩
          simpa [Host.engine, Array.getElem?_push, ← engineCount,
            Nat.ne_of_lt (engineCount ▸ present)] using same
        · obtain rfl := Except.ok.inj new
          refine ⟨by simp [engineCount], ?_⟩
          show (g.engines.push engine)[h.engines.size]?.getD default =
            (h.engines.push engine)[h.engines.size]?.getD default
          rw [Array.getElem?_push, Array.getElem?_push, if_pos engineCount, if_pos rfl]

theorem same_prepare {engine : EngineId} (scripts : List String) :
    ∀ (index : Nat) {h g : Host}, Agree shared lead h g → shared.engines engine →
      (∀ request ∈ h.prepareRequests engine index scripts, shared.Permits request) →
      Same shared lead (h.prepare engine index scripts) (g.prepare engine index scripts) := by
  induction scripts with
  | nil => exact fun _ _ _ agree _ _ => ⟨rfl, agree⟩
  | cons script scripts ih =>
      intro index h g agree known permitted
      rw [prepareRequests] at permitted
      obtain ⟨result, after, other, first, second, reached⟩ :=
        (same_exec agree known (Utf8.bytes s!"init{index}") (Utf8.bytes script)
          fun r member => permitted r (List.mem_append_left _ member)).split
      rw [first] at permitted
      rw [prepare, prepare, first, second]
      cases result with
      | error e => exact ⟨rfl, reached⟩
      | ok _ =>
          exact ih (index + 1) reached known
            fun r member => permitted r (List.mem_append_right _ member)

theorem same_createEngine (agree : Agree shared lead h g) (level : lead.engines = 0)
    (even : lead.writers = 0) (factory : Factory) (options : EngineOptions)
    (permitted : ∀ request ∈ h.creationRequests factory options, shared.Permits request) :
    Same (shared.adding fun engine => (h.createEngine factory options).1 = .ok engine) lead
      (h.createEngine factory options) (g.createEngine factory options) := by
  unfold creationRequests at permitted
  have made := same_newEngine agree level even (factory.effective options)
  cases first : h.newEngine (factory.effective options) with
  | mk result start =>
      obtain ⟨_, after, other, one, second, reached⟩ := made.split
      rw [first] at one permitted
      cases one
      rw [first] at reached
      unfold createEngine
      rw [first, second]
      cases result with
      | error e => exact ⟨rfl, reached⟩
      | ok engine =>
          obtain ⟨result, last, finish, third, fourth, prepared⟩ :=
            (same_prepare factory.initializers 0 reached (Or.inr rfl) permitted).split
          dsimp only
          rw [third, fourth]
          cases result with
          | error e =>
              exact ⟨rfl, prepared.onEngines fun _ known => .inl (known.resolve_right nofun)⟩
          | ok _ => exact ⟨rfl, prepared⟩

theorem factory_modifyManager (h : Host) (id : ManagerId) {f : Manager → Manager}
    (kept : ∀ m, (f m).factory = m.factory) :
    ((h.modifyManager id f).manager id).factory = (h.manager id).factory := by
  simp only [manager, modifyManager, Array.getElem?_modify, if_true]
  cases h.managers[id.index]? with
  | none => rfl
  | some m => exact kept m

/-- A factory that refuses tells how often it was asked; one that does not refuse makes the same
engine in both hosts. -/
theorem same_requestEngine (agree : Agree shared lead h g) (level : lead.engines = 0)
    (even : lead.writers = 0) (reliable : ∀ n, (h.manager id).factory.outage.covers n = false)
    (options : EngineOptions)
    (permitted : ∀ request ∈ h.engineRequests id options, shared.Permits request) :
    Same (shared.adding fun engine => (h.requestEngine id options).1 = .ok engine) lead
      (h.requestEngine id options) (g.requestEngine id options) := by
  have counted := agree.modifyManager id
    (f := fun m => { m with requested := m.requested ++ [options] }) fun _ => rfl
  have asked (h : Host) := factory_modifyManager h id
    (f := fun m => { m with requested := m.requested ++ [options] }) fun _ => rfl
  unfold engineRequests at permitted
  unfold requestEngine
  dsimp only at permitted ⊢
  rw [asked, reliable] at permitted ⊢
  rw [asked, agree.factory, reliable]
  exact same_createEngine counted level even _ options permitted

/-! ## Acquisitions -/

section

variable (agree : Agree shared lead h g) (engines : lead.engines = 0) (writers : lead.writers = 0)
  (reliable : ∀ n, (h.manager id).factory.outage.covers n = false)
  (wired : (h.manager id).cache = shared.cache)

include agree engines writers reliable wired

theorem same_selectEngine {policy : Policy} {key : CacheKey}
    (inUse : shared.cache.index < h.caches.size)
    (cached : policy.usesCache = true → shared.keys key)
    (stored : policy = .reuse → ∀ engine, (h.cacheOf id).get? key = some engine →
      shared.engines engine)
    (permitted : ∀ request ∈ h.selectionRequests id policy key, shared.Permits request) :
    Same (shared.adding fun engine => ∃ cached, (h.selectEngine id policy key).1 =
        .ok (engine, cached)) lead
      (h.selectEngine id policy key) (g.selectEngine id policy key) := by
  have there : (g.manager id).cache = shared.cache := (agree.managerCache id).trans wired
  have entry (reuse : policy = .reuse) :
      (g.cacheOf id).get? key = (h.cacheOf id).get? key := by
    have same := agree.entries key (cached (by rw [reuse]; rfl))
    rw [cacheOf, cacheOf, wired, there]
    exact same
  rcases selectEngine_cases h id policy key (wired ▸ inUse) with
    ⟨engine, reuse, found, _, chosen⟩ | ⟨missing, requests, outcome, one⟩
  · subst reuse
    rw [chosen, selectEngine_of_found ((entry rfl).trans found)]
    refine ⟨rfl, agree.onEngines fun id shares => ?_⟩
    rcases shares with old | ⟨_, new⟩
    · exact old
    · cases new
      exact stored rfl engine found
  -- No engine serves in either host, so both request one and store it in the same way.
  · have requested := same_requestEngine agree engines writers reliable (.ofPolicy policy)
      (requests ▸ permitted)
    have absent (reuse : policy = .reuse) : (g.cacheOf id).get? key = none :=
      (entry reuse).trans (missing reuse)
    obtain ⟨answer, two⟩ := selectEngine_of_missing absent (by
      rw [(serves_requestEngine g id _).caches, there, agree.caches]
      exact inUse)
    rw [wired] at one
    rw [there, requested.outcome] at two
    refine ⟨by rw [answer, outcome, requested.outcome], ?_⟩
    rw [outcome]
    exact (requested.agree.stores one two).chosen

theorem same_acquire (contexts : lead.contexts = 0) {context : Context}
    (inUse : shared.cache.index < h.caches.size)
    (cached : context.policy.usesCache = true → shared.keys context.cacheKey)
    (stored : context.policy = .reuse → ∀ engine,
      (h.cacheOf id).get? context.cacheKey = some engine → shared.engines engine)
    (selecting : ∀ request ∈ h.selectionRequests id context.policy context.cacheKey,
      shared.Permits request)
    (preparing : ∀ request ∈ h.setupRequests id context, shared.Permits request) :
    Same (shared.adding fun engine => ∃ cached,
        (h.selectEngine id context.policy context.cacheKey).1 = .ok (engine, cached)) lead
      (h.acquire id context) (g.acquire id context) := by
  obtain ⟨choice, selected, other, first, second, reached⟩ :=
    (same_selectEngine agree engines writers reliable wired inUse cached stored selecting).split
  unfold setupRequests at preparing
  rw [first] at preparing reached ⊢
  unfold acquire
  rw [first, second]
  cases choice with
  | error e => exact ⟨rfl, reached⟩
  | ok choice =>
      obtain ⟨engine, fromCache⟩ := choice
      have known : (shared.adding fun id => ∃ cached, (.ok (engine, fromCache) :
          Except EngineError (EngineId × Bool)) = .ok (id, cached)).engines engine :=
        .inr ⟨fromCache, rfl⟩
      obtain ⟨stream, start, fork, third, fourth, attached⟩ :=
        (same_attach reached known context.output).split
      dsimp only at preparing ⊢
      rw [third] at preparing ⊢
      rw [fourth]
      dsimp only at preparing ⊢
      obtain ⟨result, middle, branch, fifth, sixth, injected⟩ :=
        (same_inject attached known contexts context fromCache (some id)
          fun r member => preparing r (List.mem_append_left _ member)).split
      rw [fifth] at preparing ⊢
      rw [sixth]
      cases result with
      | error e => exact ⟨rfl, (same_detach injected known stream).agree⟩
      | ok bindings =>
          obtain ⟨result, last, finish, seventh, eighth, assigned⟩ :=
            (same_setSearchPaths injected known (middle.effectivePaths id context)
              fun r member => preparing r (List.mem_append_right _ member)).split
          dsimp only
          rw [injected.effectivePaths, seventh, eighth]
          cases result with
          | ok _ => exact ⟨rfl, assigned⟩
          | error e =>
              exact ⟨rfl, (same_detach (same_clear assigned bindings).agree known stream).agree⟩

end

end Host

end ScriptHost
