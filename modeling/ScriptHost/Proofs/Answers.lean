import ScriptHost.Proofs.EngineUses
import ScriptHost.Proofs.HostState

/-!
# What answers change

What answering the requests of scripts changes beside the engines. By itself, what a host does on
an engine changes nothing there.
-/

set_option autoImplicit false

namespace ScriptHost

/-- What scripts can see of a manager, and what decides about its engines. -/
def Manager.setup (m : Manager) : Manager := { m with requested := [] }

/-- A request that changes what is reported under a name of results. -/
def Lua.Request.Reports (id : ResultsId) : Lua.Request → Prop
  | .setResult of .. | .removeResult of .. => of = id
  | _ => False

namespace Host

open Lua

/-! ## Requests and caches -/

/-- The cache that a request empties. -/
def clearedBy? (h : Host) : Request → Option CacheId
  | .clearEngines id? => (h.alive? id?).map Manager.cache
  | _ => none

/-- The caches that requests empty, in their order. -/
def cleared (h : Host) (requests : List Request) : List CacheId := requests.filterMap h.clearedBy?

theorem cleared_append (h : Host) (first second : List Request) :
    h.cleared (first ++ second) = h.cleared first ++ h.cleared second :=
  List.filterMap_append

/-- From `h` to `after`, beside engines and contexts only what answers to the requests change has
changed, but for what managers were asked for and for new streams. -/
structure Serves (requests : List Request) (h after : Host) : Prop where
  managers : ∀ index : Nat,
    after.managers[index]?.map Manager.setup = h.managers[index]?.map Manager.setup
  caches : after.caches.size = h.caches.size
  entries : ∀ id, (after.cache id).entries =
    if id ∈ h.cleared requests then [] else (h.cache id).entries
  kept : ∀ id, id ∉ h.cleared requests → after.cache id = h.cache id
  resultCount : after.results.size = h.results.size
  results : ∀ id, (∀ request ∈ requests, ¬ request.Reports id) →
    after.resultsOf id = h.resultsOf id
  broken : ∀ id, after.writer id = .broken ↔ h.writer id = .broken
  writerCount : h.writers.size ≤ after.writers.size
  files : after.files = h.files
  stepLimit : after.stepLimit = h.stepLimit

variable {h middle after : Host} {first second requests : List Request}

theorem setup_manager
    (same : ∀ index : Nat,
      after.managers[index]?.map Manager.setup = h.managers[index]?.map Manager.setup)
    (id : ManagerId) : (after.manager id).setup = (h.manager id).setup := by
  have here := same id.index
  unfold manager
  cases before : h.managers[id.index]? <;> cases now : after.managers[id.index]? <;> simp_all

theorem cache_of_setup {m n : Manager} (same : m.setup = n.setup) : m.cache = n.cache :=
  (Manager.mk.inj same).1

theorem factory_of_setup {m n : Manager} (same : m.setup = n.setup) : m.factory = n.factory :=
  (Manager.mk.inj same).2.1

theorem alive?_of_setup
    (same : ∀ index : Nat,
      after.managers[index]?.map Manager.setup = h.managers[index]?.map Manager.setup)
    (id? : Option ManagerId) :
    (after.alive? id?).map Manager.setup = (h.alive? id?).map Manager.setup := by
  cases id? with
  | none => rfl
  | some id =>
      have here := same id.index
      simp only [alive?, Option.bind_some]
      cases before : h.managers[id.index]? with
      | none =>
          rw [before] at here
          rw [Option.map_eq_none_iff.mp here]
      | some m =>
          rw [before] at here
          obtain ⟨n, found, setup⟩ := Option.map_eq_some_iff.mp here
          have holders : n.holders = m.holders := (Manager.mk.inj setup).2.2.2.1
          rw [found, Option.filter_some, Option.filter_some, holders]
          split
          · exact congrArg some setup
          · rfl

theorem clearedBy?_of_setup
    (same : ∀ index : Nat,
      after.managers[index]?.map Manager.setup = h.managers[index]?.map Manager.setup)
    (request : Request) : after.clearedBy? request = h.clearedBy? request := by
  cases request with
  | clearEngines id? =>
      have alive := congrArg (Option.map Manager.cache) (alive?_of_setup same id?)
      rw [Option.map_map, Option.map_map] at alive
      exact alive
  | _ => rfl

theorem cleared_of_setup
    (same : ∀ index : Nat,
      after.managers[index]?.map Manager.setup = h.managers[index]?.map Manager.setup)
    (requests : List Request) : after.cleared requests = h.cleared requests := by
  rw [cleared, cleared, funext (clearedBy?_of_setup same)]

namespace Serves

theorem elsewhere (h : Host) (engines : Array Engine) (contexts : Array Context) :
    Serves [] h { h with engines, contexts } :=
  ⟨fun _ => rfl, rfl, fun _ => rfl, fun _ _ => rfl, rfl, fun _ _ => rfl, fun _ => Iff.rfl,
    Nat.le_refl _, rfl, rfl⟩

theorem refl (h : Host) : Serves [] h h := elsewhere h h.engines h.contexts

theorem trans (one : Serves first h middle) (two : Serves second middle after) :
    Serves (first ++ second) h after where
  managers index := (two.managers index).trans (one.managers index)
  caches := two.caches.trans one.caches
  entries id := by
    have same := cleared_of_setup one.managers second
    rw [two.entries, one.entries, same, cleared_append]
    by_cases later : id ∈ h.cleared second <;> by_cases earlier : id ∈ h.cleared first <;>
      simp [later, earlier]
  kept id spared := by
    rw [cleared_append, List.mem_append, not_or] at spared
    have same := cleared_of_setup one.managers second
    rw [two.kept id (same ▸ spared.2), one.kept id spared.1]
  resultCount := two.resultCount.trans one.resultCount
  results id silent := by
    rw [two.results id fun request member => silent request (List.mem_append_right _ member),
      one.results id fun request member => silent request (List.mem_append_left _ member)]
  broken id := (two.broken id).trans (one.broken id)
  writerCount := Nat.le_trans one.writerCount two.writerCount
  files := two.files.trans one.files
  stepLimit := two.stepLimit.trans one.stepLimit

/-- Where nothing is asked for in between, one change after another asks for what both do. -/
theorem quiet (one : Serves requests h middle) (two : Serves [] middle after) :
    Serves requests h after :=
  List.append_nil requests ▸ one.trans two

theorem modifyEngine (h : Host) (engine : EngineId) (f : Engine → Engine) :
    Serves [] h (h.modifyEngine engine f) :=
  elsewhere h _ h.contexts

theorem modifyHeap (h : Host) (engine : EngineId) (f : Heap → Heap) :
    Serves [] h (h.modifyHeap engine f) :=
  modifyEngine ..

theorem addContext (h : Host) (context : Context) : Serves [] h (h.addContext context).2 :=
  elsewhere h h.engines _

end Serves

theorem writer_push (h : Host) (id : WriterId) :
    ({ h with writers := h.writers.push .standard }.writer id = .broken) ↔
      h.writer id = .broken := by
  simp only [writer, Array.getElem?_push]
  split
  · next new => simp [new]
  · rfl

theorem writer_write (h : Host) (stream : Stream) (text : String) (id : WriterId) :
    (h.write stream text).2.writer id = .broken ↔ h.writer id = .broken := by
  unfold write
  split
  · exact Iff.rfl
  · exact Iff.rfl
  · simp only [writer, modifyWriter, Array.getElem?_modify]
    split
    · cases h.writers[id.index]? with
      | none => exact Iff.rfl
      | some w => cases w <;> simp
    · exact Iff.rfl
  · exact Iff.rfl

theorem serves_write (h : Host) (stream : Stream) (text : String) (request : Request)
    (silent : h.clearedBy? request = none) : Serves [request] h (h.write stream text).2 := by
  refine ⟨?_, ?_, ?_, ?_, ?_, ?_, writer_write h stream text, ?_, ?_, ?_⟩
  all_goals
    unfold write
    split <;> simp [cleared, silent, modifyWriter, Host.cache, resultsOf]

theorem serves_modifyResults (h : Host) (id : ResultsId) (request : Request)
    (reports : request.Reports id) (silent : h.clearedBy? request = none)
    (f : List (String × Json) → List (String × Json)) :
    Serves [request] h (h.modifyResults id f) where
  managers _ := rfl
  caches := rfl
  entries other := by simp [cleared, silent, Host.cache, modifyResults]
  kept _ _ := rfl
  resultCount := by simp [modifyResults]
  results other quiet := by
    have different : id.index ≠ other.index := by
      intro same
      cases id
      cases other
      cases same
      exact quiet request (List.mem_singleton.mpr rfl) reports
    simp [resultsOf, modifyResults, Array.getElem?_modify, different]
  broken _ := Iff.rfl
  writerCount := Nat.le_refl _
  files := rfl
  stepLimit := rfl

theorem cache_alterCache {α : Type} (h : Host) (id other : CacheId)
    (f : EngineCache → α × EngineCache) :
    (h.alterCache id f).2.cache other =
      if other = id ∧ id.index < h.caches.size then (f (h.cache id)).2 else h.cache other := by
  cases id with
  | mk index =>
      cases other with
      | mk position =>
          simp only [alterCache, Host.cache, Array.getElem?_setIfInBounds, CacheId.mk.injEq]
          by_cases same : index = position
          · subst same
            by_cases present : index < h.caches.size <;> simp [present]
          · rw [if_neg same, if_neg fun equal => same equal.1.symm]

theorem entries_reset (h : Host) (id other : CacheId) :
    ((h.alterCache id EngineCache.reset).2.cache other).entries =
      if other = id then [] else (h.cache other).entries := by
  rw [cache_alterCache]
  by_cases here : other = id
  · subst here
    by_cases present : other.index < h.caches.size
    · rw [if_pos ⟨rfl, present⟩, if_pos rfl]
      rfl
    · rw [if_neg fun both => present both.2, if_pos rfl, Host.cache,
        Array.getElem?_eq_none (Nat.not_lt.mp present)]
      rfl
  · rw [if_neg fun both => here both.1, if_neg here]

theorem serves_clearEngines (h : Host) (engine : EngineId) (id? : Option ManagerId) :
    Serves [.clearEngines id?] h (h.reply engine (.clearEngines id?)).2 := by
  cases found : h.alive? id? with
  | none =>
      have same : (h.reply engine (.clearEngines id?)).2 = h := by simp [reply, found]
      rw [same]
      refine ⟨fun _ => rfl, rfl, fun id => ?_, fun _ _ => rfl, rfl, fun _ _ => rfl,
        fun _ => Iff.rfl, Nat.le_refl _, rfl, rfl⟩
      simp [cleared, clearedBy?, found]
  | some m =>
      have after : (h.reply engine (.clearEngines id?)).2 =
          (h.alterCache m.cache EngineCache.reset).2 := by
        simp [reply, found]
      rw [after]
      refine ⟨fun _ => rfl, by simp [alterCache], fun id => ?_, fun id spared => ?_, rfl,
        fun _ _ => rfl, fun _ => Iff.rfl, Nat.le_refl _, rfl, rfl⟩
      · rw [entries_reset]
        simp [cleared, clearedBy?, found]
      · have other : id ≠ m.cache := by simpa [cleared, clearedBy?, found] using spared
        rw [cache_alterCache, if_neg fun both => other both.1]

theorem serves_reply (h : Host) (engine : EngineId) (request : Request) :
    Serves [request] h (h.reply engine request).2 := by
  have asks : ∀ request, h.clearedBy? request = none → Serves [request] h h := by
    intro request silent
    refine ⟨fun _ => rfl, rfl, fun _ => ?_, fun _ _ => rfl, rfl, fun _ _ => rfl,
      fun _ => Iff.rfl, Nat.le_refl _, rfl, rfl⟩
    simp [cleared, silent]
  cases request with
  | write bytes => exact serves_write h _ _ _ rfl
  | setResult id key value => exact serves_modifyResults h id (.setResult id key value) rfl rfl _
  | removeResult id key => exact serves_modifyResults h id (.removeResult id key) rfl rfl _
  | clearEngines id? => exact serves_clearEngines h engine id?
  | _ => exact asks _ rfl

/-! ## What a host does on an engine -/

theorem Uses.serves {engine : EngineId} {start : Host} {log : List Request}
    (uses : Uses engine start log h) : Serves log start h := by
  induction uses with
  | start => exact .refl start
  | answer request _ ih => exact ih.trans (serves_reply _ engine request)
  | alter store _ ih => exact ih.quiet (.modifyEngine _ engine _)
  | addContext context _ ih => exact ih.quiet (.addContext _ context)

theorem serves_advance (h : Host) (mayPause : Bool) (engine : EngineId) (stack : Stack)
    (action : Action) :
    Serves (h.advanceRequests mayPause engine stack action) h
      (h.advance mayPause engine stack action).2 :=
  (h.uses_advance engine mayPause stack action).serves

section

variable (h : Host) (engine : EngineId)

theorem serves_load (name text : List UInt8) : Serves [] h (h.load engine name text).2 :=
  (h.uses_load engine name text).serves

theorem serves_exec (name text : List UInt8) :
    Serves (h.execRequests engine name text) h (h.exec engine name text).2 :=
  (h.uses_exec engine name text).serves

theorem serves_execFile (path : Path) :
    Serves (h.execFileRequests engine path) h (h.execFile engine path).2 :=
  (h.uses_execFile engine path).serves

theorem serves_inject (context : Context) (cached : Bool) (manager? : Option ManagerId) :
    Serves (h.injectRequests engine) h (h.inject engine context cached manager?).2 :=
  (h.uses_inject engine context cached manager?).serves

theorem serves_clear (guard : BindingGuard) : Serves [] h (h.clear engine guard).2 :=
  (h.uses_clear engine guard).serves

theorem serves_setSearchPaths (paths : List Path) :
    Serves (h.searchPathRequests engine paths) h (h.setSearchPaths engine paths).2 := by
  obtain ⟨middle, uses, ⟨e, sets⟩ | sets⟩ := h.uses_setSearchPaths engine paths
  · rw [sets]
    exact uses.serves
  · rw [sets]
    exact uses.serves.quiet (.modifyEngine middle engine _)

theorem serves_attach (sink : Stream) : Serves [] h (h.attach engine sink).2 :=
  Serves.modifyEngine ..

theorem serves_detach (guard : StreamGuard) : Serves [] h (h.detach engine guard).2 := by
  by_cases own : guard.engine = engine
  · rw [detach_self guard own]
    exact Serves.modifyEngine ..
  · rw [detach_of_ne own]
    exact Serves.refl h

end

/-! ## Making and selecting engines -/

theorem serves_newEngine (h : Host) (options : EngineOptions) :
    Serves [] h (h.newEngine options).2 := by
  have streamed : ∀ engines : Array Engine, Serves [] h
      { h with engines, writers := h.writers.push .standard } := fun engines =>
    ⟨fun _ => rfl, rfl, fun _ => rfl, fun _ _ => rfl, rfl, fun _ _ => rfl, writer_push h,
      by simp, rfl, rfl⟩
  unfold newEngine
  dsimp only
  split
  · exact streamed _
  · exact streamed h.engines

theorem serves_createEngine (h : Host) (factory : Factory) (options : EngineOptions) :
    Serves (h.creationRequests factory options) h (h.createEngine factory options).2 := by
  have fresh := serves_newEngine h (factory.effective options)
  unfold createEngine creationRequests
  cases made : h.newEngine (factory.effective options) with
  | mk result middle =>
      rw [made] at fresh
      cases result with
      | error e => exact fresh
      | ok engine =>
          have prepared := fresh.trans
            (middle.uses_prepare engine factory.initializers 0).serves
          dsimp only at prepared ⊢
          split
          · rename_i failed
            rwa [failed] at prepared
          · rename_i succeeded
            rwa [succeeded] at prepared

theorem serves_requestEngine (h : Host) (id : ManagerId) (options : EngineOptions) :
    Serves (h.engineRequests id options) h (h.requestEngine id options).2 := by
  have counted : Serves [] h
      (h.modifyManager id fun m => { m with requested := m.requested ++ [options] }) := by
    refine ⟨fun index => ?_, rfl, fun _ => rfl, fun _ _ => rfl, rfl, fun _ _ => rfl,
      fun _ => Iff.rfl, Nat.le_refl _, rfl, rfl⟩
    simp only [modifyManager, Array.getElem?_modify]
    split
    · cases h.managers[index]? <;> rfl
    · rfl
  unfold requestEngine engineRequests
  dsimp only
  split
  · exact counted
  · exact counted.trans (serves_createEngine ..)

end Host

end ScriptHost
