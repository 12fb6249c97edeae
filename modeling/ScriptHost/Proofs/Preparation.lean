import ScriptHost.Proofs.AcquisitionAgreement
import ScriptHost.Proofs.FailedConstruction
import ScriptHost.Proofs.InvocationHistory

/-!
# Preparing engines

A factory hands every new engine to its initializers, one after the other, until one of them fails.
What an initializer does is left open here; the scripts of a factory are one kind. Whatever they
do, a manager touches its cache only after the last of them.
-/

set_option autoImplicit false

namespace ScriptHost

/-- Engines keep their options, and managers their caches. -/
structure Host.Retains (h after : Host) : Prop where
  engines : ∀ (index : Nat) engine, h.engines[index]? = some engine →
    ∃ later, after.engines[index]? = some later ∧ later.options = engine.options
  managers : ∀ (index : Nat) manager, h.managers[index]? = some manager →
    ∃ later, after.managers[index]? = some later ∧ later.cache = manager.cache

/-- What prepares a new engine. It may change whatever it can reach, and it may fail; whether it
does can depend on what others have done before. -/
structure Initializer where
  run : EngineId → Host → Except EngineError Unit × Host
  retains : ∀ engine (h : Host), h.Retains (run engine h).2

/-- Whatever an initializer does, the entries of a cache stay. -/
def Initializer.Spares (initializer : Initializer) (cache : CacheId) : Prop :=
  ∀ engine (h : Host), ((initializer.run engine h).2.cache cache).entries = (h.cache cache).entries

namespace Host

variable {h middle after : Host}

namespace Retains

theorem refl (h : Host) : h.Retains h :=
  ⟨fun _ engine found => ⟨engine, found, rfl⟩, fun _ manager found => ⟨manager, found, rfl⟩⟩

theorem trans (first : h.Retains middle) (second : middle.Retains after) : h.Retains after := by
  constructor
  · intro index engine found
    obtain ⟨between, there, same⟩ := first.engines index engine found
    obtain ⟨last, now, still⟩ := second.engines index between there
    exact ⟨last, now, still.trans same⟩
  · intro index manager found
    obtain ⟨between, there, same⟩ := first.managers index manager found
    obtain ⟨last, now, still⟩ := second.managers index between there
    exact ⟨last, now, still.trans same⟩

theorem options (retains : h.Retains after) {engine : EngineId}
    (present : engine.index < h.engines.size) :
    (after.engine engine).options = (h.engine engine).options := by
  obtain ⟨later, now, same⟩ := retains.engines _ _ (Array.getElem?_eq_getElem present)
  rw [Host.engine, Host.engine, now, Array.getElem?_eq_getElem present]
  exact same

theorem cache (retains : h.Retains after) {id : ManagerId} (present : id.index < h.managers.size) :
    (after.manager id).cache = (h.manager id).cache := by
  obtain ⟨later, now, same⟩ := retains.managers _ _ (Array.getElem?_eq_getElem present)
  rw [Host.manager, Host.manager, now, Array.getElem?_eq_getElem present]
  exact same

theorem ofRuns {engine : EngineId} (runs : RunsOn engine h after) {requests : List Lua.Request}
    (serves : Serves requests h after) : h.Retains after := by
  constructor
  · intro index found there
    have present : index < h.engines.size := (Array.getElem?_eq_some_iff.mp there).1
    have still : index < after.engines.size := runs.size.symm ▸ present
    refine ⟨_, Array.getElem?_eq_getElem still, ?_⟩
    have now : after.engine ⟨index⟩ = after.engines[index] := by
      rw [Host.engine, Array.getElem?_eq_getElem still, Option.getD_some]
    have before : h.engine ⟨index⟩ = found := by rw [Host.engine, there, Option.getD_some]
    rw [← now, ← before]
    by_cases same : (⟨index⟩ : EngineId) = engine
    · rw [same, runs.options]
    · rw [runs.others _ same]
  · intro index manager found
    have setup := serves.managers index
    rw [found] at setup
    obtain ⟨later, now, same⟩ := Option.map_eq_some_iff.mp setup
    exact ⟨later, now, cache_of_setup same⟩

end Retains

/-! ## Initializers in order -/

/-- What a host has become after initializers, if none of them has been skipped. -/
def preparedBy (h : Host) (engine : EngineId) (initializers : List Initializer) : Host :=
  initializers.foldl (fun h initializer => (initializer.run engine h).2) h

/-- Each initializer succeeds on what the ones before it have left. -/
def Succeeds (h : Host) (engine : EngineId) (initializers : List Initializer) : Prop :=
  ∀ front initializer back, initializers = front ++ initializer :: back →
    (initializer.run engine (h.preparedBy engine front)).1 = .ok ()

/-- Runs initializers until one fails. They are numbered from `index`. -/
def prepareBy (h : Host) (engine : EngineId) (index : Nat) :
    List Initializer → Except EngineError Unit × Host
  | [] => (.ok (), h)
  | initializer :: rest =>
    match initializer.run engine h with
    | (.ok _, h) => h.prepareBy engine (index + 1) rest
    | (.error e, h) => (.error (.construction s!"initializer #{index} failed: {e.message}"), h)

variable {engine : EngineId} {initializers front back : List Initializer} {initializer : Initializer}

theorem retains_preparedBy (h : Host) (engine : EngineId) (initializers : List Initializer) :
    h.Retains (h.preparedBy engine initializers) := by
  induction initializers generalizing h with
  | nil => exact .refl h
  | cons initializer rest ih => exact (initializer.retains engine h).trans (ih _)

theorem entries_preparedBy {cache : CacheId} (spared : ∀ i ∈ initializers, i.Spares cache) :
    ((h.preparedBy engine initializers).cache cache).entries = (h.cache cache).entries := by
  induction initializers generalizing h with
  | nil => rfl
  | cons initializer rest ih =>
      have first := spared initializer List.mem_cons_self engine h
      exact (ih fun i member => spared i (List.mem_cons_of_mem _ member)).trans first

theorem succeeds_cons (first : (initializer.run engine h).1 = .ok ())
    (rest : (initializer.run engine h).2.Succeeds engine back) :
    h.Succeeds engine (initializer :: back) := by
  intro before i later split
  cases before with
  | nil =>
      cases split
      exact first
  | cons head before =>
      cases split
      exact rest before i later rfl

theorem Succeeds.head (succeeds : h.Succeeds engine (initializer :: back)) :
    (initializer.run engine h).1 = .ok () :=
  succeeds [] initializer back rfl

theorem Succeeds.tail (succeeds : h.Succeeds engine (initializer :: back)) :
    (initializer.run engine h).2.Succeeds engine back := by
  intro before i later split
  exact succeeds (initializer :: before) i later (congrArg _ split)

/-- Either all succeed, or there is a first one that fails. -/
theorem succeeds_or_fails (h : Host) (engine : EngineId) (initializers : List Initializer) :
    h.Succeeds engine initializers ∨
      ∃ front initializer back e, initializers = front ++ initializer :: back ∧
        h.Succeeds engine front ∧
        (initializer.run engine (h.preparedBy engine front)).1 = .error e := by
  induction initializers generalizing h with
  | nil =>
      refine .inl fun front initializer back split => ?_
      cases front <;> cases split
  | cons initializer rest ih =>
      cases first : (initializer.run engine h).1 with
      | error e =>
          refine .inr ⟨[], initializer, rest, e, rfl, fun front i back split => ?_, first⟩
          cases front <;> cases split
      | ok _ =>
          rcases ih (initializer.run engine h).2 with all | ⟨front, failing, back, e, split, before, fails⟩
          · exact .inl (succeeds_cons first all)
          · exact .inr ⟨initializer :: front, failing, back, e, congrArg _ split,
              succeeds_cons first before, fails⟩

theorem prepareBy_of_succeeds (succeeds : h.Succeeds engine initializers) (index : Nat) :
    h.prepareBy engine index initializers = (.ok (), h.preparedBy engine initializers) := by
  induction initializers generalizing h index with
  | nil => rfl
  | cons initializer rest ih =>
      have first := succeeds.head
      have later := ih succeeds.tail (index + 1)
      rw [prepareBy]
      cases ran : initializer.run engine h with
      | mk result next =>
          rw [ran] at first later
          cases first
          exact later.trans (by rw [preparedBy, preparedBy, List.foldl_cons, ran])

theorem prepareBy_of_error (succeeds : h.Succeeds engine front) {e : EngineError}
    (fails : (initializer.run engine (h.preparedBy engine front)).1 = .error e)
    (back : List Initializer) (index : Nat) :
    h.prepareBy engine index (front ++ initializer :: back) =
      (.error (.construction s!"initializer #{index + front.length} failed: {e.message}"),
        h.preparedBy engine (front ++ [initializer])) := by
  induction front generalizing h index with
  | nil =>
      rw [List.nil_append, prepareBy]
      cases ran : initializer.run engine h with
      | mk result next =>
          have failed : result = .error e := (congrArg Prod.fst ran).symm.trans fails
          subst failed
          rw [List.nil_append, preparedBy, List.foldl_cons, ran]
          rfl
  | cons head front ih =>
      have first := succeeds.head
      have later := ih succeeds.tail fails (index + 1)
      rw [List.cons_append, prepareBy]
      cases ran : head.run engine h with
      | mk result next =>
          rw [ran] at first later
          cases first
          refine later.trans ?_
          rw [List.cons_append, preparedBy, preparedBy, List.foldl_cons, ran, List.length_cons,
            Nat.add_right_comm, Nat.add_assoc]

/-! ## The scripts of a factory -/

/-- A script as an initializer; its chunk is named for its number. -/
def initializerOf (index : Nat) (script : String) : Initializer where
  run engine h :=
    let (result, h) := h.exec engine (Utf8.bytes s!"init{index}") (Utf8.bytes script)
    (result.map fun _ => (), h)
  retains engine h := .ofRuns (runsOn_exec h engine _ _) (serves_exec h engine _ _)

def initializersOf (index : Nat) : List String → List Initializer
  | [] => []
  | script :: scripts => initializerOf index script :: initializersOf (index + 1) scripts

theorem prepare_eq (h : Host) (engine : EngineId) (index : Nat) (scripts : List String) :
    h.prepare engine index scripts = h.prepareBy engine index (initializersOf index scripts) := by
  induction scripts generalizing h index with
  | nil => rfl
  | cons script scripts ih =>
      rw [prepare, initializersOf, prepareBy]
      simp only [initializerOf]
      cases h.exec engine (Utf8.bytes s!"init{index}") (Utf8.bytes script) with
      | mk result next =>
          cases result with
          | ok _ => exact ih next (index + 1)
          | error e => rfl

/-! ## Making engines -/

/-- Makes an engine as a factory does, with any initializers in the place of its scripts. -/
def createBy (h : Host) (factory : Factory) (options : EngineOptions)
    (initializers : List Initializer) : Except EngineError EngineId × Host :=
  match h.newEngine (factory.effective options) with
  | (.error e, h) => (.error e, h)
  | (.ok engine, h) =>
    match h.prepareBy engine 0 initializers with
    | (.error e, h) => (.error e, h)
    | (.ok _, h) => (.ok engine, h)

theorem createEngine_eq (h : Host) (factory : Factory) (options : EngineOptions) :
    h.createEngine factory options =
      h.createBy factory options (initializersOf 0 factory.initializers) := by
  unfold createEngine createBy
  cases h.newEngine (factory.effective options) with
  | mk result start =>
      cases result with
      | error e => rfl
      | ok engine =>
          dsimp only
          exact prepare_eq start engine 0 factory.initializers ▸ rfl

/-- What comes of an engine that a factory makes. -/
structure Creates (h : Host) (factory : Factory) (options : EngineOptions)
    (initializers : List Initializer) (result : Except EngineError EngineId × Host) : Prop where
  /-- Without a new engine there is nothing to prepare. -/
  refused : ∀ e start, h.newEngine (factory.effective options) = (.error e, start) →
    result = (.error e, start)
  completed : ∀ engine start, h.newEngine (factory.effective options) = (.ok engine, start) →
    start.Succeeds engine initializers →
      result = (.ok engine, start.preparedBy engine initializers)
  /-- The first initializer that fails is the last one that runs. -/
  stopped : ∀ engine start front initializer back e,
    h.newEngine (factory.effective options) = (.ok engine, start) →
    initializers = front ++ initializer :: back → start.Succeeds engine front →
    (initializer.run engine (start.preparedBy engine front)).1 = .error e →
      result = (.error (.construction s!"initializer #{front.length} failed: {e.message}"),
        start.preparedBy engine (front ++ [initializer]))
  /-- The heap is limited before the first initializer runs. -/
  limited : ∀ engine start, h.newEngine (factory.effective options) = (.ok engine, start) →
    (start.heap engine).limit? = (factory.effective options).heapLimit?
  /-- The engine is a new one, and it has the options that it was made with. -/
  new : ∀ engine, result.1 = .ok engine → engine.index = h.engines.size ∧
    (result.2.engine engine).options = factory.effective options

theorem limit?_install (id : EngineId) (options : EngineOptions) (heap : Lua.Heap) :
    (Engine.install id options heap).limit? = heap.limit? := by
  unfold Engine.install
  dsimp only
  split <;> rfl

theorem engine_newEngine {options : EngineOptions} {start : Host}
    (made : h.newEngine options = (.ok engine, start)) :
    engine.index = h.engines.size ∧ engine.index < start.engines.size ∧
      (start.engine engine).options = options ∧
      (start.heap engine).limit? = options.heapLimit? := by
  obtain ⟨rfl, size, fresh⟩ := fresh?_of_newEngine made
  refine ⟨rfl, by simp [size], ?_, ?_⟩
  · rw [eq_of_fresh? fresh]
  · rw [Host.heap, eq_of_fresh? fresh]
    dsimp only
    rw [limit?_install, Lua.Library.freshHeap]

theorem creates_createBy (h : Host) (factory : Factory) (options : EngineOptions)
    (initializers : List Initializer) :
    h.Creates factory options initializers (h.createBy factory options initializers) := by
  constructor
  case refused =>
    intro e start made
    rw [createBy, made]
  case completed =>
    intro engine start made succeeds
    rw [createBy, made]
    dsimp only
    rw [prepareBy_of_succeeds succeeds]
  case stopped =>
    intro engine start front initializer back e made split succeeds fails
    rw [createBy, made, split]
    dsimp only
    rw [prepareBy_of_error succeeds fails, Nat.zero_add]
  case limited =>
    intro engine start made
    exact (engine_newEngine made).2.2.2
  case new =>
    intro engine created
    rw [createBy] at created ⊢
    cases made : h.newEngine (factory.effective options) with
    | mk result start =>
        rw [made] at created
        cases result with
        | error e => cases created
        | ok new =>
            obtain ⟨index, present, fixed, _⟩ := engine_newEngine made
            rcases succeeds_or_fails start new initializers with
              succeeds | ⟨front, failing, back, e, rfl, before, fails⟩
            · dsimp only at created ⊢
              rw [prepareBy_of_succeeds succeeds] at created ⊢
              cases created
              have kept := (retains_preparedBy start engine initializers).options present
              exact ⟨index, kept.trans fixed⟩
            · dsimp only at created
              rw [prepareBy_of_error before fails] at created
              cases created

/-- A host that was asked for an engine has been through the initializers that ran. -/
theorem exists_host_createBy (h : Host) (factory : Factory) (options : EngineOptions)
    (initializers : List Initializer) : ∃ engine ran, ran <+: initializers ∧
      (h.createBy factory options initializers).2 =
        (h.newEngine (factory.effective options)).2.preparedBy engine ran := by
  have creates := creates_createBy h factory options initializers
  cases made : h.newEngine (factory.effective options) with
  | mk result start =>
      cases result with
      | error e => exact ⟨⟨0⟩, [], List.nil_prefix, congrArg Prod.snd (creates.refused e start made)⟩
      | ok engine =>
          rcases succeeds_or_fails start engine initializers with
            succeeds | ⟨front, failing, back, e, rfl, before, fails⟩
          · exact ⟨engine, initializers, List.prefix_rfl,
              congrArg Prod.snd (creates.completed engine start made succeeds)⟩
          · refine ⟨engine, front ++ [failing], ?_, congrArg Prod.snd
              (creates.stopped engine start front failing back e made rfl before fails)⟩
            exact ⟨back, by rw [List.append_assoc, List.singleton_append]⟩

/-- Making an engine changes an entry of a cache only if an initializer does. -/
theorem entries_createBy {cache : CacheId} (factory : Factory) (options : EngineOptions)
    (spared : ∀ i ∈ initializers, i.Spares cache) :
    ((h.createBy factory options initializers).2.cache cache).entries = (h.cache cache).entries := by
  obtain ⟨engine, ran, early, same⟩ := exists_host_createBy h factory options initializers
  have fresh := (serves_newEngine h (factory.effective options)).kept cache (by simp [cleared])
  rw [same, entries_preparedBy fun i member => spared i (early.subset member), fresh]

theorem retains_newEngine (h : Host) (options : EngineOptions) :
    h.Retains (h.newEngine options).2 := by
  constructor
  · intro index engine found
    have below : index < h.engines.size := (Array.getElem?_eq_some_iff.mp found).1
    refine ⟨engine, ?_, rfl⟩
    unfold newEngine
    dsimp only
    split
    · rw [Array.getElem?_push]
      exact (if_neg (Nat.ne_of_lt below)).trans found
    · exact found
  · intro index manager found
    refine ⟨manager, ?_, rfl⟩
    unfold newEngine
    dsimp only
    split <;> exact found

theorem retains_createBy (h : Host) (factory : Factory) (options : EngineOptions)
    (initializers : List Initializer) :
    h.Retains (h.createBy factory options initializers).2 := by
  obtain ⟨engine, ran, _, same⟩ := exists_host_createBy h factory options initializers
  rw [same]
  exact (retains_newEngine ..).trans (retains_preparedBy ..)

/-! ## Managers -/

/-- Asks the factory of a manager for an engine, with any initializers in the place of scripts. -/
def requestBy (h : Host) (id : ManagerId) (options : EngineOptions)
    (initializers : List Initializer) : Except EngineError EngineId × Host :=
  let h := h.modifyManager id fun m => { m with requested := m.requested ++ [options] }
  let manager := h.manager id
  let request := manager.requested.length
  if manager.factory.outage.covers request then
    (.error (.construction s!"runtime unavailable ({request})"), h)
  else h.createBy manager.factory options initializers

/-- Selects an engine; `made` is what comes of a new one, if one is wanted. -/
def selectWith (h : Host) (id : ManagerId) (policy : Policy) (key : CacheKey)
    (made : Except EngineError EngineId × Host) : Except EngineError (EngineId × Bool) × Host :=
  let cacheId := (h.manager id).cache
  match policy with
  | .reuse =>
    match (h.cache cacheId).get? key with
    | some engine => (.ok (engine, true), h)
    | none =>
      let (made, h) := made
      let (made, h) := h.alterCache cacheId fun cache => cache.fill key made
      (made.map (·, false), h)
  | .refresh =>
    match made with
    | (.error e, h) => (.error e, h)
    | (.ok engine, h) =>
      let (_, h) := h.alterCache cacheId fun cache => cache.put key engine
      (.ok (engine, false), h)
  | .clean | .fullIsolation =>
    let (made, h) := made
    (made.map (·, false), h)

theorem requestEngine_eq (h : Host) (id : ManagerId) (options : EngineOptions) :
    h.requestEngine id options =
      h.requestBy id options (initializersOf 0 (h.manager id).factory.initializers) := by
  unfold requestEngine requestBy
  dsimp only
  rw [createEngine_eq, factory_modifyManager h id
    (f := fun m => { m with requested := m.requested ++ [options] }) fun _ => rfl]

theorem selectEngine_eq (h : Host) (id : ManagerId) (policy : Policy) (key : CacheKey) :
    h.selectEngine id policy key =
      h.selectWith id policy key (h.requestEngine id (.ofPolicy policy)) := by
  cases policy with
  | reuse => rfl
  | refresh => rfl
  | clean => rfl
  | fullIsolation => rfl

/-- A selection that fails is a construction that failed, and the cache is as that left it. -/
theorem selectWith_of_error {id : ManagerId} {policy : Policy} {key : CacheKey}
    {made : Except EngineError EngineId × Host} {e : EngineError}
    (failed : (h.selectWith id policy key made).1 = .error e) :
    made.1 = .error e ∧ (h.selectWith id policy key made).2.managers = made.2.managers ∧
      ∀ cache, ((h.selectWith id policy key made).2.cache cache).entries =
        (made.2.cache cache).entries := by
  obtain ⟨result, next⟩ := made
  cases policy with
  | reuse =>
      simp only [selectWith] at failed ⊢
      cases found : (h.cache (h.manager id).cache).get? key with
      | some engine =>
          rw [found] at failed
          cases failed
      | none =>
          rw [found] at failed
          cases result with
          | ok engine => cases failed
          | error fault =>
              cases failed
              refine ⟨rfl, rfl, fun cache => ?_⟩
              dsimp only
              rw [cache_alterCache]
              split
              · next own => rw [own.1]; rfl
              · rfl
  | refresh =>
      cases result with
      | ok engine => cases failed
      | error fault =>
          cases failed
          exact ⟨rfl, rfl, fun _ => rfl⟩
  | clean | fullIsolation =>
      cases result with
      | ok engine => cases failed
      | error fault =>
          cases failed
          exact ⟨rfl, rfl, fun _ => rfl⟩

theorem selectWith_of_found {id : ManagerId} {key : CacheKey} {engine : EngineId}
    (found : (h.cacheOf id).get? key = some engine) (made : Except EngineError EngineId × Host) :
    h.selectWith id .reuse key made = (.ok (engine, true), h) := by
  rw [selectWith]
  rw [cacheOf] at found
  simp only [found]

theorem entries_requestBy {cache : CacheId} (id : ManagerId) (options : EngineOptions)
    (spared : ∀ i ∈ initializers, i.Spares cache) :
    ((h.requestBy id options initializers).2.cache cache).entries = (h.cache cache).entries := by
  unfold requestBy
  dsimp only
  split
  · rfl
  · exact entries_createBy _ options spared

theorem retains_requestBy (h : Host) (id : ManagerId) (options : EngineOptions)
    (initializers : List Initializer) : h.Retains (h.requestBy id options initializers).2 := by
  have counted : h.Retains
      (h.modifyManager id fun m => { m with requested := m.requested ++ [options] }) := by
    refine ⟨fun _ engine found => ⟨engine, found, rfl⟩, fun index manager found => ?_⟩
    simp only [modifyManager, Array.getElem?_modify, found]
    split
    · exact ⟨_, rfl, rfl⟩
    · exact ⟨_, rfl, rfl⟩
  unfold requestBy
  dsimp only
  split
  · exact counted
  · exact counted.trans (retains_createBy ..)

/-- A manager for which no engine could be made: the entries of caches are as before, and what the
cache had for a key is still served from it. -/
structure KeepsCached (h : Host) (id : ManagerId) (spared : CacheId → Prop) (after : Host) :
    Prop where
  entries : ∀ cache, spared cache → ∀ key, (after.cache cache).get? key = (h.cache cache).get? key
  served : spared (h.manager id).cache → ∀ key engine, (h.cacheOf id).get? key = some engine →
    ∀ made, after.selectWith id .reuse key made = (.ok (engine, true), after)

theorem KeepsCached.ofEntries {id : ManagerId} {spared : CacheId → Prop}
    (cache : (after.manager id).cache = (h.manager id).cache)
    (entries : ∀ c, spared c → (after.cache c).entries = (h.cache c).entries) :
    h.KeepsCached id spared after where
  entries c kept key := EngineCache.get?_of_entries (entries c kept) key
  served kept key engine found made := by
    refine selectWith_of_found ?_ made
    rw [cacheOf, cache, EngineCache.get?_of_entries (entries _ kept) key]
    exact found

theorem keepsCached_requestBy {id : ManagerId} {policy : Policy} {key : CacheKey}
    {options : EngineOptions} {e : EngineError} (present : id.index < h.managers.size)
    (failed : (h.selectWith id policy key (h.requestBy id options initializers)).1 = .error e) :
    h.KeepsCached id (fun cache => ∀ i ∈ initializers, i.Spares cache)
      (h.selectWith id policy key (h.requestBy id options initializers)).2 := by
  obtain ⟨_, managers, entries⟩ := selectWith_of_error failed
  refine .ofEntries ?_ fun cache spared => ?_
  · rw [← (retains_requestBy h id options initializers).cache present, Host.manager, managers,
      Host.manager]
  · rw [entries cache, entries_requestBy id options spared]

theorem keepsCached_acquire {id : ManagerId} {context : Context} {e : EngineError}
    (failed : (h.selectEngine id context.policy context.cacheKey).1 = .error e) :
    (h.acquire id context).1 = .error e ∧
      h.KeepsCached id (fun _ => True) (h.acquire id context).2 := by
  have acquired : h.acquire id context =
      (.error e, (h.selectEngine id context.policy context.cacheKey).2) :=
    acquire_of_error (Prod.ext failed rfl)
  have serves := serves_requestEngine h id (.ofPolicy context.policy)
  rw [acquired]
  rw [selectEngine_eq] at failed ⊢
  obtain ⟨_, managers, entries⟩ := selectWith_of_error failed
  refine ⟨rfl, .ofEntries ?_ fun cache _ => ?_⟩
  · rw [Host.manager, managers, ← Host.manager]
    exact cache_of_setup (setup_manager serves.managers id)
  · rw [entries cache, serves.kept cache (by rw [cleared_engineRequests]; exact List.not_mem_nil)]

/-- A factory hands a new engine to its initializers in their order, until one of them fails. The
error then names the number of that one, and none after it has run; otherwise the engine is as all of
them have left it. A limit of the factory holds for engines that ask for none, and garbage is
collected on release if either side asks for it or frames are full. A manager for which no engine
could be made has the entries it had: what was cached before a failed refresh is what reuse is served
after it. -/
theorem initializers_run_in_order (h : Host) (factory : Factory) (options : EngineOptions)
    (initializers : List Initializer) (id : ManagerId) (context : Context) :
    (∀ engine (start : Host), start.Succeeds engine initializers ∨
      ∃ front initializer back e, initializers = front ++ initializer :: back ∧
        start.Succeeds engine front ∧
        (initializer.run engine (start.preparedBy engine front)).1 = .error e) ∧
    h.Creates factory options initializers (h.createBy factory options initializers) ∧
    h.createEngine factory options =
      h.createBy factory options (initializersOf 0 factory.initializers) ∧
    (factory.effective options).memoryLimit? = options.memoryLimit?.or factory.memoryLimit? ∧
    ((factory.effective options).collectsOnRelease = true ↔ options.frameMode = .full ∨
      options.collectOnRelease = true ∨ factory.collectOnRelease = true) ∧
    (∀ policy key e, id.index < h.managers.size →
      (h.selectWith id policy key (h.requestBy id (.ofPolicy policy) initializers)).1 = .error e →
        h.KeepsCached id (fun cache => ∀ i ∈ initializers, i.Spares cache)
          (h.selectWith id policy key (h.requestBy id (.ofPolicy policy) initializers)).2) ∧
    (∀ policy key, h.selectEngine id policy key =
      h.selectWith id policy key (h.requestBy id (.ofPolicy policy)
        (initializersOf 0 (h.manager id).factory.initializers))) ∧
    ∀ e, (h.selectEngine id context.policy context.cacheKey).1 = .error e →
      (h.acquire id context).1 = .error e ∧
        h.KeepsCached id (fun _ => True) (h.acquire id context).2 := by
  refine ⟨fun engine start => succeeds_or_fails start engine initializers,
    creates_createBy h factory options initializers, createEngine_eq h factory options, rfl, ?_,
    fun policy key e present => keepsCached_requestBy present, fun policy key => ?_,
    fun e => keepsCached_acquire⟩
  · simp [EngineOptions.collectsOnRelease, Factory.effective]
  · rw [selectEngine_eq, requestEngine_eq]

/-- An initializer that leaves a mark on the engine. -/
def marking : Initializer where
  run engine h := (.ok (), h.setGlobal engine "host" (.boolean true))
  retains engine h := by
    have runs := RunsOn.modifyHeap engine h fun heap =>
      heap.rawSetText heap.globals "host" (.boolean true)
    have serves := Serves.modifyHeap h engine fun heap =>
      heap.rawSetText heap.globals "host" (.boolean true)
    exact .ofRuns runs serves

/-- An initializer that fails on an engine with the mark. -/
def refusingMarked : Initializer where
  run engine h :=
    (if ((h.heap engine).rawGetText (h.heap engine).globals "host").isNil then .ok ()
      else .error (.construction "marked"), h)
  retains _ h := .refl h

/-- A host with one cached engine, and a manager whose factory has a script that fails. -/
def withCached : Host where
  engines := #[default]
  caches := #[⟨some [("tools", ⟨0⟩)]⟩]
  managers := #[{ cache := ⟨0⟩, factory := { initializers := ["host = 1", "error()"] } }]
  files := default

/-- A context that wants a new engine in the place of the cached one. -/
def refreshing : Context := { InvocationHistory.toolContext 0 "tool" with policy := .refresh }

/-- The second of three initializers fails because of the first; the engine that was cached before a
refresh is what reuse is served afterwards. -/
theorem initializers_run_in_order_second_fails :
    let initializers := [marking, refusingMarked, marking]
    let after := (withCached.selectWith ⟨0⟩ .refresh ⟨"tools"⟩
      (withCached.requestBy ⟨0⟩ (.ofPolicy .refresh) initializers)).2
    (withCached.createBy {} {} initializers).1 =
        .error (.construction "initializer #1 failed: engine construction failed: marked") ∧
      after.selectEngine ⟨0⟩ .reuse ⟨"tools"⟩ = (.ok (⟨0⟩, true), after) ∧
      (withCached.acquire ⟨0⟩ refreshing).1.toOption = none ∧
      ((withCached.acquire ⟨0⟩ refreshing).2.selectEngine ⟨0⟩ .reuse ⟨"tools"⟩).1 =
        .ok (⟨0⟩, true) := by
  intro initializers after
  obtain ⟨_, creates, _, _, _, manages, _, acquires⟩ :=
    initializers_run_in_order withCached {} {} initializers ⟨0⟩ refreshing
  have facts : (withCached.newEngine {}).1.toOption = some ⟨1⟩ ∧
      (((marking.run ⟨1⟩ (withCached.newEngine {}).2).2.heap ⟨1⟩).rawGetText
        ((marking.run ⟨1⟩ (withCached.newEngine {}).2).2.heap ⟨1⟩).globals "host").isNil = false ∧
      (withCached.selectWith ⟨0⟩ .refresh ⟨"tools"⟩
        (withCached.requestBy ⟨0⟩ (.ofPolicy .refresh) initializers)).1.toOption = none ∧
      (withCached.selectEngine ⟨0⟩ refreshing.policy refreshing.cacheKey).1.toOption = none := by
    decide +kernel
  obtain ⟨made, marked, refused, failed⟩ := facts
  have spares : ∀ i ∈ initializers, i.Spares ⟨0⟩ := by
    intro i member
    simp only [initializers, List.mem_cons, List.not_mem_nil, or_false] at member
    rcases member with rfl | rfl | rfl <;> exact fun _ _ => rfl
  refine ⟨?_, ?_, ?_⟩
  · cases fresh : withCached.newEngine {} with
    | mk result start =>
        rw [fresh] at made marked
        obtain rfl := eq_ok_of_toOption made
        have first : start.Succeeds ⟨1⟩ [marking] :=
          succeeds_cons rfl fun front i back split => by cases front <;> cases split
        have second : (refusingMarked.run ⟨1⟩ (start.preparedBy ⟨1⟩ [marking])).1 =
            .error (.construction "marked") := if_neg (Bool.eq_false_iff.mp marked)
        have stops := creates.stopped ⟨1⟩ start [marking] refusingMarked [marking] _ fresh rfl first
          second
        exact congrArg Prod.fst stops
  · cases failing : (withCached.selectWith ⟨0⟩ .refresh ⟨"tools"⟩
        (withCached.requestBy ⟨0⟩ (.ofPolicy .refresh) initializers)).1 with
    | ok chosen =>
        rw [failing] at refused
        cases refused
    | error e =>
        rw [selectEngine_eq]
        exact (manages .refresh ⟨"tools"⟩ e (by decide) failing).served spares ⟨"tools"⟩ ⟨0⟩ rfl _
  · cases failing : (withCached.selectEngine ⟨0⟩ refreshing.policy refreshing.cacheKey).1 with
    | ok chosen =>
        rw [failing] at failed
        cases failed
    | error e =>
        obtain ⟨refuses, keeps⟩ := acquires e failing
        have served := keeps.served trivial ⟨"tools"⟩ ⟨0⟩ rfl
        rw [refuses, selectEngine_eq, served]
        exact ⟨rfl, rfl⟩

end Host

end ScriptHost
