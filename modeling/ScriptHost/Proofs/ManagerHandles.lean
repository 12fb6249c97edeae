import ScriptHost.Proofs.CacheHistory
import ScriptHost.Proofs.Copying
import ScriptHost.Proofs.Endings
import ScriptHost.Proofs.InvocationHistory
import ScriptHost.Proofs.ReachableHosts

/-!
# Handles of managers

A script that has the handle of a manager can ask for the keys of its cache and empty the cache, as
long as somebody holds on to the manager. The handle itself does not keep the manager there, and
neither does another manager that shares the cache.
-/

set_option autoImplicit false

namespace ScriptHost

open Lua

theorem Lua.shownBytes_toUTF8 (s : String) : shownBytes s.toUTF8 = s := Utf8.text_bytes s

theorem Lua.Arguments.get_two (function : String) (v : Value) (arguments : List Value) :
    (⟨function, v :: arguments⟩ : Arguments).get 2 = firstOf arguments := by
  cases arguments <;> rfl

theorem Lua.Evaluates.managerOf {setting : Library.Setting} {calls : Nat} {h : Heap}
    {args : Arguments} {method : String} {uid : UserdataId} {id? : Option ManagerId}
    (given : args.get 1 = .userdata uid) (known : h.resource? uid = some (.manager id?)) :
    Evaluates setting calls 1 h (Library.managerOf method args) (.ok id?) h := by
  change Evaluates setting calls (1 + 0) h _ _ _
  exact (self given known).bind (pure id?)

/-- What scripts can call on the handle of a manager. -/
inductive ManagerMethod where
  | cachedKeys
  | isCached
  | clearEngines
deriving DecidableEq, Repr

namespace ManagerMethod

def name : ManagerMethod → String
  | cachedKeys => "cached_keys"
  | isCached => "is_cached"
  | clearEngines => "clear_engines"

def function : ManagerMethod → HostFunction
  | cachedKeys => .managerCachedKeys
  | isCached => .managerIsCached
  | clearEngines => .managerClear

/-- How a method ends that is called with arguments, and what it does, if a manager answers for a
cache. -/
def Answers (before : Host) (cache : CacheId) (arguments : List Value)
    (outcome : Except Thrown (List Value)) (after : Heap) (later : Host) : ManagerMethod → Prop
  | cachedKeys => later = before ∧ ∃ list, outcome = .ok [.table list] ∧
      ((before.cache cache).size + 1 < 2 ^ 63 →
        Conversion.items (after.table list) = (before.cache cache).keys.map Value.ofText)
  | isCached => later = before ∧
      match Conversion.toText (firstOf arguments) with
      | .ok key => outcome = .ok [.boolean (decide (key ∈ (before.cache cache).keys))]
      | .error _ => ∃ failure, Host.Raises after failure outcome
  | clearEngines => outcome = .ok [.integer (Int64.ofNat (before.cache cache).size)] ∧
      later = (before.alterCache cache EngineCache.reset).2

/-- A method raises and changes nothing. Only an argument that is no text is found to be wrong
before the manager is missed. -/
def Refuses (before : Host) (arguments : List Value) (outcome : Except Thrown (List Value))
    (after : Heap) (later : Host) (method : ManagerMethod) : Prop :=
  later = before ∧ ∃ failure, Host.Raises after failure outcome ∧
    (failure = .host "engine manager is no longer alive" ∨
      method = isCached ∧ ∃ e, Conversion.toText (firstOf arguments) = .error e)

end ManagerMethod

namespace Host

variable {engine : EngineId} {calls : Nat} {before later : Host} {heap after : Heap}
  {uid : UserdataId} {id : ManagerId} {id? : Option ManagerId} {m : Manager}
  {method : ManagerMethod} {arguments : List Value} {place : Place} {label? : Option Label}
  {site : Site} {function : String}

/-! ## Calls of methods -/

/-- The call of a method by its name, as in `object:name(arguments)`. -/
def callMethod (place : Place) (label? : Option Label) (site : Site) (object : Value)
    (name : String) (arguments : List Value) : Eval (List Value) := do
  let f ← Operation.index place label? object (.ofText name)
  Eval.call site f (object :: arguments)

/-- How a function of the library may end: in a way of its own, or before it has done anything for
want of memory. -/
def OrFull {α : Type} (before : Host) (heap : Heap)
    (property : Except Thrown α → Heap → Host → Prop) (outcome : Except Thrown α) (after : Heap)
    (later : Host) : Prop :=
  Heap.Extends heap after ∧ (property outcome after later ∨
    outcome = .error .outOfMemory ∧ heap.limit? ≠ none ∧ later = before)

/-- The function of a method is found by its name. -/
theorem ends_index_manager (held : heap.resource? uid = some (.manager id?)) :
    Ends engine (calls + 1) 3 0 before heap
      (Operation.index place label? (.userdata uid) (.ofText method.name))
      (OrFull before heap fun outcome _ later =>
        outcome = .ok (.builtin (.host method.function)) ∧ later = before) := by
  have target : Operation.lookUp heap (.userdata uid) (.ofText method.name) =
      .handler (.builtin (.host .managerIndex)) := by
    simp [Operation.lookUp, Heap.metamethod, held, Resource.metamethod, Value.isNil,
      Operation.Access.ofMetamethod]
  have found (function : String) :
      Library.managerIndex ⟨function, [.userdata uid, .ofText method.name]⟩ =
        Pure.pure [.builtin (.host method.function)] := by
    simp only [Library.managerIndex, Arguments.get, Value.ofText, List.getElem?_cons_succ,
      List.getElem?_cons_zero, Option.getD_some, shownBytes_toUTF8]
    cases method <;> rfl
  have called : Ends engine (calls + 1) (0 + 2) 0 before heap
      (Eval.call (place.site "index") (.builtin (.host .managerIndex))
        [.userdata uid, .ofText method.name])
      (OrFull before heap fun outcome _ later =>
        outcome = .ok [.builtin (.host method.function)] ∧ later = before) := by
    have runs : Library.run setting (.builtin (.host .managerIndex)) (.host .managerIndex) []
        [.userdata uid, .ofText method.name] =
          Eval.run (Pure.pure [.builtin (.host method.function)]) := by
      rw [← found (Library.nameOf (.host .managerIndex))]
      rfl
    refine .call_builtin runs (fun middle opened => ?_) fun after opened limited => ?_
    · exact .pure ⟨opened, .inl ⟨rfl, rfl⟩⟩
    · exact ⟨opened, .inr ⟨rfl, limited, rfl⟩⟩
  change Ends engine (calls + 1) (1 + (0 + 2 + 0)) (0 + 0) before heap (Eval.read _ >>= _) _
  refine .afterwards (.read fun h => Operation.lookUp h (.userdata uid) (.ofText method.name)) ?_
  rw [target]
  refine called.bind ?_ ?_
  · rintro values middle between ⟨opened, ⟨same, rfl⟩ | ⟨failed, _⟩⟩
    · cases same
      exact .pure ⟨opened, .inl ⟨rfl, rfl⟩⟩
    · cases failed
  · rintro thrown middle between ⟨opened, ⟨same, _⟩ | ⟨failed, limited, rfl⟩⟩
    · cases same
    · cases failed
      exact ⟨opened, .inr ⟨rfl, limited, rfl⟩⟩

theorem ends_managerCachedKeys (held : heap.resource? uid = some (.manager id?))
    (alive : before.alive? id? = some m) :
    Ends engine calls 3 1 before heap
      (Library.managerCachedKeys ⟨function, .userdata uid :: arguments⟩)
      fun outcome after later => Heap.Extends heap after ∧
        ManagerMethod.cachedKeys.Answers before m.cache arguments outcome after later := by
  have answers : before.reply engine (.cachedKeys id?) =
      (some (before.cache m.cache).keys, before) := by
    simp only [reply, alive, Option.map_some]
    rfl
  change Ends engine calls (1 + (1 + (0 + (1 + 0)))) (1 + 0) before heap
    (Library.managerOf _ _ >>= _) _
  refine .afterwards (.managerOf rfl held) ?_
  refine .answered answers rfl rfl ?_
  refine .afterwards (.pure (before.cache m.cache).keys) ?_
  refine .afterwards (.alter fun h => h.newList ((before.cache m.cache).keys.map Value.ofText)) ?_
  refine .pure ⟨.newTable heap _, rfl, _, rfl, fun small => ?_⟩
  have length : ((before.cache m.cache).keys.map Value.ofText).length =
      (before.cache m.cache).size := by
    simp [EngineCache.keys, EngineCache.size, Ordered.keys]
  rw [Heap.newList, Heap.table_newTable_self]
  rw [← length] at small
  refine Conversion.items_eq (by omega) (fun i below => ?_) fun v member => ?_
  · exact Table.getIndex_ofItems (by omega) (by omega)
  · obtain ⟨key, _, rfl⟩ := List.mem_map.mp member
    rfl

theorem ends_managerIsCached_error {e : Failure} (held : heap.resource? uid = some (.manager id?))
    (wrong : Conversion.toText (firstOf arguments) = .error e) :
    Ends engine calls 2 0 before heap
      (Library.managerIsCached ⟨function, .userdata uid :: arguments⟩)
      fun outcome after later => Heap.Extends heap after ∧ later = before ∧
        ∃ failure, Raises after failure outcome := by
  rw [← Arguments.get_two function (.userdata uid)] at wrong
  have refused : Ends engine calls 1 0 before heap
      (Library.textArgument (some "ManagerHandle.is_cached")
        ⟨function, .userdata uid :: arguments⟩ 2)
      fun outcome after later => Heap.Extends heap after ∧ later = before ∧
        ∃ failure, Raises after failure outcome :=
    .textArgument_error wrong fun failure _ _ extends_ raises => ⟨extends_, rfl, failure, raises⟩
  change Ends engine calls (1 + (1 + 0)) (0 + 0) before heap (Library.managerOf _ _ >>= _) _
  refine .afterwards (.managerOf rfl held) (refused.bind ?_ ?_)
  · rintro key middle between ⟨_, _, _, _, found, _⟩
    cases found
  · rintro thrown middle between ⟨extends_, same, failure, raises⟩
    exact ⟨extends_, same, failure, raises.error⟩

theorem ends_managerIsCached (held : heap.resource? uid = some (.manager id?))
    (alive : before.alive? id? = some m)
    (ascending : Ordered.Ascending (before.cache m.cache).entries) :
    Ends engine calls 2 1 before heap
      (Library.managerIsCached ⟨function, .userdata uid :: arguments⟩)
      fun outcome after later => Heap.Extends heap after ∧
        ManagerMethod.isCached.Answers before m.cache arguments outcome after later := by
  have answers (key : String) : before.reply engine (.isCached id? key) =
      (some (decide (key ∈ (before.cache m.cache).keys)), before) := by
    have listed : key ∈ Ordered.keys (before.cache m.cache).entries ↔ _ := ascending.mem_keys_iff
    simp only [reply, alive, Option.map_some, EngineCache.contains, EngineCache.get?,
      EngineCache.keys, listed, Bool.decide_eq_true]
    rfl
  cases text : Conversion.toText (firstOf arguments) with
  | ok key =>
      change Ends engine calls (1 + (0 + (1 + (0 + 0)))) (1 + 0) before heap
        (Library.managerOf _ _ >>= _) _
      refine .afterwards (.managerOf rfl held) ?_
      refine .afterwards (.textArgument (by rw [Arguments.get_two, text])) ?_
      refine .answered (answers key) rfl rfl ?_
      refine .afterwards (.pure (decide (key ∈ (before.cache m.cache).keys))) ?_
      exact .pure ⟨.refl heap, rfl, by rw [text]⟩
  | error e =>
      refine (ends_managerIsCached_error held text).mono (Nat.le_refl _) (by omega) ?_
      rintro outcome after later ⟨extends_, same, raises⟩
      exact ⟨extends_, same, by rwa [text]⟩

theorem ends_managerClear (held : heap.resource? uid = some (.manager id?))
    (alive : before.alive? id? = some m) :
    Ends engine calls 2 1 before heap
      (Library.managerClear ⟨function, .userdata uid :: arguments⟩)
      fun outcome after later => Heap.Extends heap after ∧
        ManagerMethod.clearEngines.Answers before m.cache arguments outcome after later := by
  have answers : before.reply engine (.clearEngines id?) =
      (some (before.cache m.cache).size, (before.alterCache m.cache EngineCache.reset).2) := by
    simp only [reply, alive]
    rfl
  change Ends engine calls (1 + (1 + (0 + 0))) (1 + 0) before heap (Library.managerOf _ _ >>= _) _
  refine .afterwards (.managerOf rfl held) ?_
  refine .answered answers rfl rfl ?_
  refine .afterwards (.pure (before.cache m.cache).size) ?_
  exact .pure ⟨.refl heap, rfl, rfl⟩

/-- The function of a method, with the arguments that a call by its name gives it. -/
def methodBody (uid : UserdataId) (method : ManagerMethod) (arguments : List Value) :
    Eval (List Value) :=
  Library.host Binding.names method.function
    ⟨Library.nameOf (.host method.function), .userdata uid :: arguments⟩

theorem ends_methodBody (held : heap.resource? uid = some (.manager id?))
    (alive : before.alive? id? = some m)
    (ascending : Ordered.Ascending (before.cache m.cache).entries) :
    Ends engine calls 3 1 before heap (methodBody uid method arguments)
      fun outcome after later => Heap.Extends heap after ∧
        method.Answers before m.cache arguments outcome after later := by
  cases method with
  | cachedKeys => exact ends_managerCachedKeys held alive
  | isCached =>
      exact (ends_managerIsCached held alive ascending).mono (by omega) (Nat.le_refl _)
        fun _ _ _ holds => holds
  | clearEngines =>
      exact (ends_managerClear held alive).mono (by omega) (Nat.le_refl _) fun _ _ _ holds => holds

theorem ends_answer_none {α β : Type} {f : α → Eval β}
    {property : Except Thrown β → Heap → Host → Prop}
    (holds : ∀ outcome after, Heap.Extends heap after →
      Raises after (.host "engine manager is no longer alive") outcome →
      property outcome after before) :
    Ends engine calls 1 0 before heap (Library.answer none >>= f) property := by
  have failed : Ends engine calls 1 0 before heap (Library.answer none : Eval α)
      fun outcome after later => Heap.Extends heap after ∧ later = before ∧
        Raises after (.host "engine manager is no longer alive") outcome := by
    unfold Library.answer
    exact .failure nofun fun _ _ extends_ raises => ⟨extends_, rfl, raises⟩
  change Ends engine calls (1 + 0) (0 + 0) before heap _ property
  refine failed.bind ?_ ?_
  · rintro a middle between ⟨_, _, _, found, _⟩
    cases found
  · rintro thrown middle between ⟨extends_, rfl, raises⟩
    exact holds _ _ extends_ raises.error

/-- Whatever a method looks at before, it does not find its manager. -/
theorem ends_methodBody_gone (held : heap.resource? uid = some (.manager id?))
    (gone : before.alive? id? = none) :
    Ends engine calls 3 1 before heap (methodBody uid method arguments)
      fun outcome after later => Heap.Extends heap after ∧
        method.Refuses before arguments outcome after later := by
  cases method with
  | cachedKeys | clearEngines =>
      change Ends engine calls (1 + (1 + 1)) (1 + 0) before heap (Library.managerOf _ _ >>= _) _
      refine .afterwards (.managerOf rfl held) (.answered ?_ rfl rfl (ends_answer_none
        fun _ _ extends_ raises => ⟨extends_, rfl, _, raises, .inl rfl⟩))
      simp only [reply, gone, Option.map_none]
  | isCached =>
      cases text : Conversion.toText (firstOf arguments) with
      | ok key =>
          have answers : before.reply engine (.isCached id? key) = (none, before) := by
            simp only [reply, gone]
            rfl
          change Ends engine calls (1 + (0 + (1 + 1))) (1 + 0) before heap
            (Library.managerOf _ _ >>= _) _
          refine .afterwards (.managerOf rfl held) ?_
          refine .afterwards (.textArgument (by rw [Arguments.get_two, text])) ?_
          refine .answered answers rfl rfl ?_
          exact ends_answer_none fun _ _ extends_ raises => ⟨extends_, rfl, _, raises, .inl rfl⟩
      | error e =>
          refine (ends_managerIsCached_error held text).mono (by omega) (by omega) ?_
          rintro outcome after later ⟨extends_, same, failure, raises⟩
          exact ⟨extends_, same, failure, raises, .inr ⟨rfl, e, text⟩⟩

/-- A method is looked up and called, unless the memory runs out before. -/
theorem ends_callMethod {property : Except Thrown (List Value) → Heap → Host → Prop}
    (held : heap.resource? uid = some (.manager id?))
    (body : ∀ middle : Heap, middle.resource? uid = some (.manager id?) →
      Ends engine calls 3 1 before middle (methodBody uid method arguments)
        fun outcome after later => Heap.Extends middle after ∧ property outcome after later) :
    Ends engine (calls + 1) (3 + (3 + 2)) (0 + 1) before heap
      (callMethod place label? site (.userdata uid) method.name arguments)
      (OrFull before heap property) := by
  have runs : Library.run setting (.builtin (.host method.function)) (.host method.function) []
      (.userdata uid :: arguments) = Eval.run (methodBody uid method arguments) := rfl
  refine (ends_index_manager held).bind ?_ ?_
  · rintro f middle between ⟨opened, ⟨found, rfl⟩ | ⟨failed, _⟩⟩
    · cases found
      refine .call_builtin runs (fun entered opened' => ?_) fun after opened' limited => ?_
      · have held' := opened'.resource? _ _ (opened.resource? _ _ held)
        refine (body entered held').mono (Nat.le_refl _) (Nat.le_refl _) ?_
        rintro outcome after later ⟨extends_, holds⟩
        exact ⟨(opened.trans opened').trans extends_, .inl holds⟩
      · rw [opened.limit?] at limited
        exact ⟨opened.trans opened', .inr ⟨rfl, limited, rfl⟩⟩
    · cases failed
  · rintro thrown middle between ⟨opened, ⟨found, _⟩ | ⟨failed, limited, rfl⟩⟩
    · cases found
    · cases failed
      exact ⟨opened, .inr ⟨rfl, limited, rfl⟩⟩

/-! ## Managers and caches over time -/

/-- The keys of every cache ascend. -/
def Ranked (h : Host) : Prop := ∀ id, Ordered.Ascending (h.cache id).entries

/-- A manager on which nobody holds any more. -/
def Gone (h : Host) (id : ManagerId) : Prop :=
  ∃ m, h.managers[id.index]? = some m ∧ m.holders = 0

/-- Keys go on to ascend, and managers that are gone do not come back. -/
structure Upholds (before after : Host) : Prop where
  ranked : Ranked before → Ranked after
  gone : ∀ id, Gone before id → Gone after id

namespace Upholds

variable {between last : Host}

theorem trans (first : Upholds before between) (second : Upholds between last) :
    Upholds before last :=
  ⟨second.ranked ∘ first.ranked, fun id gone => second.gone id (first.gone id gone)⟩

theorem ofServes {requests : List Request} (serves : Serves requests before last) :
    Upholds before last where
  ranked ranked cache := by
    rw [serves.entries cache]
    split
    · exact List.Pairwise.nil
    · exact ranked cache
  gone id gone := by
    obtain ⟨m, found, dropped⟩ := gone
    have setup := serves.managers id.index
    rw [found, Option.map_some] at setup
    obtain ⟨n, found', same⟩ := Option.map_eq_some_iff.mp setup
    have holders : n.holders = m.holders := (Manager.mk.inj same).2.2.2.1
    exact ⟨n, found', holders.trans dropped⟩

theorem alterCache {α : Type} (before : Host) (cache : CacheId) {f : EngineCache → α × EngineCache}
    (ascends : ∀ c : EngineCache, Ordered.Ascending c.entries → Ordered.Ascending (f c).2.entries) :
    Upholds before (before.alterCache cache f).2 where
  ranked ranked other := by
    rw [cache_alterCache]
    split
    · exact ascends _ (ranked cache)
    · exact ranked other
  gone _ gone := gone

theorem modifyManager (before : Host) (id : ManagerId) {f : Manager → Manager}
    (kept : ∀ m, before.managers[id.index]? = some m → m.holders = 0 → (f m).holders = 0) :
    Upholds before (before.modifyManager id f) where
  ranked ranked := ranked
  gone other gone := by
    obtain ⟨m, found, dropped⟩ := gone
    simp only [Gone, Host.modifyManager, Array.getElem?_modify, found, Option.map_some]
    split
    · rename_i same
      rw [← same] at found
      exact ⟨f m, rfl, kept m found dropped⟩
    · exact ⟨m, rfl, dropped⟩

theorem put (before : Host) (cache : CacheId) (key : CacheKey) (engine : EngineId) :
    Upholds before (before.alterCache cache fun c => c.put key engine).2 :=
  alterCache before cache fun _ ascending => ascending.insert key.text engine

theorem fill (before : Host) (cache : CacheId) (key : CacheKey)
    (made : Except EngineError EngineId) :
    Upholds before (before.alterCache cache fun c => c.fill key made).2 := by
  cases made with
  | ok engine => exact put before cache key engine
  | error e => exact alterCache before cache fun _ ascending => ascending

theorem selectEngine (before : Host) (id : ManagerId) (policy : Policy) (key : CacheKey) :
    Upholds before (before.selectEngine id policy key).2 := by
  have requested := ofServes (serves_requestEngine before id (.ofPolicy policy))
  unfold Host.selectEngine
  dsimp only
  cases policy with
  | reuse =>
      dsimp only
      split
      · exact ⟨fun ranked => ranked, fun _ gone => gone⟩
      · generalize before.requestEngine id (.ofPolicy .reuse) = requestedEngine at requested ⊢
        obtain ⟨made, middle⟩ := requestedEngine
        dsimp only at requested ⊢
        exact requested.trans (fill middle _ key made)
  | refresh =>
      generalize before.requestEngine id (.ofPolicy .refresh) = requestedEngine at requested ⊢
      obtain ⟨made, middle⟩ := requestedEngine
      cases made with
      | ok engine => exact requested.trans (put middle _ key engine)
      | error e => exact requested
  | clean | fullIsolation => exact requested

theorem acquire (before : Host) (id : ManagerId) (context : Context) :
    Upholds before (before.acquire id context).2 := by
  have selected := selectEngine before id context.policy context.cacheKey
  cases selects : before.selectEngine id context.policy context.cacheKey with
  | mk result between =>
      rw [selects] at selected
      cases result with
      | error e =>
          rw [acquire_of_error selects]
          exact selected
      | ok choice => exact selected.trans (ofServes (serves_acquire selects).2)

end Upholds

/-- What may happen to managers and to their caches. -/
inductive ManagerStep : Host → Host → Prop where
  | newCache (h : Host) : ManagerStep h h.newCache.2
  | newManager (h : Host) (m : Manager) : ManagerStep h (h.newManager m).2
  /-- Only who holds on to a manager can share it. -/
  | share {h : Host} {id : ManagerId} {m : Manager} : h.alive? (some id) = some m →
      ManagerStep h (h.shareManager id)
  | drop (h : Host) (id : ManagerId) : ManagerStep h (h.dropManager id)
  | acquire (h : Host) (id : ManagerId) (context : Context) : ManagerStep h (h.acquire id context).2
  /-- A host uses a cache that it shares with managers. -/
  | command (h : Host) (cache : CacheId) (c : CacheHistory.Command EngineError) :
      ManagerStep h (h.alterCache cache fun entries => CacheHistory.step entries c).2
  /-- Scripts run, also in the middle of a release or of an injection, and get what they ask for. -/
  | serves {h after : Host} {requests : List Request} : Serves requests h after →
      ManagerStep h after
  /-- Engines, streams and results are used in any way. -/
  | beside {h after : Host} : after.caches = h.caches → after.managers = h.managers →
      ManagerStep h after

/-- The hosts that are reached by steps, also in the middle of a script. -/
inductive ManagerRun (start : Host) : Host → Prop where
  | start : ManagerRun start start
  | step {h after : Host} : ManagerRun start h → ManagerStep h after → ManagerRun start after

theorem ManagerStep.upholds {h after : Host} (taken : ManagerStep h after) : Upholds h after := by
  cases taken with
  | newCache =>
      refine ⟨fun ranked id => ?_, fun _ gone => gone⟩
      simp only [Host.cache, Host.newCache, Array.getElem?_push]
      split
      · exact List.Pairwise.nil
      · exact ranked id
  | newManager m =>
      refine ⟨fun ranked => ranked, fun id gone => ?_⟩
      obtain ⟨n, found, dropped⟩ := gone
      have below := (Array.getElem?_eq_some_iff.mp found).1
      refine ⟨n, ?_, dropped⟩
      rw [Host.newManager, Array.getElem?_push, if_neg (Nat.ne_of_lt below)]
      exact found
  | share alive =>
      refine .modifyManager h _ fun m found dropped => ?_
      rw [alive?, Option.bind_some, found, Option.filter_some, dropped] at alive
      cases alive
  | drop id =>
      refine .modifyManager h id fun m _ dropped => ?_
      change m.holders - 1 = 0
      rw [dropped]
  | acquire id context => exact .acquire h id context
  | command cache c =>
      refine .alterCache h cache fun entries ascending => ?_
      cases c with
      | put key engine => exact ascending.insert key.text engine
      | reset => exact List.Pairwise.nil
      | getOrCreate key create =>
          rcases entries.getOrCreate_cases key create with
            ⟨_, _, served⟩ | ⟨_, ⟨engine, _, made⟩ | ⟨_, _, failed⟩⟩
          · simp only [CacheHistory.step, served]
            exact ascending
          · simp only [CacheHistory.step, made]
            exact ascending.insert key.text engine
          · simp only [CacheHistory.step, failed]
            exact ascending
  | serves served => exact .ofServes served
  | beside caches managers =>
      refine ⟨fun ranked id => ?_, fun id gone => ?_⟩
      · rw [Host.cache, caches]
        exact ranked id
      · rw [Gone, managers]
        exact gone

theorem ManagerRun.upholds {start h : Host} (run : ManagerRun start h) : Upholds start h := by
  induction run with
  | start => exact ⟨fun ranked => ranked, fun _ gone => gone⟩
  | step _ taken ih => exact ih.trans taken.upholds

/-! ## What emptying a cache leaves alone -/

/-- A script on an engine has emptied a cache, and nothing else has happened. -/
structure Emptied (before : Host) (cache : CacheId) (engine : EngineId) (heap after : Heap)
    (later : Host) : Prop where
  empty : (later.cache cache).keys = []
  others : ∀ other, other ≠ cache → later.cache other = before.cache other
  elsewhere : later = { before with caches := later.caches }
  outputs : ∀ other, (later.modifyHeap engine fun _ => after).output other = before.output other
  bindings : ∀ subject, Displays heap subject → Displays after subject
  releases : ∀ invocations : List Invocation,
    (∀ i ∈ invocations, i.engine.index < before.engines.size) →
    (later.modifyHeap engine fun _ => after).releaseAll invocations =
      (before.modifyHeap engine fun _ => heap).releaseAll invocations

theorem emptied_of_reset (cache : CacheId) (engine : EngineId)
    (extends_ : Heap.Extends heap after) :
    Emptied before cache engine heap after (before.alterCache cache EngineCache.reset).2 where
  empty := by
    rw [EngineCache.keys, entries_reset, if_pos rfl]
    rfl
  others other different := by rw [cache_alterCache, if_neg fun both => different both.1]
  elsewhere := rfl
  outputs other := by
    let last := (before.alterCache cache EngineCache.reset).2
    have runs := RunsOn.modifyHeap engine last fun _ => after
    have routing : (last.modifyHeap engine fun _ => after).routing other =
        before.routing other := by
      by_cases same : other = engine
      · rw [same, runs.routing]
        rfl
      · rw [Host.routing, runs.others other same]
        rfl
    rw [output, routing, output]
  bindings subject displays := displays.keep extends_.toSteady
  releases invocations present := by
    have same : SameOutputs before (before.alterCache cache EngineCache.reset).2 :=
      ⟨Nat.le_refl _, fun _ _ => rfl, fun _ _ => rfl⟩
    have ended := same.ofRunsOn (.modifyHeap engine before fun _ => heap)
      (.modifyHeap engine (before.alterCache cache EngineCache.reset).2 fun _ => after)
    refine ended.releaseAll invocations fun i member => ?_
    rw [modifyHeap, size_engines_modifyEngine]
    exact present i member

/-! ## Handles -/

/-- What every call of a method on a handle for a manager comes to, in any script on any engine that
has got hold of one. -/
def EveryCall (h : Host) (id : ManagerId)
    (property : EngineId → Heap → ManagerMethod → List Value →
      Except Thrown (List Value) → Heap → Host → Prop) : Prop :=
  ∀ engine (heap : Heap) uid (method : ManagerMethod) arguments place label? site,
    heap.resource? uid = some (.manager (some id)) →
    Ends engine 1 8 1 h heap (callMethod place label? site (.userdata uid) method.name arguments)
      (OrFull h heap (property engine heap method arguments))

theorem everyCall_alive (ranked : Ranked before) (alive : before.alive? (some id) = some m) :
    before.EveryCall id fun engine heap method arguments outcome after later =>
      method.Answers before m.cache arguments outcome after later ∧
        (method = .clearEngines → Emptied before m.cache engine heap after later) := by
  intro engine heap uid method arguments place label? site held
  refine (ends_callMethod held fun middle held' =>
    ends_methodBody held' alive (ranked m.cache)).mono (by omega) (by omega) ?_
  rintro outcome after later ⟨extends_, answered | full⟩
  · refine ⟨extends_, .inl ⟨answered, ?_⟩⟩
    rintro rfl
    rw [answered.2]
    exact emptied_of_reset m.cache engine extends_
  · exact ⟨extends_, .inr full⟩

theorem everyCall_gone (gone : Gone before id) :
    before.EveryCall id fun _ _ method arguments outcome after later =>
      method.Refuses before arguments outcome after later := by
  intro engine heap uid method arguments place label? site held
  obtain ⟨m, found, dropped⟩ := gone
  have missing : before.alive? (some id) = none := by
    rw [alive?, Option.bind_some, found, Option.filter_some, dropped]
    rfl
  have ends := fun middle (held : middle.resource? uid = some (.manager (some id))) =>
    @ends_methodBody_gone engine 0 before middle uid _ method arguments held missing
  exact (ends_callMethod held ends).mono (by omega) (by omega) fun _ _ _ holds => holds

/-- The scope of an invocation has a handle for a manager. -/
def HasHandle (h : Host) (invocation : Invocation) (id : ManagerId) : Prop :=
  ∃ uid, (h.heap invocation.engine).rawGetText invocation.bindings.scope
      Binding.engineManager.name = .userdata uid ∧
    (h.heap invocation.engine).resource? uid = some (.manager (some id))

theorem hasHandle_of_acquire {selected : Host} {cached : Bool} {context : Context}
    {invocation : Invocation} (selects : before.selectEngine id context.policy context.cacheKey =
      (.ok (engine, cached), selected))
    (orderly : Scope.Orderly (selected.heap engine))
    (acquires : before.acquire id context = (.ok invocation, later)) :
    later.HasHandle invocation id := by
  obtain ⟨_, _, acquired⟩ := acquired_of_acquire selects orderly acquires
  obtain ⟨contextId, middle, p, patterns, _, injected, _, ended⟩ := acquired.scope
  obtain ⟨uid, shown, known⟩ := injected.shown .engineManager
  refine ⟨uid, ?_, ?_⟩
  · rw [ended, Heap.rawGetText_rawSetText_of_ne (by decide)]
    exact shown
  · rw [ended]
    exact known

/-- An invocation has a handle for its manager. Whatever managers there are and have been, and
whoever has kept the handle: while somebody holds on to the manager, every call of a method answers
for its cache at that moment, and emptying the cache leaves every engine as it is. When nobody does,
it raises from then on and changes nothing, whoever else uses the cache. A call has no effect if
there is no memory to make it. -/
theorem handles_answer_for_manager {start h : Host} (ranked : Ranked start)
    (run : ManagerRun start h) (known : h.managers[id.index]? = some m) :
    (∀ context engine cached selected invocation after,
      h.selectEngine id context.policy context.cacheKey = (.ok (engine, cached), selected) →
      Scope.Orderly (selected.heap engine) → h.acquire id context = (.ok invocation, after) →
      after.HasHandle invocation id) ∧
    (h.cacheOf id).keys.Pairwise (· < ·) ∧ h.cacheOf id = h.cache m.cache ∧
    (0 < m.holders → h.EveryCall id fun engine heap method arguments outcome after later =>
      method.Answers h m.cache arguments outcome after later ∧
        (method = .clearEngines → Emptied h m.cache engine heap after later)) ∧
    (m.holders = 0 → ∀ last, ManagerRun h last →
      last.EveryCall id fun _ _ method arguments outcome after later =>
        method.Refuses last arguments outcome after later) := by
  have ascending := run.upholds.ranked ranked
  have cache : h.manager id = m := by rw [Host.manager, known, Option.getD_some]
  refine ⟨fun context engine cached selected invocation after selects orderly acquires =>
    hasHandle_of_acquire selects orderly acquires, ascending _, by rw [cacheOf, cache],
    fun shared => ?_, fun dropped last goes => ?_⟩
  · refine everyCall_alive ascending ?_
    rw [alive?, Option.bind_some, known, Option.filter_some, decide_eq_true shared]
    rfl
  · exact everyCall_gone (goes.upholds.gone id ⟨m, known, dropped⟩)

open InvocationHistory (oneManager toolContext)

/-- A cache with one engine that two managers share, of which the second is gone. -/
def sharedCache : Host :=
  ((oneManager.acquire ⟨0⟩ (toolContext 0 "outer")).2.newManager { cache := ⟨0⟩ }).2.dropManager ⟨1⟩

/-- A heap with nothing but the handle of a manager. -/
def handleHeap (id : ManagerId) : UserdataId × Heap := ({} : Heap).newUserdata (.manager (some id))

theorem ranked_oneManager : Ranked oneManager := by
  rintro ⟨_ | index⟩ <;> exact List.Pairwise.nil

theorem run_sharedCache : ManagerRun oneManager sharedCache :=
  ((ManagerRun.start.step (.acquire oneManager ⟨0⟩ (toolContext 0 "outer"))).step
    (.newManager _ { cache := ⟨0⟩ })).step (.drop _ ⟨1⟩)

/-- Through the handle of the first manager the engine is discarded; through that of the second one
nothing is. -/
theorem handles_answer_for_manager_shared_cache :
    ∃ m n, Ranked oneManager ∧ ManagerRun oneManager sharedCache ∧
      sharedCache.managers[0]? = some m ∧ 0 < m.holders ∧
      sharedCache.managers[1]? = some n ∧ n.holders = 0 ∧ m.cache = n.cache ∧
      Ends ⟨0⟩ 1 8 1 sharedCache (handleHeap ⟨0⟩).2
        (callMethod {} none {} (.userdata (handleHeap ⟨0⟩).1) "clear_engines" [])
        (fun outcome _ later => outcome = .ok [.integer 1] ∧ (later.cache m.cache).keys = []) ∧
      Ends ⟨0⟩ 1 8 1 sharedCache (handleHeap ⟨1⟩).2
        (callMethod {} none {} (.userdata (handleHeap ⟨1⟩).1) "clear_engines" [])
        fun outcome after later => later = sharedCache ∧
          Raises after (.host "engine manager is no longer alive") outcome := by
  have facts : sharedCache.managers[0]?.map (fun m => (m.holders, m.cache)) = some (1, ⟨0⟩) ∧
      sharedCache.managers[1]?.map (fun m => (m.holders, m.cache)) = some (0, ⟨0⟩) ∧
      (sharedCache.cache ⟨0⟩).size = 1 := by
    decide +kernel
  obtain ⟨first, second, size⟩ := facts
  obtain ⟨m, found, described⟩ := Option.map_eq_some_iff.mp first
  obtain ⟨n, found', described'⟩ := Option.map_eq_some_iff.mp second
  obtain ⟨shared, cache⟩ := Prod.mk.inj described
  obtain ⟨dropped, cache'⟩ := Prod.mk.inj described'
  have shared : 0 < m.holders := by omega
  obtain ⟨_, _, _, alive, _⟩ :=
    @handles_answer_for_manager ⟨0⟩ m _ _ ranked_oneManager run_sharedCache found
  obtain ⟨_, _, _, _, gone⟩ :=
    @handles_answer_for_manager ⟨1⟩ n _ _ ranked_oneManager run_sharedCache found'
  refine ⟨m, n, ranked_oneManager, run_sharedCache, found, shared, found', dropped,
    cache.trans cache'.symm, ?_, ?_⟩
  · have cleared := alive shared ⟨0⟩ (handleHeap ⟨0⟩).2 (handleHeap ⟨0⟩).1 .clearEngines [] {} none
      {} rfl
    refine cleared.mono (Nat.le_refl _) (Nat.le_refl _) ?_
    rintro outcome after later ⟨_, ⟨⟨answer, _⟩, emptied⟩ | ⟨_, limited, _⟩⟩
    · rw [cache, size] at answer
      exact ⟨answer, (emptied rfl).empty⟩
    · exact absurd rfl limited
  · have refused := gone dropped _ .start ⟨0⟩ (handleHeap ⟨1⟩).2 (handleHeap ⟨1⟩).1 .clearEngines []
      {} none {} rfl
    refine refused.mono (Nat.le_refl _) (Nat.le_refl _) ?_
    rintro outcome after later ⟨_, ⟨same, failure, raises, rfl | ⟨other, _⟩⟩ | ⟨_, limited, _⟩⟩
    · exact ⟨same, raises⟩
    · cases other
    · exact absurd rfl limited

end Host

end ScriptHost
