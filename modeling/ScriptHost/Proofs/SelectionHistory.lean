import ScriptHost.Proofs.HiddenBindings
import ScriptHost.Proofs.LastEvent

/-!
# Histories of selections

Which engine a manager selects, told by what has been selected before: under reuse the one that
was made latest for the cache and the key, unless the cache was emptied since, and in every other
case one that nobody has selected before.
-/

set_option autoImplicit false

namespace ScriptHost

/-- One engine that a manager has selected. -/
structure Selection where
  cache : CacheId
  policy : Policy
  key : CacheKey
  engine : EngineId
  /-- Whether the engine came from the cache. -/
  cached : Bool

/-- Whether the engine was made for a cache and a key. -/
structure Selection.MadeFor (cache : CacheId) (key : CacheKey) (s : Selection) : Prop where
  cache : s.cache = cache
  key : s.key = key
  new : s.cached = false
  stored : s.policy.usesCache = true

inductive CacheEvent where
  | selected (selection : Selection)
  | cleared (cache : CacheId)

namespace CacheEvent

/-- The event makes an engine for a cache and a key. -/
def Makes (cache : CacheId) (key : CacheKey) (engine : EngineId) : CacheEvent → Prop
  | selected s => s.MadeFor cache key ∧ s.engine = engine
  | cleared _ => False

def Clears (cache : CacheId) : CacheEvent → Prop
  | selected _ => False
  | cleared other => other = cache

def selection? : CacheEvent → Option Selection
  | selected s => some s
  | cleared _ => none

/-- The selections among events, the earliest first. -/
def selections (log : List CacheEvent) : List Selection := log.filterMap selection?

/-- Some engine has been made for a cache and a key, and the cache has not been emptied since. -/
def Provided (cache : CacheId) (key : CacheKey) (log : List CacheEvent) : Prop :=
  ∃ earlier event later, log = earlier ++ event :: later ∧
    (∃ engine, event.Makes cache key engine) ∧ ∀ other ∈ later, ¬ other.Clears cache

/-- An engine is the latest that has been made for a cache and a key, and the cache has not been
emptied since. -/
def Latest (cache : CacheId) (key : CacheKey) (engine : EngineId) (log : List CacheEvent) : Prop :=
  ∃ earlier event later, log = earlier ++ event :: later ∧ event.Makes cache key engine ∧
    ∀ other ∈ later, ¬ other.Clears cache ∧ ∀ newer, ¬ other.Makes cache key newer

variable {cache : CacheId} {key : CacheKey} {engine : EngineId} {log : List CacheEvent}
  {event : CacheEvent}

theorem latest_append_singleton : Latest cache key engine (log ++ [event]) ↔
    event.Makes cache key engine ∨
      (¬ event.Clears cache ∧ ∀ newer, ¬ event.Makes cache key newer) ∧
        Latest cache key engine log :=
  History.last_append_singleton

theorem exists_last {holds : CacheEvent → Prop} (found : ∃ e ∈ log, holds e) :
    ∃ earlier e later, log = earlier ++ e :: later ∧ holds e ∧ ∀ other ∈ later, ¬ holds other := by
  induction log with
  | nil =>
      obtain ⟨e, member, _⟩ := found
      cases member
  | cons first rest ih =>
      by_cases further : ∃ e ∈ rest, holds e
      · obtain ⟨earlier, e, later, rfl, here, none⟩ := ih further
        exact ⟨first :: earlier, e, later, rfl, here, none⟩
      · obtain ⟨e, member, here⟩ := found
        rcases List.mem_cons.mp member with rfl | member
        · exact ⟨[], e, rest, rfl, here, fun other member here => further ⟨other, member, here⟩⟩
        · exact absurd ⟨e, member, here⟩ further

theorem exists_latest : (∃ engine, Latest cache key engine log) ↔ Provided cache key log := by
  constructor
  · rintro ⟨engine, earlier, event, later, split, makes, rest⟩
    exact ⟨earlier, event, later, split, ⟨engine, makes⟩, fun other member => (rest other member).1⟩
  · rintro ⟨earlier, event, later, rfl, makes, kept⟩
    have some_ : ∃ e ∈ event :: later, ∃ engine, e.Makes cache key engine :=
      ⟨event, List.mem_cons_self, makes⟩
    obtain ⟨front, last, rest, split, ⟨engine, here⟩, none⟩ := exists_last some_
    refine ⟨engine, earlier ++ front, last, rest, by rw [split, List.append_assoc], here, ?_⟩
    intro other member
    refine ⟨kept other ?_, fun newer too => none other member ⟨newer, too⟩⟩
    cases front with
    | nil =>
        obtain ⟨rfl, rfl⟩ := List.cons.inj split
        exact member
    | cons _ front =>
        obtain ⟨rfl, rfl⟩ := List.cons.inj split
        exact List.mem_append_right _ (List.mem_cons_of_mem _ member)

theorem Latest.made (latest : Latest cache key engine log) :
    ∃ s ∈ selections log, s.MadeFor cache key ∧ s.engine = engine := by
  obtain ⟨earlier, event, later, rfl, makes, _⟩ := latest
  cases event with
  | cleared _ => cases makes
  | selected s => exact ⟨s, by simp [selections, selection?], makes⟩

/-- What a log comes to if every selection either takes the latest engine for its key, or a new
one. -/
inductive Sound : List CacheEvent → Prop where
  | nil : Sound []
  | cleared {log : List CacheEvent} (cache : CacheId) : Sound log → Sound (log ++ [.cleared cache])
  | served {log : List CacheEvent} {s : Selection} : Sound log → s.policy = .reuse → s.cached = true →
      Latest s.cache s.key s.engine log → Sound (log ++ [.selected s])
  | new {log : List CacheEvent} {s : Selection} : Sound log → s.cached = false →
      (∀ other ∈ selections log, other.engine ≠ s.engine) → Sound (log ++ [.selected s])

theorem latest_append_cleared (caches : List CacheId) :
    Latest cache key engine (log ++ caches.map .cleared) ↔
      cache ∉ caches ∧ Latest cache key engine log := by
  induction caches generalizing log with
  | nil => simp
  | cons first rest ih =>
      rw [List.map_cons, List.append_cons, ih, latest_append_singleton]
      simp [Makes, Clears, eq_comm, and_assoc, and_left_comm]

theorem Sound.append_cleared (sound : Sound log) (caches : List CacheId) :
    Sound (log ++ caches.map .cleared) := by
  induction caches generalizing log with
  | nil => simpa using sound
  | cons first rest ih =>
      rw [List.map_cons, List.append_cons]
      exact ih (sound.cleared first)

@[simp] theorem selections_append (earlier later : List CacheEvent) :
    selections (earlier ++ later) = selections earlier ++ selections later :=
  List.filterMap_append

@[simp] theorem selections_cleared (caches : List CacheId) :
    selections (caches.map .cleared) = [] := by
  induction caches with
  | nil => rfl
  | cons first rest ih => exact ih

@[simp] theorem selections_one_cleared (cache : CacheId) : selections [.cleared cache] = [] := rfl

@[simp] theorem selections_selected (s : Selection) : selections [.selected s] = [s] := rfl

/-- Two selections of one engine are for one key and one cache, and unless they are the same, both
are by policies that use the cache. -/
def Fit (s t : Selection) : Prop :=
  s.engine = t.engine → s.cache = t.cache ∧ s.key = t.key ∧
    (s = t ∨ s.policy.usesCache = true ∧ t.policy.usesCache = true)

theorem Fit.symm {s t : Selection} (fit : Fit s t) : Fit t s := fun same => by
  obtain ⟨cache, key, policies⟩ := fit same.symm
  exact ⟨cache.symm, key.symm, policies.imp Eq.symm And.symm⟩

theorem Fit.refl (s : Selection) : Fit s s := fun _ => ⟨rfl, rfl, .inl rfl⟩

theorem fit_append {new : Selection}
    (each : ∀ s ∈ selections log, ∀ t ∈ selections log, Fit s t)
    (fits : ∀ s ∈ selections log, Fit s new) :
    ∀ s ∈ selections (log ++ [.selected new]), ∀ t ∈ selections (log ++ [.selected new]),
      Fit s t := by
  intro s first t second
  rw [selections_append, selections_selected, List.mem_append, List.mem_singleton] at first second
  rcases first with first | rfl <;> rcases second with second | rfl
  · exact each s first t second
  · exact fits s first
  · exact (fits t second).symm
  · exact Fit.refl _

theorem Sound.fit (sound : Sound log) : ∀ s ∈ selections log, ∀ t ∈ selections log, Fit s t := by
  induction sound with
  | nil => exact fun _ member => by cases member
  | cleared cache _ ih => rwa [selections_append, selections_one_cleared, List.append_nil]
  | served _ policy _ latest ih =>
      refine fit_append ih fun s member same => ?_
      obtain ⟨made, found, fits, engine⟩ := latest.made
      obtain ⟨cache, key, policies⟩ := ih s member made found (same.trans engine.symm)
      refine ⟨cache.trans fits.cache, key.trans fits.key, .inr ⟨?_, by rw [policy]; rfl⟩⟩
      rcases policies with rfl | ⟨uses, _⟩
      · exact fits.stored
      · exact uses
  | new _ _ unused ih => exact fit_append ih fun s member same => absurd same (unused s member)

theorem Sound.selected_once (sound : Sound log) :
    ∀ s ∈ selections log, s.policy.usesCache = false →
      (selections log).countP (fun t => t.engine == s.engine) = 1 := by
  have fits := sound.fit
  induction sound with
  | nil => exact fun _ member => by cases member
  | cleared cache _ ih =>
      rw [selections_append, selections_one_cleared, List.append_nil] at fits ⊢
      exact ih fits
  | @served log new _ policy _ latest ih =>
      rw [selections_append, selections_selected] at fits ⊢
      intro s member once
      rcases List.mem_append.mp member with old | added
      · have other : new.engine ≠ s.engine := fun same => by
          obtain ⟨_, _, rfl | ⟨_, uses⟩⟩ := fits new (by simp) s member same
          · rw [policy] at once
            cases once
          · rw [once] at uses
            cases uses
        rw [List.countP_append, ih (fun a first b second => fits a (by simp [first]) b
          (by simp [second])) s old once]
        simp [other]
      · rw [List.mem_singleton.mp added, policy] at once
        cases once
  | @new log new _ _ unused ih =>
      rw [selections_append, selections_selected] at fits ⊢
      intro s member once
      rw [List.countP_append]
      rcases List.mem_append.mp member with old | added
      · rw [ih (fun a first b second => fits a (by simp [first]) b (by simp [second])) s old once]
        simp [Ne.symm (unused s old)]
      · rw [List.mem_singleton.mp added, List.countP_eq_zero.mpr (by simpa using unused)]
        simp

theorem Sound.not_latest (sound : Sound log) {s : Selection} (member : s ∈ selections log)
    (once : s.policy.usesCache = false) : ¬ Latest cache key s.engine log := fun latest => by
  obtain ⟨made, found, fits, engine⟩ := latest.made
  obtain ⟨_, _, rfl | ⟨uses, _⟩⟩ := sound.fit s member made found engine.symm
  · rw [fits.stored] at once
    cases once
  · rw [uses] at once
    cases once

end CacheEvent

/-- A host, and what has happened to its caches since the start, the earliest first. -/
structure SelectionHistory where
  host : Host
  log : List CacheEvent

namespace SelectionHistory

open Lua Host CacheEvent

/-- The caches that are emptied when scripts make requests. -/
def clearings (h : Host) (requests : List Request) : List CacheEvent :=
  (h.cleared requests).map .cleared

/-- What the outcome of a selection for a context adds to a log. -/
def chosen (cache : CacheId) (context : Context) :
    Except EngineError (EngineId × Bool) → List CacheEvent
  | .error _ => []
  | .ok (engine, cached) =>
    [.selected { cache, policy := context.policy, key := context.cacheKey, engine, cached }]

/-- Selects an engine for a context. Scripts that prepare a new engine may empty caches. -/
def select (s : SelectionHistory) (id : ManagerId) (context : Context) : SelectionHistory where
  host := (s.host.selectEngine id context.policy context.cacheKey).2
  log := s.log ++ clearings s.host (s.host.selectionRequests id context.policy context.cacheKey) ++
    chosen (s.host.manager id).cache context
      (s.host.selectEngine id context.policy context.cacheKey).1

/-- Acquires an invocation, perhaps without success. Scripts that run while the engine is set up
may empty caches as well. -/
def acquire (s : SelectionHistory) (id : ManagerId) (context : Context) : SelectionHistory where
  host := (s.host.acquire id context).2
  log := (s.select id context).log ++
    clearings (s.select id context).host (s.host.setupRequests id context)

/-- Every manager has its cache. -/
def Wired (h : Host) : Prop :=
  ∀ (index : Nat) (m : Manager), h.managers[index]? = some m → m.cache.index < h.caches.size

/-- A change that concerns no cache. -/
structure Apart (h after : Host) : Prop where
  engines : h.engines.size ≤ after.engines.size
  caches : h.caches.size ≤ after.caches.size
  entries : ∀ id, (after.cache id).entries = (h.cache id).entries
  wired : Wired h → Wired after

/-- Acquiring and releasing invocations, emptying caches, running scripts, and whatever else a
host does that concerns no cache. -/
inductive Step : SelectionHistory → SelectionHistory → Prop where
  | acquire {s} (id : ManagerId) (context : Context) : id.index < s.host.managers.size →
      Step s (s.acquire id context)
  | release {s} (invocation : Invocation) : Step s ⟨(s.host.release invocation).2, s.log⟩
  | clearEngines {s} (id : ManagerId) :
      Step s ⟨(s.host.clearEngines id).2, s.log ++ [.cleared (s.host.manager id).cache]⟩
  | script {s} (mayPause : Bool) (engine : EngineId) (stack : Stack) (action : Action) :
      Step s ⟨(s.host.advance mayPause engine stack action).2,
        s.log ++ clearings s.host (s.host.advanceRequests mayPause engine stack action)⟩
  | other {s after} : Apart s.host after → Step s ⟨after, s.log⟩

/-- What is reached by steps from a host. -/
inductive Run (start : Host) : SelectionHistory → Prop where
  | start : Run start ⟨start, []⟩
  | step {s t} : Run start s → Step s t → Run start t

/-- The caches are as the log tells, and so are the selections. -/
structure Faithful (s : SelectionHistory) : Prop where
  wired : Wired s.host
  sound : Sound s.log
  known : ∀ selection ∈ selections s.log, selection.engine.index < s.host.engines.size
  cached : ∀ cache key engine,
    (s.host.cache cache).get? key = some engine ↔ Latest cache key engine s.log

variable {s t : SelectionHistory} {h after : Host} {requests : List Request}

theorem Wired.serves (wired : Wired h) (serves : Serves requests h after) : Wired after := by
  intro index m found
  have same := serves.managers index
  rw [found] at same
  obtain ⟨n, before, setup⟩ := Option.map_eq_some_iff.mp same.symm
  rw [serves.caches, ← show n.cache = m.cache from (Manager.mk.inj setup).1]
  exact wired index n before

theorem Wired.present (wired : Wired h) {id : ManagerId} (there : id.index < h.managers.size) :
    (h.manager id).cache.index < h.caches.size := by
  refine wired id.index (h.manager id) ?_
  simp [manager, Array.getElem?_eq_getElem there]

@[simp] theorem clearings_nil (h : Host) : clearings h [] = [] := rfl

namespace Faithful

theorem apart (faithful : Faithful s) (apart : Apart s.host after) : Faithful ⟨after, s.log⟩ where
  wired := apart.wired faithful.wired
  sound := faithful.sound
  known selection member := Nat.lt_of_lt_of_le (faithful.known selection member) apart.engines
  cached cache key engine := by
    rw [EngineCache.get?_of_entries (apart.entries cache)]
    exact faithful.cached cache key engine

theorem clear (faithful : Faithful s) (caches : List CacheId) (wired : Wired after)
    (engines : s.host.engines.size ≤ after.engines.size)
    (entries : ∀ id, (after.cache id).entries =
      if id ∈ caches then [] else (s.host.cache id).entries) :
    Faithful ⟨after, s.log ++ caches.map .cleared⟩ where
  wired := wired
  sound := faithful.sound.append_cleared caches
  known selection member := by
    rw [selections_append, selections_cleared, List.append_nil] at member
    exact Nat.lt_of_lt_of_le (faithful.known selection member) engines
  cached cache key engine := by
    rw [latest_append_cleared, ← faithful.cached]
    have same := entries cache
    split at same
    · next emptied =>
        rw [EngineCache.get?_of_nil same]
        simp [emptied]
    · next kept =>
        rw [EngineCache.get?_of_entries same]
        simp [kept]

theorem serve (faithful : Faithful s) (serves : Serves requests s.host after)
    (engines : s.host.engines.size ≤ after.engines.size) :
    Faithful ⟨after, s.log ++ clearings s.host requests⟩ :=
  faithful.clear _ (faithful.wired.serves serves) engines serves.entries

theorem select_cached (faithful : Faithful s) {selection : Selection}
    (reuse : selection.policy = .reuse) (cached : selection.cached = true)
    (found : (s.host.cache selection.cache).get? selection.key = some selection.engine) :
    Faithful ⟨s.host, s.log ++ [.selected selection]⟩ := by
  have latest := (faithful.cached _ _ _).mp found
  refine ⟨faithful.wired, faithful.sound.served reuse cached latest, ?_, ?_⟩
  · intro other member
    rw [selections_append, selections_selected, List.mem_append, List.mem_singleton] at member
    rcases member with old | rfl
    · exact faithful.known other old
    · obtain ⟨made, old, _, same⟩ := latest.made
      rw [← same]
      exact faithful.known made old
  · intro cache key engine
    have other : ∀ engine, ¬ Makes cache key engine (.selected selection) := by
      rintro engine ⟨made, _⟩
      rw [made.new] at cached
      cases cached
    rw [latest_append_singleton, faithful.cached]
    simp [other, Clears]

theorem select_new (faithful : Faithful s) {selection : Selection}
    (cached : selection.cached = false)
    (unused : ∀ other ∈ selections s.log, other.engine ≠ selection.engine)
    (present : selection.engine.index < s.host.engines.size)
    (stores : Stores selection.cache selection.policy selection.key (.ok selection.engine) s.host
      after) :
    Faithful ⟨after, s.log ++ [.selected selection]⟩ := by
  refine ⟨?_, faithful.sound.new cached unused, ?_, ?_⟩
  · intro index m found
    rw [stores.managers] at found
    rw [stores.caches]
    exact faithful.wired index m found
  · intro other member
    rw [selections_append, selections_selected, List.mem_append, List.mem_singleton] at member
    rw [stores.engines]
    rcases member with old | rfl
    · exact faithful.known other old
    · exact present
  · intro cache key engine
    have made : ∀ engine, Makes cache key engine (.selected selection) ↔
        (selection.policy.usesCache = true ∧ cache = selection.cache ∧ key = selection.key) ∧
          selection.engine = engine := by
      intro engine
      constructor
      · rintro ⟨made, same⟩
        exact ⟨⟨made.stored, made.cache.symm, made.key.symm⟩, same⟩
      · rintro ⟨⟨stored, cache, key⟩, same⟩
        exact ⟨⟨cache.symm, key.symm, cached, stored⟩, same⟩
    rw [latest_append_singleton, stores.get?, made]
    dsimp only
    by_cases here : selection.policy.usesCache = true ∧ cache = selection.cache ∧
        key = selection.key
    · rw [if_pos here, Option.some.injEq]
      constructor
      · exact fun same => .inl ⟨here, same⟩
      · rintro (⟨_, same⟩ | ⟨⟨_, last⟩, _⟩)
        · exact same
        · exact absurd ((made _).mpr ⟨here, rfl⟩) (last selection.engine)
    · rw [if_neg here, faithful.cached]
      constructor
      · exact fun latest => .inr ⟨⟨id, fun newer makes => here ((made newer).mp makes).1⟩, latest⟩
      · rintro (⟨own, _⟩ | ⟨_, latest⟩)
        · exact absurd own here
        · exact latest

theorem keep_of_error (faithful : Faithful s) {cache : CacheId} {policy : Policy} {key : CacheKey}
    {e : EngineError} (stores : Stores cache policy key (.error e) s.host after) :
    Faithful ⟨after, s.log⟩ where
  wired index m found := by
    rw [stores.managers] at found
    rw [stores.caches]
    exact faithful.wired index m found
  sound := faithful.sound
  known selection member := by
    rw [stores.engines]
    exact faithful.known selection member
  cached cache key engine := by
    rw [stores.get?]
    exact faithful.cached cache key engine

theorem select (faithful : Faithful s) {id : ManagerId} (there : id.index < s.host.managers.size)
    (context : Context) : Faithful (s.select id context) := by
  unfold SelectionHistory.select
  have wired := faithful.wired.present there
  rcases selectEngine_cases s.host id context.policy context.cacheKey wired with
    ⟨engine, reuse, found, nothing, selects⟩ | ⟨_, requests, outcome, stores⟩
  · rw [nothing, selects, clearings_nil, List.append_nil, chosen, reuse]
    exact faithful.select_cached rfl rfl found
  · have serves := serves_requestEngine s.host id (.ofPolicy context.policy)
    have grows := grows_requestEngine s.host id (.ofPolicy context.policy)
    have requested := faithful.serve serves grows.size
    rw [requests, outcome]
    cases made : s.host.requestEngine id (.ofPolicy context.policy) with
    | mk result middle =>
        rw [made] at requested stores
        cases result with
        | error e =>
            have kept := requested.keep_of_error stores
            rwa [← List.append_nil (s.log ++ _)] at kept
        | ok engine =>
            have new := new_requestEngine made
            refine requested.select_new rfl ?_ new.2 stores
            rintro other member same
            rw [selections_append, clearings, selections_cleared, List.append_nil] at member
            have old := faithful.known other member
            rw [same] at old
            exact Nat.not_lt_of_ge new.1 old

theorem acquire (faithful : Faithful s) {id : ManagerId} (there : id.index < s.host.managers.size)
    (context : Context) : Faithful (s.acquire id context) := by
  have selected := faithful.select there context
  unfold SelectionHistory.acquire
  cases selects : s.host.selectEngine id context.policy context.cacheKey with
  | mk result middle =>
      have host : (s.select id context).host = middle := congrArg Prod.snd selects
      cases result with
      | error e =>
          have nothing : s.host.setupRequests id context = [] := by
            rw [setupRequests, selects]
          rw [acquire_of_error selects, nothing, clearings_nil, List.append_nil, ← host]
          exact selected
      | ok choice =>
          obtain ⟨engine, cached⟩ := choice
          obtain ⟨size, serves⟩ := serves_acquire selects
          rw [← host] at size serves
          exact selected.serve serves (Nat.le_of_eq size.symm)

theorem clearEngines (faithful : Faithful s) (id : ManagerId) :
    Faithful ⟨(s.host.clearEngines id).2, s.log ++ [.cleared (s.host.manager id).cache]⟩ := by
  have sizes : (s.host.clearEngines id).2.caches.size = s.host.caches.size := by
    simp [Host.clearEngines, alterCache]
  refine faithful.clear [(s.host.manager id).cache] ?_ (Nat.le_refl _) fun other => ?_
  · intro index m found
    rw [sizes]
    exact faithful.wired index m found
  · simp only [List.mem_singleton]
    exact entries_reset s.host (s.host.manager id).cache other

theorem step (faithful : Faithful s) (taken : Step s t) : Faithful t := by
  cases taken with
  | acquire id context there => exact faithful.acquire there context
  | release invocation =>
      have released := faithful.serve (serves_release s.host invocation)
        (Nat.le_of_eq (size_engines_release s.host invocation).symm)
      rwa [clearings_nil, List.append_nil] at released
  | clearEngines id => exact faithful.clearEngines id
  | script mayPause engine stack action =>
      exact faithful.serve (serves_advance s.host mayPause engine stack action)
        (Nat.le_of_eq (Host.runsOn_advance s.host engine mayPause stack action).size.symm)
  | other apart => exact faithful.apart apart

end Faithful

theorem Run.faithful {start : Host} (wired : Wired start)
    (empty : ∀ id, (start.cache id).entries = []) (run : Run start s) : Faithful s := by
  induction run with
  | start =>
      refine ⟨wired, .nil, fun _ member => (nomatch member), fun cache key engine => ?_⟩
      rw [EngineCache.get?_of_nil (empty cache)]
      constructor
      · intro found
        cases found
      · rintro ⟨earlier, event, later, split, _⟩
        simp at split
  | step _ taken ih => exact ih.step taken

/-- Scripts can read whether the engine of an invocation came from the cache, unless there is a
global of that name, which they read instead. -/
def TellsCached (h : Host) (invocation : Invocation) : Prop :=
  InjectionHistory.Reads h invocation.engine .cachedEngine (· = .boolean invocation.cached)

theorem tellsCached_of_shows {context : Context} {invocation : Invocation}
    {manager? : Option ManagerId}
    (shows_ : InjectionHistory.Shows h invocation.engine context invocation.cached manager?) :
    TellsCached h invocation := by
  obtain ⟨_, _, _, reads⟩ := shows_
  exact reads .cachedEngine

/-- What an acquisition selects is told by what has been selected before. -/
structure Follows (s : SelectionHistory) (id : ManagerId) (context : Context) : Prop where
  served : (∃ engine,
      (s.host.selectEngine id context.policy context.cacheKey).1 = .ok (engine, true)) ↔
    context.policy = .reuse ∧ Provided (s.host.manager id).cache context.cacheKey s.log
  latest : ∀ engine,
    (s.host.selectEngine id context.policy context.cacheKey).1 = .ok (engine, true) →
      Latest (s.host.manager id).cache context.cacheKey engine s.log
  new : ∀ engine,
    (s.host.selectEngine id context.policy context.cacheKey).1 = .ok (engine, false) →
      ∀ other ∈ selections s.log, other.engine ≠ engine
  told : ∀ invocation after, s.host.acquire id context = (.ok invocation, after) →
    ∃ selected,
      s.host.selectEngine id context.policy context.cacheKey =
        (.ok (invocation.engine, invocation.cached), selected) ∧
      (Scope.Orderly (selected.heap invocation.engine) →
        TellsCached after invocation)

/-- No two keys share an engine, and no engine that is made for one use is selected again. -/
structure Separate (s : SelectionHistory) : Prop where
  cached : ∀ cache key engine,
    (s.host.cache cache).get? key = some engine ↔ Latest cache key engine s.log
  keys : ∀ one ∈ selections s.log, ∀ other ∈ selections s.log,
    one.engine = other.engine → one.cache = other.cache ∧ one.key = other.key
  once : ∀ one ∈ selections s.log, one.policy.usesCache = false →
    (selections s.log).countP (fun other => other.engine == one.engine) = 1 ∧
      ∀ cache key, (s.host.cache cache).get? key ≠ some one.engine

theorem Faithful.selects (faithful : Faithful s) {id : ManagerId}
    (there : id.index < s.host.managers.size) (policy : Policy) (key : CacheKey) :
    (policy = .reuse ∧ ∃ engine, (s.host.cacheOf id).get? key = some engine ∧
      s.host.selectEngine id policy key = (.ok (engine, true), s.host)) ∨
    (policy = .reuse → (s.host.cacheOf id).get? key = none) ∧
      (s.host.selectEngine id policy key).1 =
        (s.host.requestEngine id (.ofPolicy policy)).1.map (·, false) := by
  by_cases missing : policy = .reuse → (s.host.cacheOf id).get? key = none
  · have wired := faithful.wired.present there
    rw [← (serves_requestEngine s.host id (.ofPolicy policy)).caches] at wired
    exact .inr ⟨missing, (selectEngine_of_missing missing wired).1⟩
  · obtain ⟨rfl, found⟩ := Classical.not_imp.mp missing
    obtain ⟨engine, found⟩ := Option.ne_none_iff_exists'.mp found
    exact .inl ⟨rfl, engine, found, selectEngine_of_found found⟩

theorem Faithful.follows (faithful : Faithful s) {id : ManagerId}
    (there : id.index < s.host.managers.size) (context : Context) : Follows s id context := by
  have selects := faithful.selects there context.policy context.cacheKey
  refine ⟨?_, ?_, ?_, ?_⟩
  · rw [← exists_latest]
    rcases selects with ⟨reuse, engine, found, outcome⟩ | ⟨missing, outcome⟩
    · exact iff_of_true ⟨engine, by rw [outcome]⟩
        ⟨reuse, engine, (faithful.cached ..).mp found⟩
    · refine iff_of_false ?_ ?_
      · rintro ⟨engine, served⟩
        rw [outcome] at served
        cases made : (s.host.requestEngine id (.ofPolicy context.policy)).1 <;>
          simp [made, Except.map] at served
      · rintro ⟨reuse, engine, latest⟩
        have found := (faithful.cached ..).mpr latest
        rw [show s.host.cache (s.host.manager id).cache = s.host.cacheOf id from rfl,
          missing reuse] at found
        cases found
  · intro engine served
    rcases selects with ⟨_, other, found, outcome⟩ | ⟨_, outcome⟩
    · rw [outcome] at served
      cases served
      exact (faithful.cached ..).mp found
    · rw [outcome] at served
      cases made : (s.host.requestEngine id (.ofPolicy context.policy)).1 <;>
        simp [made, Except.map] at served
  · rintro engine new other member same
    rcases selects with ⟨_, _, _, outcome⟩ | ⟨_, outcome⟩
    · rw [outcome] at new
      cases new
    · rw [outcome] at new
      cases made : s.host.requestEngine id (.ofPolicy context.policy) with
      | mk result middle =>
          rw [made] at new
          cases result with
          | error e => cases new
          | ok fresh =>
              cases new
              have old := faithful.known other member
              rw [same] at old
              exact Nat.not_lt_of_ge (new_requestEngine made).1 old
  · intro invocation after acquires
    obtain ⟨selected, chosen⟩ := exists_of_acquire acquires
    exact ⟨selected, chosen, fun orderly =>
      tellsCached_of_shows (InjectionHistory.shows_of_acquire chosen orderly acquires)⟩

theorem Faithful.separate (faithful : Faithful s) : Separate s where
  cached := faithful.cached
  keys one first other second same := by
    obtain ⟨cache, key, _⟩ := faithful.sound.fit one first other second same
    exact ⟨cache, key⟩
  once one member uncached := by
    refine ⟨faithful.sound.selected_once one member uncached, fun cache key found => ?_⟩
    exact faithful.sound.not_latest member uncached ((faithful.cached cache key _).mp found)

/-- Over every run of acquisitions, releases, clearings and scripts: an acquisition under reuse is
served from the cache exactly if an engine has been made for its key since the cache was emptied,
and then by the latest one; every other acquisition gets an engine that none before has got. Scripts
can read which of the two it was, where none of them has got in the way of how scopes are looked up
or given a global the name of the flag. -/
theorem selections_follow_history {start : Host} (wired : Wired start)
    (empty : ∀ id, (start.cache id).entries = []) (run : Run start s) :
    (∀ id context, id.index < s.host.managers.size → Follows s id context) ∧ Separate s ∧
      ∀ t : InjectionHistory, InjectionHistory.Run true ⟨start, []⟩ t → t.host = s.host →
        ∀ id context, InjectionHistory.Admits true t id context → ∀ invocation after,
          s.host.acquire id context = (.ok invocation, after) → TellsCached after invocation := by
  have faithful := run.faithful wired empty
  refine ⟨fun _ context there => faithful.follows there context, faithful.separate, ?_⟩
  intro t injections same id context admits invocation after acquires
  rw [← same] at acquires
  exact tellsCached_of_shows
    ((InjectionHistory.coherent_of_run injections).shows_acquire admits acquires)

theorem wired_oneManager : Wired InvocationHistory.oneManager := by
  intro index m found
  cases index with
  | zero =>
      cases found
      decide
  | succ index => cases found

theorem entries_oneManager (id : CacheId) : (InvocationHistory.oneManager.cache id).entries = [] := by
  obtain ⟨index⟩ := id
  cases index <;> rfl

/-- A first engine, and a second one after the cache has been emptied. -/
def remade : SelectionHistory :=
  let first := (⟨InvocationHistory.oneManager, []⟩ : SelectionHistory).acquire ⟨0⟩
    (InvocationHistory.toolContext 0 "first")
  let emptied : SelectionHistory :=
    ⟨(first.host.clearEngines ⟨0⟩).2, first.log ++ [.cleared (first.host.manager ⟨0⟩).cache]⟩
  emptied.acquire ⟨0⟩ (InvocationHistory.toolContext 1 "second")

/-- The same host, with its injections. -/
def remadeInjections : InjectionHistory :=
  let first := (⟨InvocationHistory.oneManager, []⟩ : InjectionHistory).acquire ⟨0⟩
    (InvocationHistory.toolContext 0 "first")
  (⟨(first.host.clearEngines ⟨0⟩).2, first.log⟩ : InjectionHistory).acquire ⟨0⟩
    (InvocationHistory.toolContext 1 "second")

theorem host_acquire (t : InjectionHistory) (id : ManagerId) (context : Context) :
    (t.acquire id context).host = (t.host.acquire id context).2 := by
  unfold InjectionHistory.acquire
  split <;> simp_all

theorem host_remadeInjections : remadeInjections.host = remade.host := by
  simp only [remadeInjections, remade, SelectionHistory.acquire, host_acquire]

/-- To the engines it makes no difference that a cache is emptied. -/
theorem step_clearEngines (t : InjectionHistory) (id : ManagerId) :
    InjectionHistory.Step true t ⟨(t.host.clearEngines id).2, t.log⟩ :=
  .script ⟨0⟩ ⟨rfl, fun _ _ => rfl, rfl, rfl, rfl, fun _ _ known => known⟩ (Heap.Steady.refl _ _)

theorem run_remadeInjections :
    InjectionHistory.Run true ⟨InvocationHistory.oneManager, []⟩ remadeInjections := by
  have first : InjectionHistory.Run true ⟨InvocationHistory.oneManager, []⟩ _ :=
    InjectionHistory.Run.refl.step (.acquire ⟨0⟩ (InvocationHistory.toolContext 0 "first")
      (InjectionHistory.admits_of_bare rfl (by decide +kernel)))
  exact (first.step (step_clearEngines _ ⟨0⟩)).step
    (.acquire ⟨0⟩ (InvocationHistory.toolContext 1 "second")
      (InjectionHistory.admits_of_bare (by decide +kernel) (by decide +kernel)))

/-- The engine that serves is the one that was made after the cache was emptied. -/
theorem selections_follow_history_after_clear :
    Wired InvocationHistory.oneManager ∧
      (∀ id, (InvocationHistory.oneManager.cache id).entries = []) ∧
      Run InvocationHistory.oneManager remade ∧
      (remade.host.selectEngine ⟨0⟩ .reuse ⟨"tools"⟩).1.toOption = some (⟨1⟩, true) ∧
      Latest ⟨0⟩ ⟨"tools"⟩ ⟨1⟩ remade.log ∧
      ∃ invocation after, remade.host.acquire ⟨0⟩ (InvocationHistory.toolContext 2 "third") =
          (.ok invocation, after) ∧
        after.binding invocation.engine .cachedEngine = (.ok (.boolean true), after) := by
  have run : Run InvocationHistory.oneManager remade :=
    ((Run.start.step (.acquire ⟨0⟩ (InvocationHistory.toolContext 0 "first") (by decide))).step
      (.clearEngines ⟨0⟩)).step
        (.acquire ⟨0⟩ (InvocationHistory.toolContext 1 "second") (by decide +kernel))
  have facts : (remade.host.selectEngine ⟨0⟩ .reuse ⟨"tools"⟩).1.toOption = some (⟨1⟩, true) ∧
      0 < remade.host.managers.size ∧ (remade.host.manager ⟨0⟩).cache = ⟨0⟩ ∧
      (remade.host.acquire ⟨0⟩ (InvocationHistory.toolContext 2 "third")).1.toOption.map
        (fun invocation => (invocation.cached, invocation.engine)) = some (true, ⟨1⟩) ∧
      (InjectionHistory.hider (remade.host.acquire ⟨0⟩ (InvocationHistory.toolContext 2 "third")).2
        ⟨1⟩ .cachedEngine).isNil = true := by
    decide +kernel
  have admits : remadeInjections.Admits true ⟨0⟩ (InvocationHistory.toolContext 2 "third") :=
    InjectionHistory.admits_of_bare (by decide +kernel) (by decide +kernel)
  have injections := run_remadeInjections
  have same := host_remadeInjections
  generalize remadeInjections = t at admits injections same
  generalize remade = s at run facts same ⊢
  obtain ⟨selects, there, cache, acquires, unhidden⟩ := facts
  obtain ⟨invocation, succeeds, described⟩ := Option.map_eq_some_iff.mp acquires
  obtain ⟨cached, engine⟩ := Prod.mk.inj described
  have acquires : s.host.acquire ⟨0⟩ (InvocationHistory.toolContext 2 "third") =
      (.ok invocation, _) := Prod.ext (eq_ok_of_toOption succeeds) rfl
  obtain ⟨follows, _, told⟩ :=
    selections_follow_history wired_oneManager entries_oneManager run
  have latest := (follows ⟨0⟩ (InvocationHistory.toolContext 2 "third") there).latest ⟨1⟩
    (eq_ok_of_toOption selects)
  obtain ⟨flag, read, tells⟩ := told t injections same ⟨0⟩ _ admits invocation _ acquires
  rw [cache] at latest
  rw [engine, if_pos unhidden, cached] at tells
  rw [tells] at read
  exact ⟨wired_oneManager, entries_oneManager, run, selects, latest, invocation, _, acquires, read⟩

/-- A host with a manager whose engines are prepared by an assignment to the name of the flag. -/
def flagPrepared : Host :=
  { InvocationHistory.oneManager with
    managers := #[{ cache := ⟨0⟩, factory := { initializers := ["__cachedengine__ = 5"] } }] }

/-- The engine is served from the cache, but scripts read the global instead of the flag. -/
theorem prepared_global_hides_flag :
    let first := flagPrepared.acquire ⟨0⟩ (InvocationHistory.toolContext 0 "first")
    let second := first.2.acquire ⟨0⟩ (InvocationHistory.toolContext 1 "second")
    first.1.toOption.map (fun invocation => (invocation.engine, invocation.cached)) =
        some (⟨0⟩, false) ∧
      second.1.toOption.map (fun invocation => (invocation.engine, invocation.cached)) =
        some (⟨0⟩, true) ∧
      ((second.2.binding ⟨0⟩ .cachedEngine).1.toOption.map Value.hostTypeName) =
        some "integer" := by
  decide +kernel

end SelectionHistory

end ScriptHost
