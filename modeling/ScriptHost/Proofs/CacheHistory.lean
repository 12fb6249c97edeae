import ScriptHost.Proofs.CachedEngines
import ScriptHost.Proofs.LastEvent

/-!
# Histories of a cache

What goes into a cache stays there until a later engine for its key or a reset hands it back, so
nothing is lost and nothing is handed back twice.
-/

set_option autoImplicit false

namespace ScriptHost

namespace CacheHistory

variable {ε : Type}

inductive Command (ε : Type) where
  | put (key : CacheKey) (engine : EngineId)
  | getOrCreate (key : CacheKey) (create : Unit → Except ε EngineId)
  | reset

/-- What was asked of a cache, and its answer; with it, what there was for a key before, and what
would be created for it. -/
inductive Event (ε : Type) where
  | put (key : CacheKey) (engine : EngineId) (previous? : Option EngineId)
  | getOrCreate (key : CacheKey) (held? : Option EngineId) (created : Except ε EngineId)
      (answer : Except ε (EngineId × Bool))
  | reset (discarded : List (String × EngineId))

namespace Event

/-- The pair that an event is to store: an engine that is put, or that is created for a key for
which there was none. The answer has no part in it. -/
def stored : Event ε → List (String × EngineId)
  | put key engine _ | getOrCreate key none (.ok engine) _ => [(key.text, engine)]
  | getOrCreate _ (some _) _ _ | getOrCreate _ none (.error _) _ | reset _ => []

/-- The pairs that an event hands back: the one that is replaced under its key, or all of them. -/
def returned : Event ε → List (String × EngineId)
  | put key _ previous? => previous?.toList.map (key.text, ·)
  | getOrCreate .. => []
  | reset discarded => discarded

def isReset : Event ε → Bool
  | reset _ => true
  | put .. | getOrCreate .. => false

/-- What is asked for is what there was, with the word that it comes from the cache, or else what is
created, failure included. -/
def Answered : Event ε → Prop
  | getOrCreate _ (some engine) _ answer => answer = .ok (engine, true)
  | getOrCreate _ none created answer => answer = created.map (·, false)
  | put .. | reset _ => True

end Event

def step (cache : EngineCache) : Command ε → Event ε × EngineCache
  | .put key engine =>
    let (previous?, cache) := cache.put key engine
    (.put key engine previous?, cache)
  | .getOrCreate key create =>
    let (answer, after) := cache.getOrCreate key create
    (.getOrCreate key (cache.get? key) (create ()) answer, after)
  | .reset =>
    let (discarded, cache) := cache.reset
    (.reset discarded, cache)

/-- The events of a cache under commands, after earlier ones, and what becomes of it. -/
def runFrom (events : List (Event ε)) (cache : EngineCache) :
    List (Command ε) → List (Event ε) × EngineCache
  | [] => (events, cache)
  | command :: commands =>
    let (event, cache) := step cache command
    runFrom (events ++ [event]) cache commands

/-- The events of a new cache under commands, and what becomes of it. -/
def run (commands : List (Command ε)) : List (Event ε) × EngineCache := runFrom [] {} commands

/-- An engine is the one that was stored last for a key since the last reset. -/
def Latest (events : List (Event ε)) (key : CacheKey) (engine : EngineId) : Prop :=
  History.Last (fun event => (key.text, engine) ∈ event.stored)
    (fun event => event.isReset = false ∧ ∀ newer, (key.text, newer) ∉ event.stored) events

/-- An event only hands back what was stored before it and has not been handed back yet. -/
def Timely (events : List (Event ε)) : Prop :=
  ∀ earlier event later, events = earlier ++ event :: later →
    ∃ kept, (earlier.flatMap Event.stored).Perm
      (event.returned ++ kept ++ earlier.flatMap Event.returned)

/-- All that observers of a cache tell about it is the same. -/
structure Coherent (cache : EngineCache) : Prop where
  ascending : cache.keys.Pairwise (· < ·)
  contains : ∀ key : CacheKey, key.text ∈ cache.keys ↔ cache.contains key = true
  get? : ∀ key : CacheKey, key.text ∈ cache.keys ↔ ∃ engine, cache.get? key = some engine
  size : cache.size = cache.keys.length
  isEmpty : cache.isEmpty = true ↔ cache.keys = []
  reset : (cache.reset.1.map Prod.fst).Perm cache.keys ∧
    ∀ pair ∈ cache.reset.1, cache.get? ⟨pair.1⟩ = some pair.2

/-- What a history tells about the cache that it has led to. -/
structure Accounts (events : List (Event ε)) (cache : EngineCache) : Prop where
  ascending : Ordered.Ascending cache.entries
  conserved : (events.flatMap Event.stored).Perm (cache.entries ++ events.flatMap Event.returned)
  timely : Timely events
  latest : ∀ key engine, cache.get? key = some engine ↔ Latest events key engine
  answered : ∀ event ∈ events, event.Answered

variable {events : List (Event ε)} {cache : EngineCache} {key : CacheKey} {engine : EngineId}

theorem Timely.append {event : Event ε} (timely : Timely events)
    (last : ∃ kept, (events.flatMap Event.stored).Perm
      (event.returned ++ kept ++ events.flatMap Event.returned)) : Timely (events ++ [event]) := by
  intro earlier found later split
  rcases List.eq_nil_or_concat later with rfl | ⟨front, final, rfl⟩
  · obtain ⟨rfl, same⟩ := List.append_inj' split rfl
    cases same
    exact last
  · rw [List.concat_eq_append, ← List.cons_append, ← List.append_assoc] at split
    exact timely earlier found front (List.append_inj' split rfl).1

namespace Accounts

theorem start : Accounts ([] : List (Event ε)) {} where
  ascending := List.Pairwise.nil
  conserved := .refl _
  timely earlier event later split := by simp at split
  latest key engine := by
    constructor
    · intro found
      cases found
    · intro latest
      exact absurd latest History.not_last_nil
  answered event member := by cases member

theorem answered_append (accounts : Accounts events cache) {event : Event ε}
    (answered : event.Answered) : ∀ other ∈ events ++ [event], other.Answered := by
  intro other member
  rcases List.mem_append.mp member with old | new
  · exact accounts.answered other old
  · rw [List.mem_singleton.mp new]
    exact answered

/-- A pair goes into the cache, and the one that was there for its key comes out. -/
theorem store (accounts : Accounts events cache) {event : Event ε}
    (stored : event.stored = [(key.text, engine)])
    (returned : event.returned = (cache.get? key).toList.map (key.text, ·))
    (quiet : event.isReset = false) (answered : event.Answered) :
    Accounts (events ++ [event]) (cache.put key engine).2 where
  ascending := accounts.ascending.insert key.text engine
  conserved := by
    have inserted := accounts.ascending.perm_insert key.text engine
    rw [List.flatMap_append, List.flatMap_append, List.flatMap_singleton, List.flatMap_singleton,
      stored, returned]
    calc
      events.flatMap Event.stored ++ [(key.text, engine)]
      _ |>.Perm ((key.text, engine) :: events.flatMap Event.stored) :=
        List.perm_append_singleton ..
      _ |>.Perm ((key.text, engine) :: cache.entries ++ events.flatMap Event.returned) :=
        accounts.conserved.cons _
      _ |>.Perm (Ordered.insert key.text engine cache.entries ++
            (Ordered.find? key.text cache.entries).toList.map (key.text, ·) ++
              events.flatMap Event.returned) := inserted.append_right _
      _ |>.Perm _ := by
        rw [List.append_assoc]
        exact List.perm_append_comm.append_left _
  timely := by
    obtain ⟨kept, held⟩ := accounts.ascending.perm_find? key.text
    refine accounts.timely.append ⟨kept, accounts.conserved.trans ?_⟩
    rw [returned]
    exact held.append_right _
  latest other newer := by
    rw [Latest, History.last_append_singleton, ← Latest, ← accounts.latest, stored, quiet,
      EngineCache.get?_put]
    by_cases same : other = key
    · subst same
      simp [eq_comm]
    · have different : other.text ≠ key.text := fun equal => same (CacheKey.eq_of_text equal)
      simp [same, different]
  answered := accounts.answered_append answered

/-- An event that stores nothing and hands nothing back leaves the account as it is. -/
theorem pass (accounts : Accounts events cache) {after : EngineCache} {event : Event ε}
    (stored : event.stored = []) (returned : event.returned = []) (quiet : event.isReset = false)
    (answered : event.Answered) (same : after.entries = cache.entries) :
    Accounts (events ++ [event]) after where
  ascending := same ▸ accounts.ascending
  conserved := by
    rw [List.flatMap_append, List.flatMap_append, List.flatMap_singleton, List.flatMap_singleton,
      stored, returned, List.append_nil, List.append_nil, same]
    exact accounts.conserved
  timely := accounts.timely.append ⟨cache.entries, by rw [returned]; exact accounts.conserved⟩
  latest key engine := by
    rw [Latest, History.last_append_singleton, ← Latest, ← accounts.latest, stored, quiet,
      EngineCache.get?_of_entries same]
    simp
  answered := accounts.answered_append answered

theorem reset (accounts : Accounts events cache) :
    Accounts (events ++ [.reset cache.reset.1]) cache.reset.2 where
  ascending := List.Pairwise.nil
  conserved := by
    rw [List.flatMap_append, List.flatMap_append, List.flatMap_singleton, List.flatMap_singleton]
    exact (List.append_nil _).symm ▸ accounts.conserved.trans List.perm_append_comm
  timely := accounts.timely.append ⟨[], by rw [List.append_nil]; exact accounts.conserved⟩
  latest key engine := by
    rw [Latest, History.last_append_singleton]
    constructor
    · intro found
      cases found
    · rintro (stored | ⟨⟨kept, _⟩, _⟩)
      · cases stored
      · cases kept
  answered := accounts.answered_append trivial

theorem step (accounts : Accounts events cache) (command : Command ε) :
    Accounts (events ++ [(CacheHistory.step cache command).1]) (CacheHistory.step cache command).2 := by
  cases command with
  | put key engine => exact accounts.store rfl rfl rfl trivial
  | reset => exact accounts.reset
  | getOrCreate key create =>
      rcases cache.getOrCreate_cases key create with
        ⟨engine, found, served⟩ | ⟨missing, ⟨engine, created, made⟩ | ⟨e, created, failed⟩⟩
      · simp only [CacheHistory.step, served, found]
        exact accounts.pass rfl rfl rfl rfl rfl
      · simp only [CacheHistory.step, made, missing, created]
        exact accounts.store rfl (by rw [missing]; rfl) rfl rfl
      · simp only [CacheHistory.step, failed, missing, created]
        exact accounts.pass rfl rfl rfl rfl rfl

theorem coherent (accounts : Accounts events cache) : Coherent cache where
  ascending := accounts.ascending
  contains key := accounts.ascending.mem_keys_iff
  get? key := (accounts.ascending.mem_keys_iff).trans Option.isSome_iff_exists
  size := by simp [EngineCache.size, EngineCache.keys, Ordered.keys]
  isEmpty := by simp [EngineCache.isEmpty, EngineCache.size, EngineCache.keys, Ordered.keys]
  reset := ⟨.refl _, fun pair member =>
    (accounts.ascending.find?_eq_some_iff pair.1 pair.2).mpr member⟩

end Accounts

theorem Accounts.runFrom (accounts : Accounts events cache) (commands : List (Command ε)) :
    Accounts (CacheHistory.runFrom events cache commands).1
      (CacheHistory.runFrom events cache commands).2 := by
  induction commands generalizing events cache with
  | nil => exact accounts
  | cons command commands ih => exact ih (accounts.step command)

/-- Whatever is done with a new cache, the pairs that were ever to be stored are those that are in
the cache now and those that were handed back, each as often as it was stored. What a cache gives
for a key was stored last for it, and all its observers agree. -/
theorem engines_conserved (commands : List (Command ε)) :
    let events := (run commands).1
    let cache := (run commands).2
    (events.flatMap Event.stored).Perm (cache.entries ++ events.flatMap Event.returned) ∧
      Timely events ∧
      (∀ key engine, cache.get? key = some engine ↔ Latest events key engine) ∧ Coherent cache ∧
      ∀ event ∈ events, event.Answered := by
  have accounts : Accounts (run commands).1 (run commands).2 := Accounts.start.runFrom commands
  exact ⟨accounts.conserved, accounts.timely, accounts.latest, accounts.coherent,
    accounts.answered⟩

end CacheHistory

end ScriptHost
