import ScriptHost.Command
import ScriptHost.Identity
import ScriptHost.Ordered

/-!
# Engine caches

At most one engine for each cache key. A cache comes into being with its first use for writing;
until then it answers like an empty one.
-/

set_option autoImplicit false

namespace ScriptHost

structure EngineCache where
  /-- The engines in ascending order of their keys, once the cache is in use. -/
  entries? : Option (List (String × EngineId)) := none
deriving DecidableEq, Repr, Inhabited

namespace EngineCache

def entries (cache : EngineCache) : List (String × EngineId) := cache.entries?.getD []

def get? (cache : EngineCache) (key : CacheKey) : Option EngineId :=
  Ordered.find? key.text cache.entries

def contains (cache : EngineCache) (key : CacheKey) : Bool := (cache.get? key).isSome

def size (cache : EngineCache) : Nat := cache.entries.length

def isEmpty (cache : EngineCache) : Bool := cache.size == 0

/-- The keys, in ascending order. -/
def keys (cache : EngineCache) : List String := Ordered.keys cache.entries

def isInitialized (cache : EngineCache) : Bool := cache.entries?.isSome

/-- Stores an engine and yields the one that was there. -/
def put (cache : EngineCache) (key : CacheKey) (engine : EngineId) :
    Option EngineId × EngineCache :=
  (cache.get? key, ⟨some (Ordered.insert key.text engine cache.entries)⟩)

/-- Stores an engine that was made because there was none for its key. The cache is in use from
then on, also if no engine could be made. -/
def fill {ε : Type} (cache : EngineCache) (key : CacheKey) :
    Except ε EngineId → Except ε EngineId × EngineCache
  | .ok engine => (.ok engine, (cache.put key engine).2)
  | .error e => (.error e, ⟨some cache.entries⟩)

/-- The engine for a key and true, or else what `create` makes and false. -/
def getOrCreate {ε : Type} (cache : EngineCache) (key : CacheKey)
    (create : Unit → Except ε EngineId) : Except ε (EngineId × Bool) × EngineCache :=
  match cache.get? key with
  | some engine => (.ok (engine, true), cache)
  | none =>
    let (made, cache) := cache.fill key (create ())
    (made.map (·, false), cache)

/-- Empties the cache and yields what was in it. -/
def reset (cache : EngineCache) : List (String × EngineId) × EngineCache :=
  (cache.entries, ⟨some []⟩)

end EngineCache

end ScriptHost
