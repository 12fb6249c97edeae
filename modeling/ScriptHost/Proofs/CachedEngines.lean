import ScriptHost.Cache
import ScriptHost.Proofs.OrderedEntries

/-!
# What a cache holds

A cache is known by its entries: what one operation leaves there, and what is found there after it.
-/

set_option autoImplicit false

namespace ScriptHost

theorem CacheKey.eq_of_text {key other : CacheKey} (same : key.text = other.text) : key = other := by
  cases key
  cases other
  exact congrArg CacheKey.mk same

namespace EngineCache

theorem get?_put (cache : EngineCache) (key other : CacheKey) (engine : EngineId) :
    (cache.put key engine).2.get? other = if other = key then some engine else cache.get? other := by
  cases key with
  | mk key =>
      cases other with
      | mk other =>
          rw [get?, show (cache.put ⟨key⟩ engine).2.entries = Ordered.insert key engine cache.entries
            from rfl, Ordered.find?_insert]
          by_cases same : key = other
          · subst same
            rw [if_pos rfl, if_pos rfl]
          · rw [if_neg same, if_neg fun equal => same (CacheKey.mk.inj equal).symm]
            rfl

theorem get?_of_entries {cache other : EngineCache} (same : cache.entries = other.entries)
    (key : CacheKey) : cache.get? key = other.get? key := by
  rw [get?, get?, same]

theorem get?_of_nil {cache : EngineCache} (empty : cache.entries = []) (key : CacheKey) :
    cache.get? key = none := by
  rw [get?, empty]
  rfl

/-- Where an engine was made because there was none, it goes into the cache like any other. -/
theorem getOrCreate_cases {ε : Type} (cache : EngineCache) (key : CacheKey)
    (create : Unit → Except ε EngineId) :
    (∃ engine, cache.get? key = some engine ∧
      cache.getOrCreate key create = (.ok (engine, true), cache)) ∨
    cache.get? key = none ∧
      ((∃ engine, create () = .ok engine ∧
        cache.getOrCreate key create = (.ok (engine, false), (cache.put key engine).2)) ∨
      ∃ e, create () = .error e ∧
        cache.getOrCreate key create = (.error e, ⟨some cache.entries⟩)) := by
  unfold getOrCreate
  cases found : cache.get? key with
  | some engine => exact .inl ⟨engine, rfl, rfl⟩
  | none =>
      cases made : create () with
      | ok engine => exact .inr ⟨rfl, .inl ⟨engine, rfl, rfl⟩⟩
      | error e => exact .inr ⟨rfl, .inr ⟨e, rfl, rfl⟩⟩

end EngineCache

end ScriptHost
