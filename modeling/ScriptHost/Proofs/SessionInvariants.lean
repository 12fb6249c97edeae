import ScriptHost.Proofs.Sessions

/-!
# What holds in a session

Engines are handed out for the keys under which the cache has them, and what is handed out is
there. Every move keeps that.
-/

set_option autoImplicit false

namespace ScriptHost

open Lua

namespace Session

variable {m : ManagerId} {plan : Nat → Context} {cache : CacheId} {s : Session} {n : Nat}
  {slot : Slot}

/-! ## Handouts -/

theorem mem_handouts {h : Host} {context : Context} {x : Handout}
    (member : x ∈ handouts h m n context) :
    ∃ cached, (h.selectEngine m context.policy context.cacheKey).1 = .ok (x.engine, cached) ∧
      x.number = n ∧ x.results = context.results ∧
      ∀ id, x.context? = some id →
        id = ⟨h.contexts.size⟩ ∧ ((h.acquire m context).2.context? id).isSome = true := by
  unfold handouts at member
  split at member
  · next engine cached chosen =>
      obtain rfl := List.mem_singleton.mp member
      refine ⟨cached, chosen, rfl, rfl, fun id named => ?_⟩
      obtain ⟨context, made, rfl⟩ := Option.map_eq_some_iff.mp named
      exact ⟨rfl, Option.isSome_of_mem made⟩
  · cases member

theorem exists_handout {h : Host} {context : Context} {engine : EngineId} {cached : Bool}
    (chosen : (h.selectEngine m context.policy context.cacheKey).1 = .ok (engine, cached)) :
    ∃ x ∈ handouts h m n context, x.engine = engine ∧ x.number = n := by
  unfold handouts
  rw [chosen]
  exact ⟨_, List.mem_singleton.mpr rfl, rfl, rfl⟩

/-- While nothing is handed out, no engine is set up. -/
theorem within_of_handouts {h : Host} {context : Context}
    {allows : EngineId → Request → Prop} {contexts : ContextId → Prop} {results : ResultsId → Prop}
    (allowed : ∀ x ∈ handouts h m n context, ∀ request ∈ h.setupRequests m context,
      allows x.engine request)
    (within : ∀ engine cached, (h.selectEngine m context.policy context.cacheKey).1 =
      .ok (engine, cached) → ∀ request, allows engine request → request.Within contexts results) :
    ∀ request ∈ h.setupRequests m context, request.Within contexts results := by
  intro request member
  cases chosen : (h.selectEngine m context.policy context.cacheKey).1 with
  | error e =>
      rw [Host.setupRequests_of_error chosen] at member
      cases member
  | ok choice =>
      obtain ⟨engine, cached⟩ := choice
      obtain ⟨x, here, own, _⟩ := exists_handout (n := n) chosen
      exact within engine cached chosen request (own ▸ allowed x here request member)

/-! ## One session -/

/-- What holds in a session: the cache has an engine for a key only if it was handed out for that
key, and what was handed out is there. -/
structure Sound (m : ManagerId) (plan : Nat → Context) (cache : CacheId) (s : Session) : Prop where
  wired : (s.host.manager m).cache = cache
  inUse : cache.index < s.host.caches.size
  reliable : ∀ count, (s.host.manager m).factory.outage.covers count = false
  results : ∀ x ∈ s.log, x.results = (plan x.number).results
  live : ∀ n invocation, s.live n = some invocation →
    ∃ x ∈ s.log, x.number = n ∧ x.engine = invocation.engine
  entries : ∀ key engine, (s.host.cache cache).get? key = some engine →
    ∃ x ∈ s.log, x.engine = engine ∧ (plan x.number).policy.usesCache = true ∧
      (plan x.number).cacheKey = key
  present : ∀ x ∈ s.log, x.engine.index < s.host.engines.size
  contexts : ∀ x ∈ s.log, ∀ id, x.context? = some id → (s.host.context? id).isSome = true

/-- Of what can be shared, only entries of a cache are. -/
def entriesOnly (cache : CacheId) (keys : CacheKey → Prop) : Shared :=
  ⟨cache, keys, fun _ => False, fun _ => False, fun _ => False⟩

theorem acquire_snd (s : Session) (n : Nat) (slot : Slot) :
    (s.acquire m plan n slot).2 =
      ⟨((s.host.skipTo slot).acquire m (plan n)).2,
        fun i => if i = n then ((s.host.skipTo slot).acquire m (plan n)).1.toOption else s.live i,
        s.log ++ handouts (s.host.skipTo slot) m n (plan n)⟩ :=
  rfl

theorem acquire_fst (s : Session) (n : Nat) (slot : Slot) :
    (s.acquire m plan n slot).1 =
      (s.acquire m plan n slot).2.observe n
        (.acquired ((s.host.skipTo slot).acquire m (plan n)).1)
        (((s.host.skipTo slot).acquire m (plan n)).1.toOption.map Invocation.engine) :=
  rfl

section

variable (sound : Sound m plan cache s)

include sound

/-- What holds stays so if nothing is lost and what is added is in order. -/
theorem Sound.carry {after : Host} (live : Nat → Option Invocation) (more : List Handout)
    (spares : Host.Spares (entriesOnly cache fun _ => False) s.host after)
    (results : ∀ x ∈ more, x.results = (plan x.number).results)
    (lives : ∀ n invocation, live n = some invocation →
      ∃ x ∈ s.log ++ more, x.number = n ∧ x.engine = invocation.engine)
    (entries : ∀ key engine, (after.cache cache).get? key = some engine →
      (s.host.cache cache).get? key = some engine ∨
        ∃ x ∈ more, x.engine = engine ∧ (plan x.number).policy.usesCache = true ∧
          (plan x.number).cacheKey = key)
    (present : ∀ x ∈ more, x.engine.index < after.engines.size)
    (contexts : ∀ x ∈ more, ∀ id, x.context? = some id → (after.context? id).isSome = true) :
    Sound m plan cache ⟨after, live, s.log ++ more⟩ where
  wired := (Host.cache_of_setup (Host.setup_manager spares.managers m)).trans sound.wired
  inUse := by
    dsimp only
    rw [spares.caches]
    exact sound.inUse
  reliable := by
    dsimp only
    rw [Host.factory_of_setup (Host.setup_manager spares.managers m)]
    exact sound.reliable
  results x member := (List.mem_append.mp member).elim (sound.results x) (results x)
  live := lives
  entries key engine found := by
    rcases entries key engine found with old | ⟨x, member, facts⟩
    · obtain ⟨x, member, facts⟩ := sound.entries key engine old
      exact ⟨x, List.mem_append_left _ member, facts⟩
    · exact ⟨x, List.mem_append_right _ member, facts⟩
  present x member := (List.mem_append.mp member).elim
    (fun old => Nat.lt_of_lt_of_le (sound.present x old) spares.engineCount) (present x)
  contexts x member id named := by
    rcases List.mem_append.mp member with old | new
    · obtain ⟨context, found⟩ := Option.isSome_iff_exists.mp (sound.contexts x old id named)
      rw [spares.contexts id context found]
      rfl
    · exact contexts x new id named

theorem Sound.use {use : Use} (fits : s.Fits m plan (.use n use)) :
    Sound m plan cache (s.use n use).2 := by
  unfold Session.use
  cases found : s.live n with
  | none => exact sound
  | some invocation =>
      have spares : Host.Spares (entriesOnly cache fun _ => True) s.host
          (use.perform s.host invocation).2 :=
        .ofTouches (use.serves_perform s.host invocation)
          (fun request member => (fits invocation found request member).mono (fun _ _ => trivial)
            fun _ _ => id) (use.touches_perform s.host invocation) id
      have quiet : Host.Spares (entriesOnly cache fun _ => False) s.host
          (use.perform s.host invocation).2 :=
        { spares with entries := fun _ known => known.elim }
      have kept := sound.carry (fun i => if i = n then use.leaves invocation else s.live i) [] quiet
        (by simp) ?_ ?_ (by simp) (by simp)
      · rwa [List.append_nil] at kept
      · intro i other lives
        rw [List.append_nil]
        split at lives
        · next same =>
            have own : other = invocation := by
              cases use with
              | release => cases lives
              | _ => exact (Option.some.inj lives).symm
            rw [own, same]
            exact sound.live n invocation found
        · exact sound.live i other lives
      · exact fun key engine has => .inl ((spares.entries key trivial).symm.trans has)

theorem Sound.inUse_skipTo :
    ((s.host.skipTo slot).manager m).cache.index < (s.host.skipTo slot).caches.size :=
  sound.wired ▸ sound.inUse

/-- An engine that is selected has been handed out for the key, or its number is new. -/
theorem Sound.selected {engine : EngineId} {cached : Bool}
    (chosen : ((s.host.skipTo slot).selectEngine m (plan n).policy (plan n).cacheKey).1 =
      .ok (engine, cached)) :
    ((plan n).policy.usesCache = true ∧ ∃ x ∈ s.log, x.engine = engine ∧
        (plan x.number).policy.usesCache = true ∧ (plan x.number).cacheKey = (plan n).cacheKey) ∨
      ∀ x ∈ s.log, x.engine ≠ engine := by
  rcases Host.selected_cases sound.inUse_skipTo (Prod.ext chosen rfl) with
    ⟨reuse, found, _⟩ | ⟨new, _⟩
  · have entry : (s.host.cache cache).get? (plan n).cacheKey = some engine := sound.wired ▸ found
    exact .inl ⟨by rw [reuse]; rfl, sound.entries _ _ entry⟩
  · refine .inr fun x member same => ?_
    have old := sound.present x member
    have size : s.host.engines.size ≤ (s.host.skipTo slot).engines.size :=
      (Host.spares_skipTo (entriesOnly cache fun _ => False) s.host slot).engineCount
    rw [same] at old
    omega

theorem Sound.acquire (fits : s.Fits m plan (.acquire n slot)) :
    Sound m plan cache (s.acquire m plan n slot).2 := by
  obtain ⟨fresh, selecting, preparing⟩ := fits
  have within : ∀ request ∈ (s.host.skipTo slot).setupRequests m (plan n),
      request.Within (fun _ => True) fun _ => True :=
    within_of_handouts preparing fun _ _ _ _ allowed =>
      allowed.mono (fun _ _ => trivial) fun _ _ => trivial
  have acquired : Host.Spares (entriesOnly cache fun _ => False) (s.host.skipTo slot)
      ((s.host.skipTo slot).acquire m (plan n)).2 := by
    refine Host.spares_acquire sound.inUse_skipTo sound.wired (fun _ => id) (fun _ => False.elim)
      (fun _ _ _ => id) ?_ ?_
    · exact fun r member => (selecting r member).mono (fun _ => False.elim) fun _ => False.elim
    · exact fun r member => (within r member).mono (fun _ _ => trivial) fun _ _ => id
  have spares := (Host.spares_skipTo (entriesOnly cache fun _ => False) s.host slot).trans acquired
  have entries := Host.get?_acquire sound.inUse_skipTo selecting within cache
  rw [acquire_snd]
  refine sound.carry _ _ spares ?_ ?_ ?_ ?_ ?_
  · intro x member
    obtain ⟨_, _, rfl, results, _⟩ := mem_handouts member
    exact results
  · intro i invocation lives
    split at lives
    · next same =>
        obtain ⟨selected, selects⟩ := Host.exists_of_acquire
          (Prod.ext (eq_ok_of_toOption lives) rfl)
        obtain ⟨x, member, own, number⟩ := exists_handout (n := n) (congrArg Prod.fst selects)
        exact ⟨x, List.mem_append_right _ member, number.trans same.symm, own⟩
    · obtain ⟨x, member, facts⟩ := sound.live i invocation lives
      exact ⟨x, List.mem_append_left _ member, facts⟩
  -- An entry is as it was, or the engine of this very acquisition has taken its place.
  · intro key engine found
    rw [entries] at found
    cases chosen : ((s.host.skipTo slot).selectEngine m (plan n).policy (plan n).cacheKey).1 with
    | error e =>
        rw [chosen] at found
        exact .inl found
    | ok choice =>
        obtain ⟨made, cached⟩ := choice
        rw [chosen] at found
        dsimp only at found
        split at found
        · next stored =>
            obtain rfl := Option.some.inj found
            obtain ⟨x, member, own, number⟩ := exists_handout (n := n) chosen
            exact .inr ⟨x, member, own, number ▸ stored.1, number ▸ stored.2.2.symm⟩
        · exact .inl found
  · intro x member
    obtain ⟨cached, chosen, _⟩ := mem_handouts member
    have selects : (s.host.skipTo slot).selectEngine m (plan n).policy (plan n).cacheKey =
        (.ok (x.engine, cached), _) := Prod.ext chosen rfl
    rcases Host.selected_cases sound.inUse_skipTo selects with ⟨_, found, _⟩ | ⟨_, made⟩
    · have entry : (s.host.cache cache).get? (plan n).cacheKey = some x.engine :=
        sound.wired ▸ found
      obtain ⟨y, old, own, _⟩ := sound.entries _ _ entry
      exact own ▸ Nat.lt_of_lt_of_le (sound.present y old) spares.engineCount
    · rwa [(Host.serves_acquire selects).1]
  · intro x member id named
    obtain ⟨_, _, _, _, context⟩ := mem_handouts member
    exact (context id named).2

theorem Sound.step {move : Move} (fits : s.Fits m plan move) :
    Sound m plan cache (s.step m plan move).2 := by
  cases move with
  | acquire n slot => exact sound.acquire fits
  | use n use => exact sound.use fits

end

end Session

end ScriptHost
