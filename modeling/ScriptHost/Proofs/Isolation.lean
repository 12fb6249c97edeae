import ScriptHost.Proofs.SessionInvariants

/-!
# Isolation of invocations

Some of the invocations of a session, which share a cache key with no others that use the cache,
observe the same if all others are left out.
-/

set_option autoImplicit false

namespace ScriptHost.Session

open Lua

variable {m : ManagerId} {plan : Nat → Context} {cache : CacheId} {kept : Nat → Bool}
  {s t : Session} {n : Nat} {slot : Slot}

/-! ## Two sessions -/

/-- What a session and one with only some of its invocations have in common. -/
def common (plan : Nat → Context) (cache : CacheId) (kept : Nat → Bool) (log : List Handout) :
    Shared where
  cache
  keys key := ∃ n, kept n = true ∧ (plan n).policy.usesCache = true ∧ (plan n).cacheKey = key
  engines id := ∃ x ∈ log, x.engine = id
  contexts id := ∃ x ∈ log, x.context? = some id
  results id := ∃ n, kept n = true ∧ (plan n).results = id

/-- With an invocation that uses the cache, all that use it under the same key are kept. -/
def Closed (plan : Nat → Context) (kept : Nat → Bool) : Prop :=
  ∀ a b, kept a = true → (plan a).policy.usesCache = true → (plan b).policy.usesCache = true →
    (plan b).cacheKey = (plan a).cacheKey → kept b = true

/-- A session is like another one without the invocations that are not kept. -/
structure Mirrors (plan : Nat → Context) (cache : CacheId) (kept : Nat → Bool) (s t : Session) :
    Prop where
  agree : ∃ lead, Host.Agree (common plan cache kept t.log) lead s.host t.host
  log : t.log = s.log.filter fun x => kept x.number
  apart : ∀ x ∈ s.log, kept x.number = false → ∀ y ∈ t.log, x.engine ≠ y.engine
  live : ∀ n, kept n = true → t.live n = s.live n

section

variable (mirrors : Mirrors plan cache kept s t)

include mirrors

theorem Mirrors.mem_iff {x : Handout} : x ∈ t.log ↔ x ∈ s.log ∧ kept x.number = true := by
  rw [mirrors.log, List.mem_filter]

theorem Mirrors.kept_of_engine {x : Handout} (member : x ∈ s.log)
    (shares : (common plan cache kept t.log).engines x.engine) : kept x.number = true := by
  obtain ⟨y, other, same⟩ := shares
  cases known : kept x.number with
  | true => rfl
  | false => exact absurd same.symm (mirrors.apart x member known y other)

theorem Mirrors.contexts (sound : Sound m plan cache s) (id : ContextId)
    (known : (common plan cache kept t.log).contexts id) : (s.host.context? id).isSome = true := by
  obtain ⟨x, member, named⟩ := known
  exact sound.contexts x (mirrors.mem_iff.mp member).1 id named

theorem Mirrors.observe (sound : Sound m plan cache s) (n : Nat) (outcome : Outcome)
    {engine? : Option EngineId}
    (known : ∀ engine ∈ engine?, (common plan cache kept t.log).engines engine) :
    t.observe n outcome engine? = s.observe n outcome engine? := by
  obtain ⟨lead, agree⟩ := mirrors.agree
  cases engine? with
  | none =>
      have nobody (log : List Handout) : (log.filter fun x => some x.engine == none) = [] :=
        List.filter_eq_nil_iff.mpr (by simp)
      simp only [Session.observe, nobody, Option.map_none, List.map_nil]
  | some engine =>
      have shares := known engine rfl
      -- All handouts on a shared engine are kept.
      have handed : (t.log.filter fun x => some x.engine == some engine) =
          s.log.filter fun x => some x.engine == some engine := by
        rw [mirrors.log, List.filter_filter]
        refine List.filter_congr fun x member => ?_
        by_cases own : x.engine = engine
        · simp [mirrors.kept_of_engine member (own ▸ shares)]
        · simp [own]
      simp only [Session.observe, Option.map_some, agree.engine_eq shares, ← handed,
        Observation.mk.injEq, true_and]
      refine List.map_congr_left fun x member => ?_
      obtain ⟨own, keeps⟩ := mirrors.mem_iff.mp (List.mem_filter.mp member).1
      refine Prod.ext ?_ ?_
      · cases named : x.context? with
        | none => rfl
        | some id => exact agree.contexts id ⟨x, (List.mem_filter.mp member).1, named⟩
      · exact agree.results _ ⟨x.number, keeps, (sound.results x own).symm⟩

end

theorem ne_of_dropped {i : Nat} (keeps : kept i = true) (drops : kept n = false) : i ≠ n := by
  rintro rfl
  rw [drops] at keeps
  cases keeps

/-- What is allowed on an engine is permitted if everything on the engine is kept. -/
theorem permits_of_allows {engine : EngineId} {request : Request}
    (results : ∀ x ∈ s.log, x.results = (plan x.number).results)
    (keeps : ∀ x ∈ s.log, x.engine = engine → kept x.number = true)
    (allowed : s.Allows engine request) :
    (common plan cache kept (s.log.filter fun x => kept x.number)).Permits request := by
  refine allowed.mono ?_ ?_
  · rintro id ⟨x, member, own, named⟩
    exact ⟨x, List.mem_filter.mpr ⟨member, keeps x member own⟩, named⟩
  · rintro id ⟨x, member, own, rfl⟩
    exact ⟨x.number, keeps x member own, (results x member).symm⟩

/-- What is allowed on an engine is spared if nothing on the engine is kept. -/
theorem spared_of_allows {log : List Handout} {engine : EngineId} {request : Request}
    (distinct : ∀ a b, (plan a).results = (plan b).results → a = b)
    (results : ∀ x ∈ s.log, x.results = (plan x.number).results)
    (drops : ∀ x ∈ s.log, x.engine = engine → kept x.number = false)
    (allowed : s.Allows engine request) : (common plan cache kept log).Spared request := by
  refine allowed.mono (fun _ _ => trivial) ?_
  rintro id ⟨x, member, own, rfl⟩ ⟨a, keeps, same⟩
  rw [results x member] at same
  rw [distinct a _ same, drops x member own] at keeps
  cases keeps

section

variable (sound : Sound m plan cache s) (mirrors : Mirrors plan cache kept s t)

include sound mirrors

theorem Mirrors.follow_use {use : Use} (fits : s.Fits m plan (.use n use)) (keeps : kept n = true) :
    (t.use n use).1 = (s.use n use).1 ∧ Mirrors plan cache kept (s.use n use).2 (t.use n use).2 := by
  have kept' := sound.use fits
  unfold Session.use at kept' ⊢
  rw [mirrors.live n keeps]
  cases found : s.live n with
  | none => exact ⟨mirrors.observe sound n .absent nofun, mirrors⟩
  | some invocation =>
      obtain ⟨x, member, number, own⟩ := sound.live n invocation found
      have shares : (common plan cache kept t.log).engines invocation.engine :=
        ⟨x, mirrors.mem_iff.mpr ⟨member, number ▸ keeps⟩, own⟩
      obtain ⟨lead, agree⟩ := mirrors.agree
      have permitted : ∀ request ∈ use.requests s.host invocation,
          (common plan cache kept t.log).Permits request := fun request asked => by
        rw [mirrors.log]
        exact permits_of_allows sound.results
          (fun x member own => mirrors.kept_of_engine member (own ▸ shares))
          (fits invocation found request asked)
      obtain ⟨result, after, other, first, second, reached⟩ :=
        (Use.same_perform agree shares permitted).split
      rw [found] at kept'
      dsimp only at kept' ⊢
      rw [first] at kept' ⊢
      rw [second]
      have mirrored : Mirrors plan cache kept
          ⟨after, fun i => if i = n then use.leaves invocation else s.live i, s.log⟩
          ⟨other, fun i => if i = n then use.leaves invocation else t.live i, t.log⟩ :=
        { agree := ⟨lead, reached⟩
          log := mirrors.log
          apart := mirrors.apart
          live := fun i known => by
            dsimp only
            rw [mirrors.live i known] }
      exact ⟨mirrored.observe kept' n _ fun engine same => Option.some.inj same ▸ shares, mirrored⟩

theorem Mirrors.skip_use (distinct : ∀ a b, (plan a).results = (plan b).results → a = b)
    {use : Use} (fits : s.Fits m plan (.use n use)) (drops : kept n = false) :
    Mirrors plan cache kept (s.use n use).2 t := by
  unfold Session.use
  cases found : s.live n with
  | none => exact mirrors
  | some invocation =>
      obtain ⟨x, member, number, own⟩ := sound.live n invocation found
      have foreign : ¬ (common plan cache kept t.log).engines invocation.engine := fun shares => by
        have keeps := mirrors.kept_of_engine member (own ▸ shares)
        rw [number, drops] at keeps
        cases keeps
      have spares : Host.Spares (common plan cache kept t.log) s.host
          (use.perform s.host invocation).2 :=
        .ofTouches (use.serves_perform s.host invocation)
          (fun request asked => spared_of_allows distinct sound.results
            (fun y other same => Bool.eq_false_iff.mpr fun keeps =>
              foreign ⟨y, mirrors.mem_iff.mpr ⟨other, keeps⟩, same⟩)
            (fits invocation found request asked))
          (use.touches_perform s.host invocation) foreign
      obtain ⟨lead, agree⟩ := mirrors.agree
      exact
        { agree := agree.spares (mirrors.contexts sound) spares
          log := mirrors.log
          apart := mirrors.apart
          live := fun i known =>
            (mirrors.live i known).trans (if_neg (ne_of_dropped known drops)).symm }

theorem Mirrors.skip_acquire (closed : Closed plan kept)
    (distinct : ∀ a b, (plan a).results = (plan b).results → a = b)
    (fits : s.Fits m plan (.acquire n slot)) (drops : kept n = false) :
    Mirrors plan cache kept (s.acquire m plan n slot).2 t := by
  have sound' := sound.acquire fits
  obtain ⟨fresh, selecting, preparing⟩ := fits
  have skipped := Host.spares_skipTo (common plan cache kept t.log) s.host slot
  -- Neither the entry that the acquisition may replace nor the engine that it gets is shared.
  have foreign (uses : (plan n).policy.usesCache = true) :
      ¬ (common plan cache kept t.log).keys (plan n).cacheKey := by
    rintro ⟨a, keeps, cached, same⟩
    rw [closed a n keeps cached uses same.symm] at drops
    cases drops
  have away : ∀ engine cached,
      ((s.host.skipTo slot).selectEngine m (plan n).policy (plan n).cacheKey).1 =
        .ok (engine, cached) → ¬ (common plan cache kept t.log).engines engine := by
    rintro engine cached chosen ⟨y, member, own⟩
    obtain ⟨old, keeps⟩ := mirrors.mem_iff.mp member
    rcases sound.selected chosen with ⟨uses, x, earlier, same, stored, key⟩ | new
    · have known := mirrors.kept_of_engine earlier ⟨y, member, own.trans same.symm⟩
      rw [closed x.number n known stored uses key.symm] at drops
      cases drops
    · exact new y old own
  have dropped : ∀ x ∈ handouts (s.host.skipTo slot) m n (plan n), kept x.number = false := by
    intro x member
    obtain ⟨_, _, number, _⟩ := mem_handouts member
    rw [number, drops]
  have present : ∀ id, (common plan cache kept t.log).engines id →
      id.index < (s.host.skipTo slot).engines.size := by
    rintro id ⟨x, member, rfl⟩
    exact Nat.lt_of_lt_of_le (sound.present x (mirrors.mem_iff.mp member).1) skipped.engineCount
  have acquired : Host.Spares (common plan cache kept t.log) (s.host.skipTo slot)
      ((s.host.skipTo slot).acquire m (plan n)).2 := by
    refine Host.spares_acquire sound.inUse_skipTo sound.wired foreign present away ?_ ?_
    · exact fun r member => (selecting r member).mono (fun _ => False.elim) fun _ => False.elim
    · refine within_of_handouts preparing fun engine cached chosen request allowed => ?_
      refine spared_of_allows distinct sound'.results (fun x member own => ?_) allowed
      rcases List.mem_append.mp member with old | new
      · refine Bool.eq_false_iff.mpr fun keeps => ?_
        exact away engine cached chosen ⟨x, mirrors.mem_iff.mpr ⟨old, keeps⟩, own⟩
      · exact dropped x new
  have spares := skipped.trans acquired
  obtain ⟨lead, agree⟩ := mirrors.agree
  rw [acquire_snd]
  exact
    { agree := agree.spares (mirrors.contexts sound) spares
      log := by
        have none : (handouts (s.host.skipTo slot) m n (plan n)).filter (fun x => kept x.number) =
            [] := List.filter_eq_nil_iff.mpr fun x member => by simp [dropped x member]
        rw [List.filter_append, none, List.append_nil, mirrors.log]
      apart := fun x member known y other => by
        rcases List.mem_append.mp member with old | new
        · exact mirrors.apart x old known y other
        · obtain ⟨cached, chosen, _⟩ := mem_handouts new
          exact fun same => away x.engine cached chosen ⟨y, other, same.symm⟩
      live := fun i known =>
        (mirrors.live i known).trans (if_neg (ne_of_dropped known drops)).symm }

end

/-! ## Acquisitions that are kept -/

/-- What sessions have in common when an acquisition that is kept starts. -/
def commonFrom (plan : Nat → Context) (cache : CacheId) (kept : Nat → Bool) (log : List Handout)
    (slot : Slot) : Shared :=
  { common plan cache kept log with
    contexts := fun id => (common plan cache kept log).contexts id ∨ id = ⟨slot.context⟩ }

section

variable (sound : Sound m plan cache s) (mirrors : Mirrors plan cache kept s t)
  (closed : Closed plan kept) (keeps : kept n = true)

include sound mirrors closed keeps

theorem Mirrors.owned {engine : EngineId} {cached : Bool}
    (chosen : ((s.host.skipTo slot).selectEngine m (plan n).policy (plan n).cacheKey).1 =
      .ok (engine, cached)) {x : Handout} (member : x ∈ s.log) (own : x.engine = engine) :
    kept x.number = true := by
  rcases sound.selected chosen with ⟨uses, y, earlier, same, stored, key⟩ | new
  · have known := closed n y.number keeps uses stored key
    exact mirrors.kept_of_engine member
      ⟨y, mirrors.mem_iff.mpr ⟨earlier, known⟩, same.trans own.symm⟩
  · exact absurd own (new x member)

theorem Mirrors.stored (reuse : (plan n).policy = .reuse) {engine : EngineId}
    (found : ((s.host.skipTo slot).cacheOf m).get? (plan n).cacheKey = some engine) :
    (common plan cache kept t.log).engines engine := by
  have entry : (s.host.cache cache).get? (plan n).cacheKey = some engine := sound.wired ▸ found
  obtain ⟨x, member, own, uses, key⟩ := sound.entries _ _ entry
  have known := closed n x.number keeps (by rw [reuse]; rfl) uses key
  exact ⟨x, mirrors.mem_iff.mpr ⟨member, known⟩, own⟩

omit closed mirrors sound in
theorem kept_of_mem_handouts {h : Host} {x : Handout} (member : x ∈ handouts h m n (plan n)) :
    kept x.number = true := by
  obtain ⟨_, _, number, _⟩ := mem_handouts member
  rw [number, keeps]

theorem Mirrors.permitted (fits : s.Fits m plan (.acquire n slot)) :
    ∀ request ∈ (s.host.skipTo slot).setupRequests m (plan n),
      (commonFrom plan cache kept t.log slot).Permits request := by
  have sound' := sound.acquire fits
  obtain ⟨fresh, _, preparing⟩ := fits
  refine within_of_handouts preparing fun engine cached chosen request allowed => ?_
  have permits : (common plan cache kept _).Permits request :=
    permits_of_allows sound'.results (fun x member own =>
      (List.mem_append.mp member).elim
        (fun old => mirrors.owned sound closed keeps chosen old own) (kept_of_mem_handouts keeps))
      allowed
  refine permits.mono ?_ fun _ known => known
  rintro id ⟨x, member, named⟩
  obtain ⟨member, known⟩ := List.mem_filter.mp member
  rcases List.mem_append.mp member with old | new
  · exact .inl ⟨x, mirrors.mem_iff.mpr ⟨old, known⟩, named⟩
  · obtain ⟨_, _, _, _, context⟩ := mem_handouts new
    exact .inr ((context id named).1.trans (congrArg ContextId.mk fresh.sizes.2.1))

/-- The acquisition comes to the same in both sessions, and hands out the same. -/
theorem Mirrors.same_acquire (fits : s.Fits m plan (.acquire n slot)) :
    Host.Same ((commonFrom plan cache kept t.log slot).adding fun engine => ∃ cached,
        ((s.host.skipTo slot).selectEngine m (plan n).policy (plan n).cacheKey).1 =
          .ok (engine, cached)) ⟨0, 0, 0⟩
      ((s.host.skipTo slot).acquire m (plan n)) ((t.host.skipTo slot).acquire m (plan n)) ∧
    handouts (t.host.skipTo slot) m n (plan n) = handouts (s.host.skipTo slot) m n (plan n) := by
  have permitted := mirrors.permitted sound closed keeps fits
  obtain ⟨fresh, selecting, _⟩ := fits
  obtain ⟨lead, agree⟩ := mirrors.agree
  have level : Host.Agree (commonFrom plan cache kept t.log slot) ⟨0, 0, 0⟩
      (s.host.skipTo slot) (t.host.skipTo slot) :=
    agree.skipTo (mirrors.contexts sound) fresh
  have cached : (plan n).policy.usesCache = true →
      (commonFrom plan cache kept t.log slot).keys (plan n).cacheKey :=
    fun uses => ⟨n, keeps, uses, rfl⟩
  have stored : (plan n).policy = .reuse → ∀ engine,
      ((s.host.skipTo slot).cacheOf m).get? (plan n).cacheKey = some engine →
        (commonFrom plan cache kept t.log slot).engines engine :=
    fun reuse _ found => mirrors.stored sound closed keeps reuse found
  have choosing : ∀ request ∈ (s.host.skipTo slot).selectionRequests m (plan n).policy
      (plan n).cacheKey, (commonFrom plan cache kept t.log slot).Permits request :=
    fun r member => (selecting r member).mono (fun _ => False.elim) fun _ => False.elim
  have selected := Host.same_selectEngine level rfl rfl sound.reliable sound.wired sound.inUse cached
    stored choosing
  have acquired := Host.same_acquire level rfl rfl sound.reliable sound.wired rfl sound.inUse cached
    stored choosing permitted
  refine ⟨acquired, ?_⟩
  have size : (t.host.skipTo slot).contexts.size = (s.host.skipTo slot).contexts.size :=
    level.contextCount.symm
  have made := acquired.agree.contexts ⟨slot.context⟩ (.inr rfl)
  unfold handouts
  rw [selected.outcome, size, fresh.sizes.2.1, made]

theorem Mirrors.follow_acquire (fits : s.Fits m plan (.acquire n slot)) :
    (t.acquire m plan n slot).1 = (s.acquire m plan n slot).1 ∧
      Mirrors plan cache kept (s.acquire m plan n slot).2 (t.acquire m plan n slot).2 := by
  have sound' := sound.acquire fits
  obtain ⟨acquired, same⟩ := mirrors.same_acquire sound closed keeps fits
  have mirrored : Mirrors plan cache kept (s.acquire m plan n slot).2
      (t.acquire m plan n slot).2 := by
    rw [acquire_snd, acquire_snd, same, acquired.outcome]
    refine ⟨⟨⟨0, 0, 0⟩, (acquired.agree.onEngines ?_).onContexts ?_⟩, ?_, ?_, ?_⟩
    · rintro id ⟨x, member, own⟩
      rcases List.mem_append.mp member with old | new
      · exact .inl ⟨x, old, own⟩
      · obtain ⟨cached, chosen, _⟩ := mem_handouts new
        exact .inr ⟨cached, own ▸ chosen⟩
    · rintro id ⟨x, member, named⟩
      rcases List.mem_append.mp member with old | new
      · exact .inl ⟨x, old, named⟩
      · obtain ⟨_, _, _, _, context⟩ := mem_handouts new
        exact .inr ((context id named).1.trans (congrArg ContextId.mk fits.1.sizes.2.1))
    · have all : (handouts (s.host.skipTo slot) m n (plan n)).filter (fun x => kept x.number) =
          handouts (s.host.skipTo slot) m n (plan n) :=
        List.filter_eq_self.mpr fun x member => kept_of_mem_handouts keeps member
      rw [List.filter_append, all, mirrors.log]
    · intro x member known y other
      rcases List.mem_append.mp member with old | new
      · rcases List.mem_append.mp other with earlier | added
        · exact mirrors.apart x old known y earlier
        · obtain ⟨cached, chosen, _⟩ := mem_handouts added
          intro own
          rw [mirrors.owned sound closed keeps chosen old own] at known
          cases known
      · rw [kept_of_mem_handouts keeps new] at known
        cases known
    · intro i known
      dsimp only
      rw [mirrors.live i known]
  refine ⟨?_, mirrored⟩
  rw [acquire_fst, acquire_fst, acquired.outcome]
  refine mirrored.observe sound' n _ fun engine obtained => ?_
  obtain ⟨invocation, succeeds, own⟩ := Option.map_eq_some_iff.mp obtained
  obtain ⟨selected, selects⟩ := Host.exists_of_acquire
    (Prod.ext (eq_ok_of_toOption succeeds) rfl)
  obtain ⟨x, member, here, _⟩ := exists_handout (n := n) (congrArg Prod.fst selects)
  refine ⟨x, ?_, here.trans own⟩
  rw [acquire_snd, same]
  exact List.mem_append_right _ member

end

/-! ## Runs -/

variable {move : Move} {moves : List Move}

theorem Mirrors.skip (sound : Sound m plan cache s) (mirrors : Mirrors plan cache kept s t)
    (closed : Closed plan kept) (distinct : ∀ a b, (plan a).results = (plan b).results → a = b)
    (fits : s.Fits m plan move) (drops : kept move.number = false) :
    Mirrors plan cache kept (s.step m plan move).2 t := by
  cases move with
  | acquire n slot => exact mirrors.skip_acquire sound closed distinct fits drops
  | use n use => exact mirrors.skip_use sound distinct fits drops

theorem Mirrors.follow (sound : Sound m plan cache s) (mirrors : Mirrors plan cache kept s t)
    (closed : Closed plan kept) (fits : s.Fits m plan move) (keeps : kept move.number = true) :
    (t.step m plan move).1 = (s.step m plan move).1 ∧
      Mirrors plan cache kept (s.step m plan move).2 (t.step m plan move).2 := by
  cases move with
  | acquire n slot => exact mirrors.follow_acquire sound closed keeps fits
  | use n use => exact mirrors.follow_use sound fits keeps

theorem number_step (s : Session) (move : Move) : (s.step m plan move).1.number = move.number := by
  cases move with
  | acquire n slot => rfl
  | use n use =>
      simp only [Session.step, Session.use]
      split <;> rfl

theorem admissible_append {more : List Move} :
    s.Admissible m plan (moves ++ more) ↔
      s.Admissible m plan moves ∧ (s.after m plan moves).Admissible m plan more := by
  induction moves generalizing s with
  | nil => exact (and_iff_right trivial).symm
  | cons move moves ih => exact (and_congr_right fun _ => ih).trans (and_assoc).symm

/-- Leaving out what is not kept changes neither what is observed of the rest nor what the rest
comes to. -/
theorem Mirrors.run (closed : Closed plan kept)
    (distinct : ∀ a b, (plan a).results = (plan b).results → a = b)
    (sound : Sound m plan cache s) (mirrors : Mirrors plan cache kept s t)
    (admissible : s.Admissible m plan moves) :
    (s.trace m plan moves).filter (fun o => kept o.number) =
        t.trace m plan (moves.filter fun move => kept move.number) ∧
      Sound m plan cache (s.after m plan moves) ∧
      Mirrors plan cache kept (s.after m plan moves)
        (t.after m plan (moves.filter fun move => kept move.number)) := by
  -- Of a move that is left out, the session that mirrors the other one takes no notice.
  induction moves generalizing s t with
  | nil => exact ⟨rfl, sound, mirrors⟩
  | cons move moves ih =>
      obtain ⟨fits, rest⟩ := admissible
      have kept' := sound.step fits
      rw [Session.trace, Session.after, List.filter_cons, List.filter_cons, number_step]
      cases known : kept move.number with
      | false =>
          simpa [known] using ih kept' (mirrors.skip sound closed distinct fits known) rest
      | true =>
          obtain ⟨same, follows⟩ := mirrors.follow sound closed fits known
          obtain ⟨observed, ended⟩ := ih kept' follows rest
          simp only [if_true, Session.trace, Session.after, same, observed, true_and]
          exact ended

/-! ## Isolation -/

/-- The manager has an empty cache, and a factory that refuses nothing: a refusal would tell how
many engines were asked for before. -/
structure Unused (start : Host) (m : ManagerId) : Prop where
  inUse : (start.manager m).cache.index < start.caches.size
  empty : ∀ key, (start.cacheOf m).get? key = none
  reliable : ∀ count, (start.manager m).factory.outage.covers count = false

/-- A session in which nothing has been acquired. -/
def begin (start : Host) : Session := { host := start }

theorem Unused.sound {start : Host} (unused : Unused start m) :
    Sound m plan (start.manager m).cache (begin start) where
  wired := rfl
  inUse := unused.inUse
  reliable := unused.reliable
  results _ member := by cases member
  live _ _ acquired := by cases acquired
  entries key engine found := by
    cases (unused.empty key).symm.trans found
  present _ member := by cases member
  contexts _ member := by cases member

theorem mirrors_begin (start : Host) :
    Mirrors plan cache kept (begin start) (begin start) where
  agree := ⟨⟨0, 0, 0⟩, Host.Agree.refl _ start fun _ ⟨_, member, _⟩ => by cases member⟩
  log := rfl
  apart _ member := by cases member
  live _ _ := rfl

/-- The invocations that share the cached engine for a key. -/
def usesKey (plan : Nat → Context) (key : CacheKey) (n : Nat) : Bool :=
  (plan n).policy.usesCache && (plan n).cacheKey == key

theorem closed_usesKey (plan : Nat → Context) (key : CacheKey) : Closed plan (usesKey plan key) := by
  intro a b keeps _ uses same
  obtain ⟨_, own⟩ := Bool.and_eq_true_iff.mp keeps
  rw [usesKey, uses, same, own]
  rfl

theorem closed_single (alone : (plan n).policy.usesCache = false) : Closed plan (· == n) := by
  intro a b keeps uses
  rw [eq_of_beq keeps, alone] at uses
  cases uses

/-- What an invocation that does not use the cache observes when it is acquired is what it would
observe if nothing had been acquired before. -/
theorem Unused.acquire_alone {start : Host} (unused : Unused start m)
    (distinct : ∀ a b, (plan a).results = (plan b).results → a = b)
    (alone : (plan n).policy.usesCache = false) {moves : List Move}
    (others : ∀ move ∈ moves, move.number ≠ n)
    (admissible : (begin start).Admissible m plan (moves ++ [.acquire n slot])) :
    (((begin start).after m plan moves).acquire m plan n slot).1 =
      ((begin start).acquire m plan n slot).1 := by
  obtain ⟨earlier, fits, _⟩ := admissible_append.mp admissible
  obtain ⟨_, sound, mirrors⟩ := Mirrors.run (closed_single alone) distinct unused.sound
    (mirrors_begin start) earlier
  have none : (moves.filter fun move => move.number == n) = [] :=
    List.filter_eq_nil_iff.mpr fun move member => by simpa using others move member
  rw [none] at mirrors
  exact (mirrors.follow_acquire sound (closed_single alone) (beq_self_eq_true n) fits).1.symm

/-- Two laws for every run of acquisitions, scripts and releases over one manager. What the
invocations that share a cache key observe does not change if all others are left out. And what an
invocation that does not use the cache observes when it is acquired, the engine that it gets and
what is told on it, is the same whatever has been done before. -/
theorem invocations_isolated {start : Host} (unused : Unused start m)
    (distinct : ∀ a b, (plan a).results = (plan b).results → a = b) :
    (∀ (key : CacheKey) (moves : List Move), (begin start).Admissible m plan moves →
      ((begin start).trace m plan moves).filter (fun o => usesKey plan key o.number) =
        (begin start).trace m plan (moves.filter fun move => usesKey plan key move.number)) ∧
    ∀ (n : Nat) (slot : Slot) (first second : List Move), (plan n).policy.usesCache = false →
      (∀ move ∈ first ++ second, move.number ≠ n) →
      (begin start).Admissible m plan (first ++ [.acquire n slot]) →
      (begin start).Admissible m plan (second ++ [.acquire n slot]) →
      (((begin start).after m plan first).acquire m plan n slot).1 =
        (((begin start).after m plan second).acquire m plan n slot).1 := by
  constructor
  · intro key moves admissible
    exact (Mirrors.run (closed_usesKey plan key) distinct unused.sound (mirrors_begin start)
      admissible).1
  · intro n slot first second alone others firstFits secondFits
    rw [unused.acquire_alone distinct alone
      (fun move member => others move (List.mem_append_left _ member)) firstFits,
      unused.acquire_alone distinct alone
        (fun move member => others move (List.mem_append_right _ member)) secondFits]

/-- A host with one manager, and results for some invocations. -/
def toolHost : Host where
  caches := #[{}]
  managers := #[{ cache := ⟨0⟩ }]
  writers := #[.buffer .empty, .buffer .empty, .buffer .empty]
  results := #[[], [], [], []]
  files := default

/-- Tools of one package; the invocation 1 is of another package, and 2 does not use the cache. -/
def toolPlan (n : Nat) : Context where
  policy := if n = 2 then .clean else .reuse
  output := ⟨"tool", ⟨0⟩⟩
  command := { name := "tool", package := if n = 1 then "others" else "tools" }
  results := ⟨n⟩

def noting (text : String) : Use := .exec (Utf8.bytes "note") (Utf8.bytes text)

/-- Two invocations, each of which leaves a note in a global. -/
def noteMoves : List Move :=
  [.acquire 0 ⟨0, 0, 3⟩, .use 0 (noting "note = 5"), .acquire 1 ⟨1, 1, 4⟩,
    .use 1 (noting "note = 6")]

/-- One more invocation on a new engine, and one that looks for the note of the first. -/
def toolMoves : List Move :=
  noteMoves ++ [.acquire 2 ⟨2, 2, 5⟩, .use 2 .release, .use 0 .release, .acquire 3 ⟨3, 3, 6⟩,
    .use 3 (noting "return note")]

def returnsFive (o : Observation) : Bool :=
  match o.outcome with
  | .used (.ok [.integer 5]) => true
  | _ => false

/-- The note is found whether the other invocations are there or not, and the engine that is used
once is the one that a first invocation would get. -/
theorem invocations_isolated_between_notes :
    Unused toolHost ⟨0⟩ ∧ (∀ a b, (toolPlan a).results = (toolPlan b).results → a = b) ∧
      ((begin toolHost).trace ⟨0⟩ toolPlan toolMoves).map returnsFive =
        [false, false, false, false, false, false, false, false, true] ∧
      ((begin toolHost).trace ⟨0⟩ toolPlan (toolMoves.filter fun move =>
        usesKey toolPlan ⟨"tools"⟩ move.number)).map returnsFive =
          [false, false, false, false, true] ∧
      (((begin toolHost).after ⟨0⟩ toolPlan noteMoves).acquire ⟨0⟩ toolPlan 2 ⟨2, 2, 5⟩).1 =
        ((begin toolHost).acquire ⟨0⟩ toolPlan 2 ⟨2, 2, 5⟩).1 := by
  have unused : Unused toolHost ⟨0⟩ := ⟨by decide, fun _ => rfl, fun _ => rfl⟩
  have distinct : ∀ a b, (toolPlan a).results = (toolPlan b).results → a = b :=
    fun _ _ same => congrArg ResultsId.index same
  have admissible : (begin toolHost).Admissible ⟨0⟩ toolPlan toolMoves := by decide +kernel
  have noted : ((begin toolHost).trace ⟨0⟩ toolPlan toolMoves).map returnsFive =
      [false, false, false, false, false, false, false, false, true] := by decide +kernel
  obtain ⟨left, alone⟩ := invocations_isolated unused distinct
  refine ⟨unused, distinct, noted, ?_, ?_⟩
  · rw [← left ⟨"tools"⟩ toolMoves admissible]
    decide +kernel
  · exact alone 2 ⟨2, 2, 5⟩ noteMoves [] rfl (by decide) (by decide +kernel) (by decide +kernel)

end ScriptHost.Session
