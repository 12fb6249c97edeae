import ScriptHost.Proofs.Acquisitions
import ScriptHost.Proofs.SealedInvocations

/-!
# Hosts whose scripts use globals in the ordinary way

The hosts that come about when engines are created and prepared, invocations are acquired and
released in any order, and scripts run on any engine, also while others wait for a function of the
host. As long as every script uses the globals in the ordinary way, all engines keep their secrets.
-/

set_option autoImplicit false

namespace ScriptHost

open Lua Scope

namespace Host

/-! ## Reachable hosts -/

/-- A script that waits for a function of its host. -/
structure Suspension where
  engine : EngineId
  stack : Stack
  next : Bool → Action

/-- What a script waits for when it has come this far. -/
def Suspension.ofProgress (engine : EngineId) : Progress → List Suspension
  | .calling _ stack next => [⟨engine, stack, next⟩]
  | .ended _ | .exhausted => []

/-- The caches hold engines of the host. -/
def Stocked (h : Host) : Prop :=
  ∀ cache key engine, (h.cache cache).get? key = some engine → engine.index < h.engines.size

/-- The hosts that can be reached by scripts that use the globals in the ordinary way, with the
invocations that were acquired on the way and the scripts that have been waiting. Invocations are
released in any order, and even several times over. -/
inductive Reachable : Host → List Invocation → List Suspension → Prop where
  | start {h : Host} : h.engines.size = 0 → Stocked h → Reachable h [] []
  /-- Streams, caches, managers, files and results may change as long as no engine does. -/
  | beside {h after : Host} {acquired waiting} : Reachable h acquired waiting →
      after.engines.size = h.engines.size → Stocked after →
      (∀ engine, (after.engine engine).store = (h.engine engine).store) →
      Reachable after acquired waiting
  | create {h : Host} {acquired waiting factory options} : Reachable h acquired waiting →
      h.OrdinaryCreate factory options →
      Reachable (h.createEngine factory options).2 acquired waiting
  | acquire {h after : Host} {acquired waiting id context invocation} :
      Reachable h acquired waiting → h.OrdinaryAcquire id context →
      h.acquire id context = (.ok invocation, after) →
      Reachable after (invocation :: acquired) waiting
  | refuse {h after : Host} {acquired waiting id context e} :
      Reachable h acquired waiting → h.OrdinaryAcquire id context →
      h.acquire id context = (.error e, after) → Reachable after acquired waiting
  | release {h : Host} {acquired waiting invocation} : Reachable h acquired waiting →
      invocation ∈ acquired → Reachable (h.release invocation).2 acquired waiting
  | script {h : Host} {acquired waiting engine name text} : Reachable h acquired waiting →
      engine.index < h.engines.size → h.OrdinaryExec engine name text →
      Reachable (h.exec engine name text).2 acquired waiting
  /-- A global becomes a function of the host, for which scripts may wait. -/
  | offer {h : Host} {acquired waiting engine name function} : Reachable h acquired waiting →
      engine.index < h.engines.size → (∀ binding : Binding, name ≠ binding.name) →
      Reachable (h.setGlobal engine name (.builtin (.host (.callback function)))) acquired waiting
  | begin {h after : Host} {acquired waiting engine name text f} : Reachable h acquired waiting →
      engine.index < h.engines.size → h.load engine name text = (.ok f, after) →
      StaysOrdinary true engine
        ⟨(after.engine engine).store, {}, Eval.run (Library.hostCall f []), after⟩ →
      Reachable (after.startFunction engine f).2 acquired
        (Suspension.ofProgress engine (after.startFunction engine f).1 ++ waiting)
  | resume {h : Host} {acquired waiting} {s : Suspension} {answer : Bool} :
      Reachable h acquired waiting → s ∈ waiting →
      StaysOrdinary true s.engine ⟨(h.engine s.engine).store, s.stack, s.next answer, h⟩ →
      Reachable (h.resume s.engine s.stack (s.next answer)).2 acquired
        (Suspension.ofProgress s.engine (h.resume s.engine s.stack (s.next answer)).1 ++ waiting)

/-! ## What holds of them -/

variable {h middle after : Host} {engine : EngineId} {V W : Vault}
  {acquired moreAcquired : List Invocation} {waiting moreWaiting : List Suspension}

/-- An engine keeps its secrets, and so do the scripts that wait on it. The host may clear the
bindings of every invocation that was acquired on it. -/
structure Held (V : Vault) (engine : EngineId) (h : Host) (acquired : List Invocation)
    (waiting : List Suspension) : Prop extends Sealed V engine h where
  covers : ∀ i ∈ acquired, i.engine = engine →
    V.Covers i.bindings ∧ (h.heap engine).globalsMetatable? ≠ none
  safe : ∀ s ∈ waiting, s.engine = engine →
    V.SafeStack s.stack ∧ ∀ answer W, V.Later W → W.Safe (s.next answer)

structure Kept (h : Host) (acquired : List Invocation) (waiting : List Suspension) : Prop where
  stocked : Stocked h
  formed : ∀ i ∈ acquired, i.bindings.engine = i.engine ∧ i.engine.index < h.engines.size
  present : ∀ s ∈ waiting, s.engine.index < h.engines.size
  held : ∀ engine, engine.index < h.engines.size → ∃ V, Held V engine h acquired waiting

/-! ### Caches -/

theorem Stocked.serves {requests : List Request} (stocked : Stocked h)
    (serves : Serves requests h after) (size : h.engines.size ≤ after.engines.size) :
    Stocked after := by
  intro cache key engine found
  have entries := serves.entries cache
  split at entries
  · rw [EngineCache.get?_of_nil entries] at found
    cases found
  · rw [EngineCache.get?_of_entries entries] at found
    exact Nat.lt_of_lt_of_le (stocked cache key engine found) size

theorem Stocked.alterCache {α : Type} (stocked : Stocked h) (cache : CacheId)
    {f : EngineCache → α × EngineCache}
    (kept : ∀ key engine, (f (h.cache cache)).2.get? key = some engine →
      (h.cache cache).get? key = some engine ∨ engine.index < h.engines.size) :
    Stocked (h.alterCache cache f).2 := by
  intro other key engine found
  rw [cache_alterCache] at found
  split at found
  · rcases kept key engine found with old | new
    · exact stocked cache key engine old
    · exact new
  · exact stocked other key engine found

theorem Stocked.put (stocked : Stocked h) (cache : CacheId) (key : CacheKey)
    (present : engine.index < h.engines.size) :
    Stocked (h.alterCache cache fun c => c.put key engine).2 := by
  refine stocked.alterCache cache fun other found known => ?_
  rw [EngineCache.get?_put] at known
  split at known
  · exact .inr (Option.some.inj known ▸ present)
  · exact .inl known

theorem Stocked.fill (stocked : Stocked h) (cache : CacheId) (key : CacheKey)
    {made : Except EngineError EngineId}
    (present : ∀ engine, made = .ok engine → engine.index < h.engines.size) :
    Stocked (h.alterCache cache fun c => c.fill key made).2 := by
  cases made with
  | ok engine => exact stocked.put cache key (present engine rfl)
  | error e =>
      refine stocked.alterCache cache fun other found known => .inl ?_
      rwa [EngineCache.get?_of_entries (show
        ((h.cache cache).fill key (.error e)).2.entries = (h.cache cache).entries from rfl)] at known

/-- A selection yields an engine of the host. -/
theorem stocked_selectEngine (stocked : Stocked h) (id : ManagerId) (policy : Policy)
    (key : CacheKey) :
    Stocked (h.selectEngine id policy key).2 ∧
      ∀ engine cached, (h.selectEngine id policy key).1 = .ok (engine, cached) →
        engine.index < (h.selectEngine id policy key).2.engines.size := by
  have requested := stocked.serves (serves_requestEngine h id (.ofPolicy policy))
    (grows_requestEngine h id (.ofPolicy policy)).size
  have new : ∀ engine, (h.requestEngine id (.ofPolicy policy)).1 = .ok engine →
      engine.index < (h.requestEngine id (.ofPolicy policy)).2.engines.size :=
    fun engine made => (new_requestEngine (Prod.ext made rfl)).2
  unfold selectEngine
  dsimp only
  cases policy with
  | reuse =>
      dsimp only
      split
      · rename_i engine found
        refine ⟨stocked, ?_⟩
        rintro _ _ ⟨⟩
        exact stocked _ _ _ found
      · generalize h.requestEngine id (.ofPolicy .reuse) = requestedEngine at requested new ⊢
        obtain ⟨made, middle⟩ := requestedEngine
        dsimp only at requested new ⊢
        refine ⟨requested.fill _ key new, fun engine cached same => ?_⟩
        cases made with
        | error e => cases same
        | ok other =>
            cases same
            exact new engine rfl
  | refresh =>
      generalize h.requestEngine id (.ofPolicy .refresh) = requestedEngine at requested new ⊢
      obtain ⟨made, middle⟩ := requestedEngine
      dsimp only at requested new ⊢
      cases made with
      | error e =>
          refine ⟨requested, ?_⟩
          rintro _ _ ⟨⟩
      | ok engine =>
          refine ⟨requested.put _ key (new engine rfl), ?_⟩
          rintro _ _ ⟨⟩
          exact new engine rfl
  | clean | fullIsolation =>
      generalize h.requestEngine id (.ofPolicy _) = requestedEngine at requested new ⊢
      obtain ⟨made, middle⟩ := requestedEngine
      dsimp only at requested new ⊢
      refine ⟨requested, fun engine cached same => ?_⟩
      cases made with
      | error e => cases same
      | ok other =>
          cases same
          exact new engine rfl

/-! ### Engines -/

theorem Held.onward (held : Held V engine h acquired waiting) (onward : Onward V W engine h after) :
    Held W engine after acquired waiting where
  toSealed := onward.sealed
  covers i member there := by
    obtain ⟨covers, marked⟩ := held.covers i member there
    obtain ⟨m, marked⟩ := Option.ne_none_iff_exists'.mp marked
    obtain ⟨kept, same⟩ := onward.settled m marked
    exact ⟨covers.mono onward.later same, by simp [kept]⟩
  safe s member there := by
    obtain ⟨stack, next⟩ := held.safe s member there
    exact ⟨stack.mono onward.later, fun answer X later => next answer X (onward.later.trans later)⟩

/-- One engine goes on, and there may be new invocations and waiting scripts on it. -/
theorem Kept.step (kept : Kept h acquired waiting) (present : engine.index < h.engines.size)
    (size : after.engines.size = h.engines.size) (stocked : Stocked after)
    (others : ∀ other, other ≠ engine → after.engine other = h.engine other)
    (invocations : ∀ i ∈ moreAcquired, i ∈ acquired ∨ i.engine = engine ∧ i.bindings.engine = engine)
    (suspensions : ∀ s ∈ moreWaiting, s ∈ waiting ∨ s.engine = engine)
    (moves : ∀ V, Held V engine h acquired waiting → ∃ W, Held W engine after moreAcquired moreWaiting) :
    Kept after moreAcquired moreWaiting where
  stocked := stocked
  formed i member := by
    rw [size]
    rcases invocations i member with old | ⟨there, own⟩
    · exact kept.formed i old
    · exact ⟨own.trans there.symm, there ▸ present⟩
  present s member := by
    rw [size]
    rcases suspensions s member with old | there
    · exact kept.present s old
    · exact there ▸ present
  held other there := by
    rw [size] at there
    obtain ⟨V, held⟩ := kept.held other there
    by_cases same : other = engine
    · subst same
      exact moves V held
    · have bides := Bides.ofStore held.toSealed (Nat.le_of_eq size.symm)
        (congrArg Engine.store (others other same))
      have still := held.onward bides.toOnward
      refine ⟨V, still.toSealed, fun i member here => ?_, fun s member here => ?_⟩
      · rcases invocations i member with old | ⟨new, _⟩
        · exact still.covers i old here
        · exact absurd (here.symm.trans new) same
      · rcases suspensions s member with old | new
        · exact still.safe s old here
        · exact absurd (here.symm.trans new) same

/-- Where only the stores of other engines change, if any, an engine goes on as it is. -/
theorem Kept.onward (kept : Kept h acquired waiting) (present : engine.index < h.engines.size)
    (size : after.engines.size = h.engines.size) (stocked : Stocked after)
    (others : ∀ other, other ≠ engine → after.engine other = h.engine other)
    (moves : ∀ V, Held V engine h acquired waiting → ∃ W, Onward V W engine h after) :
    Kept after acquired waiting := by
  refine kept.step present size stocked others (fun _ => .inl) (fun _ => .inl) fun V held => ?_
  obtain ⟨W, onward⟩ := moves V held
  exact ⟨W, held.onward onward⟩

theorem Kept.beside (kept : Kept h acquired waiting) (size : after.engines.size = h.engines.size)
    (stocked : Stocked after)
    (stores : ∀ engine, (after.engine engine).store = (h.engine engine).store) :
    Kept after acquired waiting where
  stocked := stocked
  formed i member := by rw [size]; exact kept.formed i member
  present s member := by rw [size]; exact kept.present s member
  held engine there := by
    rw [size] at there
    obtain ⟨V, held⟩ := kept.held engine there
    exact ⟨V, held.onward
      (Bides.ofStore held.toSealed (Nat.le_of_eq size.symm) (stores engine)).toOnward⟩

/-- New engines have no secrets, and no invocation or script is on them yet. -/
theorem Kept.makes (kept : Kept h acquired waiting) (makes : Makes h after)
    (stocked : Stocked after) : Kept after acquired waiting where
  stocked := stocked
  formed i member := by
    obtain ⟨own, there⟩ := kept.formed i member
    exact ⟨own, Nat.lt_of_lt_of_le there makes.grows.size⟩
  present s member := Nat.lt_of_lt_of_le (kept.present s member) makes.grows.size
  held engine there := by
    by_cases old : engine.index < h.engines.size
    · obtain ⟨V, held⟩ := kept.held engine old
      exact ⟨V, held.onward (Bides.ofStore held.toSealed makes.grows.size
        (congrArg Engine.store (makes.grows.engine engine old))).toOnward⟩
    · obtain ⟨V, sealed, _⟩ := makes.bare engine (Nat.not_lt.mp old) there
      refine ⟨V, sealed, fun i member here => ?_, fun s member here => ?_⟩
      · exact absurd (here ▸ (kept.formed i member).2) old
      · exact absurd (here ▸ kept.present s member) old

/-! ### Scripts that may wait -/

/-- A script counts as suspended while it waits, which nothing else depends on. -/
theorem start_eq (h : Host) (engine : EngineId) (script : Eval (List Value)) :
    ∃ count : Engine → Nat, h.start engine script =
      ((h.advance true engine {} (Eval.run script)).1,
        (h.advance true engine {} (Eval.run script)).2.modifyEngine engine
          fun e => { e with suspended := count e }) := by
  unfold start
  generalize h.advance true engine {} (Eval.run script) = advanced
  obtain ⟨progress, after⟩ := advanced
  cases progress with
  | calling function stack next => exact ⟨fun e => e.suspended + 1, rfl⟩
  | ended result | exhausted =>
      refine ⟨Engine.suspended, ?_⟩
      dsimp only
      rw [modifyEngine_self rfl]

theorem resume_eq (h : Host) (engine : EngineId) (stack : Stack) (action : Action) :
    ∃ count : Engine → Nat, h.resume engine stack action =
      ((h.advance true engine stack action).1,
        (h.advance true engine stack action).2.modifyEngine engine
          fun e => { e with suspended := count e }) := by
  unfold resume
  generalize h.advance true engine stack action = advanced
  obtain ⟨progress, after⟩ := advanced
  cases progress with
  | calling function stack next =>
      refine ⟨Engine.suspended, ?_⟩
      dsimp only
      rw [modifyEngine_self rfl]
  | ended result | exhausted => exact ⟨fun e => e.suspended - 1, rfl⟩

/-- A script that goes on and may wait keeps the secrets of its engine, also while it waits. -/
theorem Held.advance (held : Held V engine h acquired waiting) {stack : Stack} {action : Action}
    (safeStack : V.SafeStack stack) (safe : V.Safe action)
    (ordinary : StaysOrdinary true engine ⟨(h.engine engine).store, stack, action, h⟩)
    (count : Engine → Nat) :
    ∃ W, Held W engine
      ((h.advance true engine stack action).2.modifyEngine engine
        fun e => { e with suspended := count e }) acquired
      (Suspension.ofProgress engine (h.advance true engine stack action).1 ++ waiting) := by
  obtain ⟨confines, progress⟩ :=
    confines_advance held.present held.toSealed.store safeStack safe fun _ => ordinary
  have bides := Bides.ofConfines held.toSealed confines
  generalize V.on ((h.advance true engine stack action).2.heap engine) = W at bides progress
  have counts : Bides W W engine (h.advance true engine stack action).2
      ((h.advance true engine stack action).2.modifyEngine engine
        fun e => { e with suspended := count e }) := by
    refine .ofStore bides.sealed (Nat.le_of_eq (size_engines_modifyEngine ..).symm) ?_
    rw [engine_modifyEngine_self bides.sealed.present]
  have later := held.onward (bides.trans counts).toOnward
  refine ⟨_, later.toSealed, later.covers, fun s member there => ?_⟩
  rcases List.mem_append.mp member with new | old
  · generalize (h.advance true engine stack action).1 = reached at new progress
    cases reached with
    | calling function stack next =>
        obtain rfl := List.mem_singleton.mp new
        exact progress
    | ended result | exhausted => exact absurd new List.not_mem_nil
  · exact later.safe s old there

theorem engine_of_ofProgress {progress : Progress} {s : Suspension}
    (member : s ∈ Suspension.ofProgress engine progress) : s.engine = engine := by
  cases progress with
  | calling function stack next => rw [List.mem_singleton.mp member]
  | ended result | exhausted => exact absurd member List.not_mem_nil

theorem Kept.advance (kept : Kept h acquired waiting) (present : engine.index < h.engines.size)
    (stack : Stack) (action : Action) (count : Engine → Nat)
    (moves : ∀ V, Held V engine h acquired waiting → V.SafeStack stack ∧ V.Safe action)
    (ordinary : StaysOrdinary true engine ⟨(h.engine engine).store, stack, action, h⟩) :
    Kept ((h.advance true engine stack action).2.modifyEngine engine
        fun e => { e with suspended := count e }) acquired
      (Suspension.ofProgress engine (h.advance true engine stack action).1 ++ waiting) := by
  have size := (runsOn_advance h engine true stack action).size
  obtain ⟨V, held⟩ := kept.held engine present
  obtain ⟨safeStack, safe⟩ := moves V held
  have runs :=
    (confines_advance held.present held.toSealed.store safeStack safe fun _ => ordinary).1.runsOn
  refine kept.step present ?_ ?_ (fun other different => ?_) (fun _ => .inl) (fun s member => ?_)
    fun V held => ?_
  · rw [size_engines_modifyEngine, size]
  · refine kept.stocked.serves
      ((serves_advance h true engine stack action).quiet (Serves.modifyEngine ..)) (Nat.le_of_eq ?_)
    rw [size_engines_modifyEngine, size]
  · rw [engine_modifyEngine_of_ne different, runs.others other different]
  · rcases List.mem_append.mp member with new | old
    · exact .inr (engine_of_ofProgress new)
    · exact .inl old
  · obtain ⟨safeStack, safe⟩ := moves V held
    exact held.advance safeStack safe ordinary count

/-! ### Reachable hosts -/

theorem Kept.refuse {id : ManagerId} {context : Context} {e : EngineError}
    (kept : Kept h acquired waiting) (ordinary : h.OrdinaryAcquire id context)
    (refused : h.acquire id context = (.error e, after)) : Kept after acquired waiting := by
  have selection := makes_selectEngine ordinary.selection
  obtain ⟨stocked, there⟩ :=
    stocked_selectEngine kept.stocked id context.policy context.cacheKey
  cases selects : h.selectEngine id context.policy context.cacheKey with
  | mk result selected =>
      rw [selects] at selection stocked there
      have prepared := kept.makes selection stocked
      cases result with
      | error e =>
          rw [acquire_of_error selects] at refused
          cases refused
          exact prepared
      | ok choice =>
          obtain ⟨engine, cached⟩ := choice
          have restored := (refused_of_acquire selects refused).restored
          have serves := (serves_acquire selects).2
          rw [refused] at serves
          refine prepared.onward (there engine cached rfl) restored.size
            (stocked.serves serves (Nat.le_of_eq restored.size.symm)) restored.others fun V held => ?_
          rcases held.toSealed.acquire ordinary selects with
            ⟨_, W, _, retraces⟩ | ⟨_, _, given, _⟩
          · rw [refused] at retraces
            exact ⟨W, retraces.toOnward⟩
          · rw [refused] at given
            cases given

theorem Kept.acquire {id : ManagerId} {context : Context} {invocation : Invocation}
    (kept : Kept h acquired waiting) (ordinary : h.OrdinaryAcquire id context)
    (given : h.acquire id context = (.ok invocation, after)) :
    Kept after (invocation :: acquired) waiting := by
  have selection := makes_selectEngine ordinary.selection
  obtain ⟨stocked, there⟩ :=
    stocked_selectEngine kept.stocked id context.policy context.cacheKey
  obtain ⟨selected, selects⟩ := exists_of_acquire given
  rw [selects] at selection stocked there
  have present := there _ _ rfl
  have before := kept.makes selection stocked
  obtain ⟨size, serves⟩ := serves_acquire selects
  rw [given] at size serves
  have ready : ∀ {V}, Sealed V invocation.engine selected →
      ∃ W, Prepared V W invocation.engine context selected after invocation := by
    intro V sealed
    rcases sealed.acquire ordinary selects with ⟨_, _, refused, _⟩ | ⟨_, W, same, prepared⟩
    · rw [given] at refused
      cases refused
    · rw [given] at same prepared
      cases same
      exact ⟨W, prepared⟩
  obtain ⟨V, held⟩ := before.held _ present
  obtain ⟨_, once⟩ := ready held.toSealed
  refine before.step present size (stocked.serves serves (Nat.le_of_eq size.symm))
    (fun other different => ?_) (fun i member => ?_) (fun _ => .inl) fun V held => ?_
  · rw [once.works.others other different, engine_attach_of_ne different]
  · rcases List.mem_cons.mp member with rfl | old
    · exact .inr ⟨rfl, once.own⟩
    · exact .inl old
  · obtain ⟨W, prepared⟩ := ready held.toSealed
    have later := held.onward prepared.toOnward
    refine ⟨W, later.toSealed, fun i member here => ?_, later.safe⟩
    rcases List.mem_cons.mp member with rfl | old
    · exact ⟨prepared.covers, prepared.marked⟩
    · exact later.covers i old here

theorem Kept.release {invocation : Invocation} (kept : Kept h acquired waiting)
    (member : invocation ∈ acquired) : Kept (h.release invocation).2 acquired waiting := by
  obtain ⟨own, present⟩ := kept.formed invocation member
  have size := size_engines_release h invocation
  refine kept.onward present size (kept.stocked.serves (serves_release h invocation)
    (Nat.le_of_eq size.symm)) (released_of_release own present).others fun V held => ?_
  obtain ⟨W, onward, _⟩ :=
    held.toSealed.release rfl own (held.covers invocation member rfl).1
  exact ⟨W, onward⟩

theorem Kept.exec {name text : List UInt8} (kept : Kept h acquired waiting)
    (present : engine.index < h.engines.size) (ordinary : h.OrdinaryExec engine name text) :
    Kept (h.exec engine name text).2 acquired waiting := by
  have runs := runsOn_exec h engine name text
  refine kept.onward present runs.size (kept.stocked.serves (serves_exec h engine name text)
    (Nat.le_of_eq runs.size.symm)) runs.others fun V held => ?_
  obtain ⟨W, bides⟩ := held.toSealed.exec ordinary
  exact ⟨W, bides.toOnward⟩

theorem Kept.offer {name : String} {function : Nat} (kept : Kept h acquired waiting)
    (present : engine.index < h.engines.size) (free : ∀ binding : Binding, name ≠ binding.name) :
    Kept (h.setGlobal engine name (.builtin (.host (.callback function)))) acquired waiting := by
  have runs := RunsOn.modifyHeap engine h fun heap =>
    heap.rawSetText heap.globals name (.builtin (.host (.callback function)))
  refine kept.onward present runs.size (kept.stocked.serves (Serves.modifyHeap ..)
    (Nat.le_of_eq runs.size.symm)) runs.others fun V held => ?_
  have guards := held.toSealed.seals.toGuards
  have key : V.Shares (Key.ofText name).value := trivial
  have value : V.Shares (Value.builtin (.host (.callback function))) := trivial
  have passes := guards.rawSet guards.shares_table key value
    fun _ _ binding => Key.ofText_ne (free binding)
  have bides := Bides.ofPasses held.toSealed passes
  have same : h.setGlobal engine name (.builtin (.host (.callback function))) =
      h.modifyHeap engine fun _ => (h.heap engine).rawSet (h.heap engine).globals (.ofText name)
        (.builtin (.host (.callback function))) := modifyEngine_congr rfl
  rw [same]
  exact ⟨_, bides.toOnward⟩

theorem Kept.load {name text : List UInt8} {f : Value} (kept : Kept h acquired waiting)
    (present : engine.index < h.engines.size)
    (loaded : h.load engine name text = (.ok f, after)) : Kept after acquired waiting := by
  have runs := runsOn_load h engine name text
  have serves := serves_load h engine name text
  rw [loaded] at runs serves
  refine kept.onward present runs.size (kept.stocked.serves serves (Nat.le_of_eq runs.size.symm))
    runs.others fun V held => ?_
  obtain ⟨W, bides, _⟩ := held.toSealed.load name text
  rw [loaded] at bides
  exact ⟨W, bides.toOnward⟩

theorem shares_load {name text : List UInt8} {f : Value}
    (loaded : h.load engine name text = (.ok f, after)) (V : Vault) : V.Shares f := by
  unfold Host.load at loaded
  split at loaded
  · cases loaded
  · unfold Library.loadText at loaded
    cases parsed : Chunk.parse (Library.chunkDisplay name) text with
    | error message =>
        simp only [parsed] at loaded
        cases loaded
    | ok chunk =>
        simp only [parsed] at loaded
        cases loaded
        trivial

theorem Reachable.kept (reachable : Reachable h acquired waiting) : Kept h acquired waiting := by
  -- An invocation may be released more than once, so the invariant speaks of all that were acquired.
  induction reachable with
  | start none_ stocked =>
      refine ⟨stocked, fun _ member => ?_, fun _ member => ?_, fun engine present => ?_⟩
      · cases member
      · cases member
      · rw [none_] at present
        exact absurd present (Nat.not_lt_zero _)
  | beside _ size stocked stores ih => exact ih.beside size stocked stores
  | @create h acquired waiting factory options _ ordinary ih =>
      have makes := makes_createEngine ordinary
      exact ih.makes makes
        (ih.stocked.serves (serves_createEngine h factory options) makes.grows.size)
  | acquire _ ordinary given ih => exact ih.acquire ordinary given
  | refuse _ ordinary refused ih => exact ih.refuse ordinary refused
  | release _ member ih => exact ih.release member
  | script _ present ordinary ih => exact ih.exec present ordinary
  | offer _ present free ih => exact ih.offer present free
  | @begin h after acquired waiting engine name text f _ present loaded ordinary ih =>
      have runs := runsOn_load h engine name text
      rw [loaded] at runs
      obtain ⟨count, started⟩ := start_eq after engine (Library.hostCall f [])
      rw [startFunction, started]
      refine (ih.load present loaded).advance (runs.size.symm ▸ present) _ _ count (fun V _ => ?_)
        ordinary
      have yields := Vault.yields_hostCall (shares_load loaded V) Vault.shares_nil
      exact ⟨⟨fun _ member => absurd member List.not_mem_nil,
        fun _ member => absurd member List.not_mem_nil⟩, yields.run⟩
  | @resume h acquired waiting s answer _ member ordinary ih =>
      obtain ⟨count, resumed⟩ := resume_eq h s.engine s.stack (s.next answer)
      rw [resumed]
      refine ih.advance (ih.present s member) _ _ count (fun V held => ?_) ordinary
      obtain ⟨stack, next⟩ := held.safe s member rfl
      exact ⟨stack, next answer V (.refl V)⟩

end Host

end ScriptHost
