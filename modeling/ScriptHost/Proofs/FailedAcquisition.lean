import ScriptHost.Proofs.Injection
import ScriptHost.Proofs.RedirectionChain
import ScriptHost.Proofs.Selection

/-!
# Acquisitions that fail

An acquisition that fails after an engine was selected takes back what it has done: the output of
the engine and its redirections are as they were, and so are the bindings and the patterns of
modules if no script has put functions of its own in the way.
-/

set_option autoImplicit false

namespace ScriptHost

open Lua Scope

namespace Host

/-! ## Output -/

/-- Nothing of an engine but its store has changed, and nothing at all of the other ones. -/
structure Restored (engine : EngineId) (h after : Host) : Prop where
  size : after.engines.size = h.engines.size
  others : ∀ other, other ≠ engine → after.engine other = h.engine other
  output : after.output engine = h.output engine
  active : (after.routing engine).active = (h.routing engine).active
  searchPaths : (after.engine engine).searchPaths = (h.engine engine).searchPaths
  options : (after.engine engine).options = (h.engine engine).options

variable {h middle : Host} {engine : EngineId}

/-- A stream that is detached after some work on its engine leaves the output as it was. -/
theorem outputs_of_worksOn {sink : Stream} (works : WorksOn engine (h.attach engine sink).2 middle) :
    (∀ other, other ≠ engine →
        (middle.detach engine (h.attach engine sink).1).2.engine other = h.engine other) ∧
      (middle.detach engine (h.attach engine sink).1).2.output engine = h.output engine ∧
      ((middle.detach engine (h.attach engine sink).1).2.routing engine).active =
        (h.routing engine).active := by
  have own : (h.attach engine sink).1.engine = engine := rfl
  have size : middle.engines.size = h.engines.size := works.size.trans (size_engines_attach sink)
  constructor
  · intro other different
    rw [engine_detach_of_ne different, works.others other different,
      engine_attach_of_ne different]
  · by_cases present : engine.index < h.engines.size
    · have routed : middle.routing engine = ((h.routing engine).attach sink).2 :=
        works.routing.trans (routing_attach_self present sink)
      rw [Host.output, routing_detach_self (by rw [size]; exact present) _ own, routed]
      exact Routing.detach_attach (h.routing engine) sink
    · have missing := Nat.not_lt.mp present
      have unchanged : (h.attach engine sink).2 = h := modifyEngine_of_le missing _
      have same : middle.routing engine = h.routing engine := by rw [works.routing, unchanged]
      rw [detach_self _ own, modifyEngine_of_le (by rw [size]; exact missing)]
      exact ⟨congrArg Routing.output same, congrArg Routing.active same⟩

/-- If nothing but scripts ran in between, then only the store of the engine has changed. -/
theorem restored_of_runsOn {sink : Stream} (runs : RunsOn engine (h.attach engine sink).2 middle) :
    Restored engine h (middle.detach engine (h.attach engine sink).1).2 := by
  obtain ⟨others, output, active⟩ := outputs_of_worksOn runs.worksOn
  obtain ⟨attachedRouting, attached⟩ := engine_attach h engine engine sink
  obtain ⟨detachedRouting, detached⟩ :=
    engine_detach middle engine engine (h.attach engine sink).1
  refine ⟨?_, others, output, active, ?_, ?_⟩
  · rw [size_engines_detach, runs.size, size_engines_attach]
  · rw [detached, runs.searchPaths, attached]
  · rw [detached, runs.options, attached]

/-- What an acquisition that fails has done before it detaches the stream again. -/
theorem exists_of_acquire_error {id : ManagerId} {context : Context} {cached : Bool}
    {selected : Host} {e : EngineError}
    (selects : h.selectEngine id context.policy context.cacheKey = (.ok (engine, cached), selected))
    (fails : (h.acquire id context).1 = .error e) :
    ∃ middle, RunsOn engine (selected.attach engine context.output).2 middle ∧
      (h.acquire id context).2 =
        (middle.detach engine (selected.attach engine context.output).1).2 ∧
      (((selected.attach engine context.output).2.inject engine context cached (some id)) =
          (.error e, middle) ∨
        ∃ guard injected assigned paths,
          (selected.attach engine context.output).2.inject engine context cached (some id) =
            (.ok guard, injected) ∧
          injected.setSearchPaths engine paths = (.error e, assigned) ∧
          middle = (assigned.clear engine guard).2) := by
  have injects := runsOn_inject (selected.attach engine context.output).2 engine context cached
    (some id)
  obtain ⟨injected, ⟨e, refused, acquired⟩ | ⟨guard, entered, assigned, ends⟩⟩ := acquire_cases selects
  · rw [refused] at injects
    rw [acquired] at fails ⊢
    obtain rfl := Except.error.inj fails
    exact ⟨injected, injects, rfl, .inl refused⟩
  · rw [entered] at injects
    rcases ends with ⟨e, refused, acquired⟩ | ⟨_, acquired⟩
    · have assigns := runsOn_setSearchPaths_of_error injected engine (congrArg Prod.fst refused)
      rw [refused] at assigns
      rw [acquired] at fails ⊢
      obtain rfl := Except.error.inj fails
      exact ⟨_, injects.trans (assigns.trans (runsOn_clear assigned engine guard)), rfl,
        .inr ⟨guard, injected, assigned, _, entered, refused, rfl⟩⟩
    · rw [acquired] at fails
      cases fails

/-! ## Releases -/

/-- Releases invocations one after another and yields what each release comes to. -/
def releaseAll (h : Host) : List Invocation → List (Except EngineError Unit)
  | [] => []
  | invocation :: rest => (h.release invocation).1 :: releaseAll (h.release invocation).2 rest

/-- On the engines of the first host, two hosts agree on where output goes and what it returns
to. -/
structure SameOutputs (h after : Host) : Prop where
  size : h.engines.size ≤ after.engines.size
  active : ∀ engine, engine.index < h.engines.size →
    (after.routing engine).active = (h.routing engine).active
  output : ∀ engine, engine.index < h.engines.size → after.output engine = h.output engine

theorem Grows.sameOutputs {after : Host} (grows : Grows h after) : SameOutputs h after :=
  ⟨grows.size, fun id present => by rw [routing, grows.engine id present, routing],
    fun id present => by rw [output, routing, grows.engine id present, output, routing]⟩

theorem Restored.everywhere {after : Host} (restored : Restored engine h after)
    (other : EngineId) :
    (after.routing other).active = (h.routing other).active ∧
      after.output other = h.output other := by
  by_cases same : other = engine
  · rw [same]
    exact ⟨restored.active, restored.output⟩
  · rw [Host.output, routing, restored.others other same]
    exact ⟨rfl, rfl⟩

theorem Restored.sameOutputs {after : Host} (restored : Restored engine h after) :
    SameOutputs h after :=
  ⟨Nat.le_of_eq restored.size.symm, fun other _ => (restored.everywhere other).1,
    fun other _ => (restored.everywhere other).2⟩

namespace SameOutputs

variable {after last : Host}

theorem trans (first : SameOutputs h after) (second : SameOutputs after last) :
    SameOutputs h last where
  size := Nat.le_trans first.size second.size
  active id present := by
    rw [second.active id (Nat.lt_of_lt_of_le present first.size), first.active id present]
  output id present := by
    rw [second.output id (Nat.lt_of_lt_of_le present first.size), first.output id present]

theorem previousOutput (same : SameOutputs h after) {guard : StreamGuard}
    (present : guard.engine.index < h.engines.size) :
    after.previousOutput guard = h.previousOutput guard := by
  have output := same.output guard.engine present
  rw [Host.output, Host.output] at output
  simp only [Host.previousOutput, Routing.previous?, Routing.find?, same.active _ present, output]

theorem ofRunsOn {later : Host} (same : SameOutputs h after) (runs : RunsOn engine h later)
    (alsoRuns : RunsOn engine after last) : SameOutputs later last := by
  have routings : ∀ {a b : Host}, RunsOn engine a b → ∀ other, b.routing other = a.routing other := by
    intro a b runs other
    by_cases here : other = engine
    · rw [here, runs.routing]
    · rw [routing, runs.others other here, routing]
  refine ⟨by rw [alsoRuns.size, runs.size]; exact same.size, ?_, ?_⟩
  · intro other present
    rw [routings alsoRuns, routings runs, same.active other (by rwa [runs.size] at present)]
  · intro other present
    have output := same.output other (by rwa [runs.size] at present)
    rw [Host.output, Host.output] at output ⊢
    rw [routings alsoRuns, routings runs, output]

theorem detach (same : SameOutputs h after) (present : engine.index < h.engines.size)
    (guard : StreamGuard) :
    (after.detach engine guard).1 = (h.detach engine guard).1 ∧
      SameOutputs (h.detach engine guard).2 (after.detach engine guard).2 := by
  have alsoPresent := Nat.lt_of_lt_of_le present same.size
  by_cases own : guard.engine = engine
  · obtain ⟨answer, active, output⟩ := Routing.detach_congr (same.active engine present)
      (same.output engine present) guard.redirection
    have routings : ∀ other, other.index < h.engines.size →
        ((after.detach engine guard).2.routing other).active =
            ((h.detach engine guard).2.routing other).active ∧
          (after.detach engine guard).2.output other = (h.detach engine guard).2.output other := by
      intro other there
      by_cases here : other = engine
      · subst here
        rw [Host.output, Host.output, routing_detach_self present guard own,
          routing_detach_self alsoPresent guard own]
        exact ⟨active, output⟩
      · rw [Host.output, Host.output, routing_detach_of_ne here, routing_detach_of_ne here]
        exact ⟨same.active other there, same.output other there⟩
    refine ⟨?_, by simpa using same.size, fun other there => (routings other ?_).1,
      fun other there => (routings other ?_).2⟩
    · rw [detach_self guard own, detach_self guard own, answer]
    · rwa [size_engines_detach] at there
    · rwa [size_engines_detach] at there
  · rw [detach_of_ne own, detach_of_ne own]
    exact ⟨rfl, same⟩

end SameOutputs

theorem runsOn_collectGarbage (h : Host) (engine : EngineId) :
    RunsOn engine h (h.collectGarbage engine) :=
  RunsOn.modifyEngine engine h fun e =>
    { e.store with heap := e.store.heap.collect (e.suspended != 0) }

/-- A release clears and detaches, and may collect garbage afterwards. -/
theorem release_eq (h : Host) (invocation : Invocation) :
    let engine := invocation.engine
    let cleared := h.clear engine invocation.bindings
    let detached := cleared.2.detach engine invocation.stream
    (h.release invocation).1 = (cleared.1.bind fun _ => detached.1) ∧
      ((h.release invocation).2 = detached.2 ∨
        (h.release invocation).2 = detached.2.collectGarbage engine) := by
  unfold release
  dsimp only
  generalize h.clear invocation.engine invocation.bindings = cleared
  obtain ⟨clearing, middle⟩ := cleared
  generalize middle.detach invocation.engine invocation.stream = detached
  obtain ⟨detaching, last⟩ := detached
  cases clearing with
  | error e => exact ⟨rfl, .inl rfl⟩
  | ok _ =>
      cases detaching with
      | error e => exact ⟨rfl, .inl rfl⟩
      | ok _ =>
          refine ⟨rfl, ?_⟩
          dsimp only
          split
          · exact .inr rfl
          · exact .inl rfl

theorem runsOn_release (h : Host) (invocation : Invocation) :
    RunsOn invocation.engine
      ((h.clear invocation.engine invocation.bindings).2.detach invocation.engine
        invocation.stream).2 (h.release invocation).2 := by
  obtain ⟨_, last | last⟩ := release_eq h invocation
  · rw [last]
    exact RunsOn.refl ..
  · rw [last]
    exact runsOn_collectGarbage ..

theorem size_engines_release (h : Host) (invocation : Invocation) :
    (h.release invocation).2.engines.size = h.engines.size := by
  rw [(runsOn_release h invocation).size, size_engines_detach, (runsOn_clear ..).size]

/-- Where output goes decides what releases come to. -/
theorem SameOutputs.release {after : Host} (same : SameOutputs h after) {invocation : Invocation}
    (present : invocation.engine.index < h.engines.size) :
    (after.release invocation).1 = (h.release invocation).1 ∧
      SameOutputs (h.release invocation).2 (after.release invocation).2 := by
  have clears := runsOn_clear h invocation.engine invocation.bindings
  have cleared := same.ofRunsOn clears (runsOn_clear after invocation.engine invocation.bindings)
  obtain ⟨answer, detached⟩ := cleared.detach (by rwa [clears.size]) invocation.stream
  refine ⟨?_, detached.ofRunsOn (runsOn_release h invocation) (runsOn_release after invocation)⟩
  have clearing : (after.clear invocation.engine invocation.bindings).1 =
      (h.clear invocation.engine invocation.bindings).1 := by
    unfold clear
    split <;> rfl
  rw [(release_eq after invocation).1, (release_eq h invocation).1, clearing, answer]

theorem SameOutputs.releaseAll (invocations : List Invocation) :
    ∀ {h after : Host}, SameOutputs h after →
      (∀ i ∈ invocations, i.engine.index < h.engines.size) →
      after.releaseAll invocations = h.releaseAll invocations := by
  induction invocations with
  | nil => exact fun _ _ => rfl
  | cons invocation rest ih =>
      intro h after same present
      obtain ⟨outcome, later⟩ := same.release (present invocation List.mem_cons_self)
      have others := ih later fun i member => by
        rw [size_engines_release]
        exact present i (List.mem_cons_of_mem invocation member)
      rw [Host.releaseAll, Host.releaseAll, outcome, others]

/-! ## Bindings -/

/-- If scopes work on the engine, its scripts see after a failed acquisition what they saw
before. -/
theorem rewound_of_acquire_error {id : ManagerId} {context : Context} {cached : Bool}
    {selected : Host} {e : EngineError}
    (selects : h.selectEngine id context.policy context.cacheKey = (.ok (engine, cached), selected))
    (fails : (h.acquire id context).1 = .error e) (orderly : Orderly (selected.heap engine)) :
    Rewound (selected.heap engine) ((h.acquire id context).2.heap engine) := by
  obtain ⟨middle, runs, finish, steps⟩ := exists_of_acquire_error selects fails
  have present : engine.index < (selected.attach engine context.output).2.engines.size := by
    rw [size_engines_attach]
    exact present_of_orderly orderly
  have attached := heap_attach selected engine engine context.output
  rw [finish, heap_detach, ← attached]
  rw [← attached] at orderly
  rcases steps with failed | ⟨guard, injected, assigned, paths, done, refused, cleared⟩
  · obtain ⟨_, _, ensured⟩ | ⟨_, _, ok, _⟩ :=
      inject_of_orderly present orderly context cached (some id)
    · rw [failed] at ensured
      exact ensured.rewound orderly
    · rw [failed] at ok
      cases ok
  · obtain ⟨_, error, _⟩ | ⟨_, _, ok, own, _, entered⟩ :=
      inject_of_orderly present orderly context cached (some id)
    · rw [done] at error
      cases error
    · rw [done] at ok entered
      cases ok
      have there : engine.index < injected.engines.size := by
        have injects := runsOn_inject (selected.attach engine context.output).2 engine context
          cached (some id)
        rw [done] at injects
        rwa [injects.size]
      obtain ⟨heap, steady, ⟨_, same⟩ | ⟨_, _, succeeds⟩⟩ :=
        setSearchPaths_of_orderly entered.orderly paths
      · have kept : assigned = injected.modifyHeap engine fun _ => heap := by
          rw [refused] at same
          exact congrArg Prod.snd same
        rw [cleared, kept, clear, if_pos own, modifyHeap_modifyHeap, heap_modifyHeap there]
        exact (entered.steady orderly steady).rewound orderly
      · rw [refused] at succeeds
        cases congrArg Prod.fst succeeds

theorem context?_detach (h : Host) (engine : EngineId) (guard : StreamGuard) (id : ContextId) :
    (h.detach engine guard).2.context? id = h.context? id := by
  by_cases own : guard.engine = engine
  · rw [detach_self guard own]
    rfl
  · rw [detach_of_ne own]

/-- What an acquisition that has failed leaves of the host with the engine selected. -/
structure Refused (engine : EngineId) (selected after : Host) : Prop where
  restored : Restored engine selected after
  contexts : ∀ id context, selected.context? id = some context → after.context? id = some context
  rewound : Orderly (selected.heap engine) → Rewound (selected.heap engine) (after.heap engine)

theorem refused_of_acquire {id : ManagerId} {context : Context} {cached : Bool}
    {selected after : Host} {e : EngineError}
    (selects : h.selectEngine id context.policy context.cacheKey = (.ok (engine, cached), selected))
    (refused : h.acquire id context = (.error e, after)) : Refused engine selected after := by
  have fails : (h.acquire id context).1 = .error e := congrArg Prod.fst refused
  obtain rfl : (h.acquire id context).2 = after := congrArg Prod.snd refused
  obtain ⟨middle, runs, finish, _⟩ := exists_of_acquire_error selects fails
  refine ⟨?_, ?_, rewound_of_acquire_error selects fails⟩
  · rw [finish]
    exact restored_of_runsOn runs
  · intro other context found
    rw [finish, context?_detach]
    exact runs.contexts other context found

end Host

end ScriptHost
