import ScriptHost.Proofs.InvocationHistory
import ScriptHost.Proofs.ReachableHosts

/-!
# Guards of invocations and of hosts

An invocation keeps the guards of its redirection and of its scope to itself, and uses them on its
own engine only. What hosts do with guards of their own, on the same engines and in any order, can
therefore make a release come too early, but never go wrong.
-/

set_option autoImplicit false

namespace ScriptHost

open Lua

namespace Host

variable {h middle after : Host} {engine : EngineId}

/-- Whatever happens besides attaching and detaching: engines are added, and no redirection starts
or ends. -/
structure Beside (h after : Host) : Prop where
  size : h.engines.size ≤ after.engines.size
  active : ∀ engine, (after.routing engine).active = (h.routing engine).active
  stocked : Stocked h → Stocked after

namespace Beside

theorem trans (first : Beside h middle) (second : Beside middle after) : Beside h after where
  size := Nat.le_trans first.size second.size
  active engine := (second.active engine).trans (first.active engine)
  stocked := second.stocked ∘ first.stocked

theorem ofWorksOn {requests : List Request} (works : WorksOn engine h after)
    (serves : Serves requests h after) : Beside h after where
  size := Nat.le_of_eq works.size.symm
  active other := by
    by_cases same : other = engine
    · rw [same, works.routing]
    · rw [routing, works.others other same, routing]
  stocked stocked := stocked.serves serves (Nat.le_of_eq works.size.symm)

theorem ofGrows (grows : Grows h after) (stocked : Stocked h → Stocked after) : Beside h after where
  size := grows.size
  active engine := by
    rcases Nat.lt_or_ge engine.index h.engines.size with there | missing
    · rw [routing, grows.engine engine there, routing]
    · rw [grows.idle engine missing, Grows.active_of_missing missing]
  stocked := stocked

theorem exec (h : Host) (engine : EngineId) (name text : List UInt8) :
    Beside h (h.exec engine name text).2 :=
  ofWorksOn (runsOn_exec h engine name text).worksOn (serves_exec h engine name text)

/-- Scripts may go on, also those that have been waiting. -/
theorem advance (h : Host) (mayPause : Bool) (engine : EngineId) (stack : Stack) (action : Action) :
    Beside h (h.advance mayPause engine stack action).2 :=
  ofWorksOn (runsOn_advance h engine mayPause stack action).worksOn
    (serves_advance h mayPause engine stack action)

theorem start (h : Host) (engine : EngineId) (script : Eval (List Value)) :
    Beside h (h.start engine script).2 := by
  obtain ⟨count, same⟩ := start_eq h engine script
  rw [same]
  exact (advance ..).trans (ofWorksOn (.modifyEngine engine _ fun _ => rfl) (Serves.modifyEngine ..))

theorem resume (h : Host) (engine : EngineId) (stack : Stack) (action : Action) :
    Beside h (h.resume engine stack action).2 := by
  obtain ⟨count, same⟩ := resume_eq h engine stack action
  rw [same]
  exact (advance ..).trans (ofWorksOn (.modifyEngine engine _ fun _ => rfl) (Serves.modifyEngine ..))

theorem createEngine (h : Host) (factory : Factory) (options : EngineOptions) :
    Beside h (h.createEngine factory options).2 :=
  ofGrows (grows_createEngine h factory options) fun stocked =>
    stocked.serves (serves_createEngine h factory options) (grows_createEngine h factory options).size

theorem inject (h : Host) (engine : EngineId) (context : Context) (cached : Bool)
    (manager? : Option ManagerId) : Beside h (h.inject engine context cached manager?).2 :=
  ofWorksOn (runsOn_inject h engine context cached manager?).worksOn
    (serves_inject h engine context cached manager?)

theorem clear (h : Host) (engine : EngineId) (guard : BindingGuard) :
    Beside h (h.clear engine guard).2 :=
  ofWorksOn (runsOn_clear h engine guard).worksOn (serves_clear h engine guard)

theorem setSearchPaths (h : Host) (engine : EngineId) (paths : List Path) :
    Beside h (h.setSearchPaths engine paths).2 :=
  ofWorksOn (worksOn_setSearchPaths h engine paths) (serves_setSearchPaths h engine paths)

/-- Replacing the output of an engine ends none of its redirections. -/
theorem replaceOutput (h : Host) (engine : EngineId) (stream : Stream) :
    Beside h (h.replaceOutput engine stream).2 where
  size := by simp [Host.replaceOutput, alterRouting]
  active other := by
    by_cases same : other = engine
    · by_cases present : engine.index < h.engines.size
      · rw [same, routing_replaceOutput_self present]
        rfl
      · unfold Host.replaceOutput alterRouting
        dsimp only
        rw [modifyEngine_of_le (Nat.not_lt.mp present)]
    · rw [routing_replaceOutput_of_ne same]
  stocked stocked cache key other found := by
    rw [Host.replaceOutput, alterRouting, size_engines_modifyEngine]
    exact stocked cache key other found

theorem clearEngines (h : Host) (id : ManagerId) : Beside h (h.clearEngines id).2 where
  size := Nat.le_refl _
  active _ := rfl
  stocked stocked := by
    have emptied : Stocked (h.alterCache (h.manager id).cache EngineCache.reset).2 := by
      refine stocked.alterCache _ fun key engine found => ?_
      rw [EngineCache.get?_of_nil rfl] at found
      cases found
    exact emptied

end Beside

/-! ## Acquisitions -/

/-- What an acquisition does to redirections: after whatever else happens, the stream of the context
is attached to the engine, and the invocation keeps the guards. -/
structure Attaches (h : Host) (context : Context) (invocation : Invocation) (after : Host) :
    Prop where
  same : invocation.context = context
  bindings : invocation.bindings.engine = invocation.engine
  attached : ∃ selected, Beside h selected ∧
    invocation.engine.index < selected.engines.size ∧
    invocation.stream = (selected.attach invocation.engine context.output).1 ∧
    Beside (selected.attach invocation.engine context.output).2 after

theorem attaches_of_acquire {id : ManagerId} {context : Context} {invocation : Invocation}
    (stocked : Stocked h) (acquires : h.acquire id context = (.ok invocation, after)) :
    Attaches h context invocation after := by
  obtain ⟨selected, injected, selects, enters, sets, same, stream⟩ := steps_of_acquire acquires
  obtain ⟨keptStock, present⟩ := stocked_selectEngine stocked id context.policy context.cacheKey
  have grows := grows_selectEngine h id context.policy context.cacheKey
  have injects := Beside.inject (selected.attach invocation.engine context.output).2
    invocation.engine context invocation.cached (some id)
  have assigns := Beside.setSearchPaths injected invocation.engine
    (injected.effectivePaths id context)
  rw [selects] at keptStock present grows
  rw [enters] at injects
  rw [sets] at assigns
  exact ⟨same, engine_of_inject enters, selected, .ofGrows grows fun _ => keptStock,
    present _ _ rfl, stream, injects.trans assigns⟩

theorem beside_of_acquire_error {id : ManagerId} {context : Context} {e : EngineError}
    (fails : h.acquire id context = (.error e, after)) (stocked : Stocked h) : Beside h after := by
  have keptStock := (stocked_selectEngine stocked id context.policy context.cacheKey).1
  have grows := Beside.ofGrows (grows_selectEngine h id context.policy context.cacheKey)
    fun _ => keptStock
  cases selects : h.selectEngine id context.policy context.cacheKey with
  | mk result selected =>
      rw [selects] at grows
      cases result with
      | error fault =>
          rw [acquire_of_error selects] at fails
          cases fails
          exact grows
      | ok choice =>
          obtain ⟨engine, cached⟩ := choice
          have refused := (refused_of_acquire selects fails).restored
          have serves := (serves_acquire selects).2
          rw [fails] at serves
          exact grows.trans
            ⟨Nat.le_of_eq refused.size.symm, fun other => (refused.everywhere other).1, fun stocked =>
              stocked.serves serves (Nat.le_of_eq refused.size.symm)⟩

/-! ## Releases -/

/-- Nothing of a scope is there for scripts. -/
def ScopeAbsent (h : Host) (guard : BindingGuard) : Prop :=
  ∀ binding : Binding, ((h.heap guard.engine).rawGetText guard.scope binding.name).isAbsent = true

end Host

namespace Scope

variable {h : Heap} {scope : TableId}

theorem size_tables_blank (h : Heap) (scope : TableId) :
    (blank scope h).tables.size = h.tables.size := by
  unfold blank
  induction Binding.names generalizing h with
  | nil => rfl
  | cons name rest ih => exact (ih _).trans (Heap.size_tables_rawSet ..)

theorem isAbsent_blank (h : Heap) (scope : TableId) (binding : Binding) :
    ((blank scope h).rawGetText scope binding.name).isAbsent = true := by
  by_cases present : scope.index < h.tables.size
  · rw [(blank_spec present).2 binding]
    rfl
  · have missing : (blank scope h).tables.size ≤ scope.index := by
      rw [size_tables_blank]
      exact Nat.not_lt.mp present
    rw [Heap.rawGetText, Heap.rawGet, Heap.table_of_le missing, Table.get_empty]
    rfl

theorem isAbsent_leave (h : Heap) (guard : BindingGuard) (binding : Binding) :
    ((leave guard h).rawGetText guard.scope binding.name).isAbsent = true := by
  have blanked := isAbsent_blank h guard.scope binding
  have entered : ∀ previous, ((setCurrent previous (blank guard.scope h)).rawGetText guard.scope
      binding.name).isAbsent = true := by
    intro previous
    unfold setCurrent
    split
    · rw [Heap.rawGetText_rawSetText_of_ne (by cases binding <;> decide)]
      exact blanked
    · exact blanked
  change ((reenter guard (blank guard.scope h)).rawGetText guard.scope binding.name).isAbsent = true
  unfold reenter
  split
  · split
    · exact entered _
    · exact blanked
  · exact blanked

end Scope

namespace Host

variable {h after : Host}

theorem scopeAbsent_release {invocation : Invocation}
    (own : invocation.bindings.engine = invocation.engine)
    (present : invocation.engine.index < h.engines.size) :
    (h.release invocation).2.ScopeAbsent invocation.bindings := by
  intro binding
  have left := Scope.isAbsent_leave (h.heap invocation.engine) invocation.bindings binding
  rw [own]
  rcases (released_of_release own present).scope with same | ⟨running, collected⟩
  · rw [same]
    exact left
  · rw [collected]
    rcases Heap.rawGet_collect_or_nil running _ invocation.bindings.scope (.ofText binding.name) with
      kept | gone
    · rw [Heap.rawGetText, kept]
      exact left
    · rw [Heap.rawGetText, gone]
      rfl

end Host

/-! ## Histories -/

/-- One attachment to an engine, who keeps its guard, and what has become of it. -/
structure Holding where
  guard : StreamGuard
  /-- The invocation that keeps the guard. Without one, the host that has attached the stream does. -/
  invocation? : Option Invocation := none
  /-- Whether the guard is still to be handed back. -/
  held : Bool := true
  /-- Whether the guard has not been handed back to its own engine. -/
  active : Bool := true

namespace Holding

def activeOn (engine : EngineId) (a : Holding) : Bool := a.active && a.guard.engine == engine

/-- An attachment after its guard has been handed back to an engine. -/
def handedTo (engine : EngineId) (a : Holding) : Holding :=
  { a with held := false, active := a.active && a.guard.engine != engine }

/-- The same attachment, whoever keeps the guard. -/
def attachment (a : Holding) : Attachment where
  guard := a.guard
  before := default
  opens := false
  held := a.held
  active := a.active

/-- An invocation keeps guards for its own engine. -/
structure Formed (a : Holding) : Prop where
  stream : ∀ i, a.invocation? = some i → a.guard = i.stream
  engine : ∀ i, a.invocation? = some i → i.stream.engine = i.engine
  bindings : ∀ i, a.invocation? = some i → i.bindings.engine = i.engine

theorem formed_of_host {a : Holding} (own : a.invocation? = none) : a.Formed := by
  refine ⟨fun i kept => ?_, fun i kept => ?_, fun i kept => ?_⟩
  all_goals
    rw [own] at kept
    cases kept

end Holding

/-- A host, and what it and its invocations have attached to its engines since the start, the
earliest first. -/
structure GuardHistory where
  host : Host
  log : List Holding

namespace GuardHistory

open OutputHistory Attachment Host

/-- What hosts and managers do with guards. A host hands back only guards of its own, to any engine;
it may inject and clear bindings as it likes. -/
inductive Step : GuardHistory → GuardHistory → Prop where
  | attach {s} (engine : EngineId) (sink : Stream) : engine.index < s.host.engines.size →
      Step s ⟨(s.host.attach engine sink).2, s.log ++ [{ guard := (s.host.attach engine sink).1 }]⟩
  | detach {s a later} (engine : EngineId) (earlier : List Holding) :
      s.log = earlier ++ a :: later → a.invocation? = none → a.held = true →
      Step s ⟨(s.host.detach engine a.guard).2, earlier ++ a.handedTo engine :: later⟩
  | inject {s} (engine : EngineId) (context : Context) (cached : Bool)
      (manager? : Option ManagerId) :
      Step s ⟨(s.host.inject engine context cached manager?).2, s.log⟩
  | clear {s} (engine : EngineId) (guard : BindingGuard) :
      Step s ⟨(s.host.clear engine guard).2, s.log⟩
  | clearEngines {s} (id : ManagerId) : Step s ⟨(s.host.clearEngines id).2, s.log⟩
  | acquire {s after invocation} (id : ManagerId) (context : Context) :
      s.host.acquire id context = (.ok invocation, after) →
      Step s ⟨after, s.log ++ [{ guard := invocation.stream, invocation? := some invocation }]⟩
  | refuse {s after e} (id : ManagerId) (context : Context) :
      s.host.acquire id context = (.error e, after) → Step s ⟨after, s.log⟩
  /-- An invocation is released, or dropped, once. -/
  | release {s a later} (invocation : Invocation) (earlier : List Holding) :
      s.log = earlier ++ a :: later → a.invocation? = some invocation → a.held = true →
      Step s ⟨(s.host.release invocation).2, earlier ++ a.handedTo invocation.engine :: later⟩
  /-- Scripts run, and the host makes and changes what is not concerned. -/
  | beside {s after} : Host.Beside s.host after → Step s ⟨after, s.log⟩

/-- What is reached by steps from a host. -/
inductive Run (start : Host) : GuardHistory → Prop where
  | start : Run start ⟨start, []⟩
  | step {s t} : Run start s → Step s t → Run start t

/-- The guards that are held are those of redirections that are active. -/
structure Sound (s : GuardHistory) : Prop where
  stocked : Host.Stocked s.host
  tracked : Tracked ⟨s.host, s.log.map Holding.attachment⟩
  formed : ∀ a ∈ s.log, a.Formed

variable {start after : Host} {s t : GuardHistory} {earlier later : List Holding} {a : Holding}
  {engine : EngineId}

theorem tracked_attach {h : Host} {log : List Attachment} (tracked : Tracked ⟨h, log⟩)
    (present : engine.index < h.engines.size) (sink : Stream) {new : Attachment}
    (guard : new.guard = (h.attach engine sink).1) (active : new.active = true) :
    Tracked ⟨(h.attach engine sink).2, log ++ [new]⟩ := by
  have attached := tracked.attach present sink
  refine ⟨?_, ?_, ?_⟩
  · intro b member
    rcases List.mem_append.mp member with old | last
    · exact attached.present b (List.mem_append_left _ old)
    · rw [List.mem_singleton.mp last, guard]
      exact attached.present _ (List.mem_append_right _ List.mem_cons_self)
  · intro b member held
    rcases List.mem_append.mp member with old | last
    · exact attached.held b (List.mem_append_left _ old) held
    · rw [List.mem_singleton.mp last, active]
  · intro other
    refine (attached.entries other).trans ?_
    simp only [OutputHistory.attach, entriesOn_append, entriesOn_cons, Attachment.activeOn,
      Attachment.entry, guard, active]
    rfl

theorem Sound.attach (sound : Sound s) (present : engine.index < s.host.engines.size)
    (sink : Stream) (guard : a.guard = (s.host.attach engine sink).1) (active : a.active = true)
    (formed : a.Formed) : Sound ⟨(s.host.attach engine sink).2, s.log ++ [a]⟩ where
  stocked := sound.stocked.serves (serves_attach ..) (Nat.le_of_eq (size_engines_attach sink).symm)
  tracked := by
    rw [List.map_append]
    exact tracked_attach sound.tracked present sink guard active
  formed b member := by
    rcases List.mem_append.mp member with old | last
    · exact sound.formed b old
    · rw [List.mem_singleton.mp last]
      exact formed

theorem Sound.beside (sound : Sound s) (beside : Host.Beside s.host after) : Sound ⟨after, s.log⟩ where
  stocked := beside.stocked sound.stocked
  tracked := sound.tracked.rehost beside.size beside.active
  formed := sound.formed

/-- A guard is handed back, to its own engine or to another one. -/
theorem Sound.handOver (sound : Sound s) (engine : EngineId) (split : s.log = earlier ++ a :: later)
    (held : a.held = true) :
    Sound ⟨(s.host.detach engine a.guard).2, earlier ++ a.handedTo engine :: later⟩ where
  stocked := sound.stocked.serves (serves_detach ..) (Nat.le_of_eq (size_engines_detach _).symm)
  tracked := by
    rw [List.map_append, List.map_cons]
    refine sound.tracked.detach engine (a := a.attachment) ?_ held
    rw [split, List.map_append, List.map_cons]
  formed b member := by
    have before : ∀ b ∈ earlier ++ a :: later, b.Formed := split ▸ sound.formed
    rcases List.mem_append.mp member with early | rest
    · exact before b (List.mem_append_left _ early)
    · rcases List.mem_cons.mp rest with rfl | late
      · have own := before a (List.mem_append_right _ List.mem_cons_self)
        exact ⟨own.stream, own.engine, own.bindings⟩
      · exact before b (List.mem_append_right _ (List.mem_cons_of_mem _ late))

/-- A release hands the guard of its invocation to the right engine. -/
theorem Sound.release (sound : Sound s) {invocation : Invocation}
    (split : s.log = earlier ++ a :: later) (own : a.invocation? = some invocation)
    (held : a.held = true) :
    Sound ⟨(s.host.release invocation).2, earlier ++ a.handedTo invocation.engine :: later⟩ := by
  have formed := sound.formed a (by simp [split])
  have cleared := sound.beside (.clear s.host invocation.engine invocation.bindings)
  have detached := cleared.handOver invocation.engine split held
  rw [formed.stream invocation own] at detached
  obtain ⟨_, last | last⟩ := release_eq s.host invocation
  · rw [last]
    exact detached
  · rw [last]
    exact detached.beside (.ofWorksOn (runsOn_collectGarbage ..).worksOn (Serves.modifyEngine ..))

theorem Sound.step (sound : Sound s) (taken : Step s t) : Sound t := by
  cases taken with
  | attach engine sink present =>
      exact sound.attach present sink rfl rfl (Holding.formed_of_host rfl)
  | detach engine earlier split _ held => exact sound.handOver engine split held
  | inject engine context cached manager? =>
      exact sound.beside (.inject s.host engine context cached manager?)
  | clear engine guard => exact sound.beside (.clear s.host engine guard)
  | clearEngines id => exact sound.beside (.clearEngines s.host id)
  | acquire id context acquires =>
      rename_i invocation
      obtain ⟨_, bindings, selected, before, present, stream, rest⟩ :=
        attaches_of_acquire sound.stocked acquires
      have formed : Holding.Formed { guard := invocation.stream, invocation? := some invocation } := by
        refine ⟨fun i same => ?_, fun i same => ?_, fun i same => ?_⟩ <;> cases same
        · rfl
        · exact congrArg StreamGuard.engine stream
        · exact bindings
      exact ((sound.beside before).attach present context.output stream rfl formed).beside rest
  | refuse id context fails => exact sound.beside (beside_of_acquire_error fails sound.stocked)
  | release invocation earlier split own held => exact sound.release split own held
  | beside happens => exact sound.beside happens

theorem Run.sound (idle : Idle start) (stocked : Stocked start) (run : Run start s) : Sound s := by
  induction run with
  | start => exact ⟨stocked, tracked_start idle, by simp⟩
  | step _ taken ih => exact ih.step taken

/-- What a release comes to. `front` and `back` are the redirections before and after the one of the
invocation. -/
structure ReleasesOwn (h : Host) (i : Invocation) (front back : List (Nat × Stream)) : Prop where
  stack : (h.routing i.engine).active.map Redirection.entry =
    front ++ (i.stream.redirection, i.stream.attached) :: back
  outcome : (h.release i).1 = if back.isEmpty then .ok () else .error (.streamOutOfOrder i.engine)
  /-- Exactly the own redirection is gone. -/
  rest : ((h.release i).2.routing i.engine).active.map Redirection.entry = front ++ back
  others : ∀ other, other ≠ i.engine → (h.release i).2.routing other = h.routing other
  absent : (h.release i).2.ScopeAbsent i.bindings

theorem Sound.releasesOwn (sound : Sound s) {invocation : Invocation}
    (split : s.log = earlier ++ a :: later) (own : a.invocation? = some invocation)
    (held : a.held = true) :
    ReleasesOwn s.host invocation
      (entriesOn invocation.engine (earlier.map Holding.attachment))
      (entriesOn invocation.engine (later.map Holding.attachment)) := by
  have formed := sound.formed a (by simp [split])
  have guard : a.attachment.guard = invocation.stream := formed.stream invocation own
  have home := formed.engine invocation own
  have attachments : s.log.map Holding.attachment =
      earlier.map Holding.attachment ++ a.attachment :: later.map Holding.attachment := by
    rw [split, List.map_append, List.map_cons]
  have member : a.attachment ∈ s.log.map Holding.attachment := by simp [attachments]
  have present := sound.tracked.present a.attachment member
  rw [guard, home] at present
  constructor
  case stack =>
    have stack := sound.tracked.split attachments (sound.tracked.held a.attachment member held)
    rwa [guard, home] at stack
  case outcome =>
    have cleared := sound.beside (.clear s.host invocation.engine invocation.bindings)
    have detaches := (cleared.tracked.detach_outcome attachments held).2
    rw [guard, home] at detaches
    rw [(release_eq s.host invocation).1, clear, if_pos (formed.bindings invocation own),
      entriesOn_isEmpty]
    rw [clear, if_pos (formed.bindings invocation own)] at detaches
    refine detaches.trans ?_
    cases (later.map Holding.attachment).any (Attachment.activeOn invocation.engine) <;> rfl
  case rest =>
    have after := (sound.release split own held).tracked.entries invocation.engine
    rw [List.map_append, List.map_cons] at after
    exact after.trans (entriesOn_handedTo_self invocation.engine a.attachment _ _)
  case others =>
    intro other different
    rw [routing, (released_of_release (formed.bindings invocation own) present).others other different,
      routing]
  case absent => exact scopeAbsent_release (formed.bindings invocation own) present

/-- Whatever guards of their own hosts have handed back before, and whatever managers and scripts have
done: a release of an invocation that is not released finds its redirection, and it comes to an error
exactly if one that was attached later to the engine is still active. In both cases the scope of the
invocation is absent afterwards, and its own redirection has left the stack and no other one. -/
theorem release_ends_own_redirection {start : Host} (idle : Idle start) (stocked : Stocked start)
    {s : GuardHistory} (run : Run start s) {earlier later : List Holding} {a : Holding}
    {invocation : Invocation} (split : s.log = earlier ++ a :: later)
    (own : a.invocation? = some invocation) (held : a.held = true) :
    (s.host.release invocation).1 =
        (if later.any (Holding.activeOn invocation.engine) then
          .error (.streamOutOfOrder invocation.engine) else .ok ()) ∧
      ∃ front, ReleasesOwn s.host invocation front
        ((later.filter (Holding.activeOn invocation.engine)).map fun b =>
          (b.guard.redirection, b.guard.attached)) := by
  have releases := (run.sound idle stocked).releasesOwn split own held
  have active : entriesOn invocation.engine (later.map Holding.attachment) =
      (later.filter (Holding.activeOn invocation.engine)).map fun b =>
        (b.guard.redirection, b.guard.attached) := by
    rw [entriesOn, List.filter_map, List.map_map]
    rfl
  have outcome := releases.outcome
  rw [entriesOn_isEmpty, List.any_map] at outcome
  rw [active] at releases
  refine ⟨outcome.trans ?_, _, releases⟩
  change (if !later.any (Holding.activeOn invocation.engine) then _ else _) = _
  cases later.any (Holding.activeOn invocation.engine) <;> rfl

open InvocationHistory (oneManager toolContext idle_oneManager)

theorem stocked_oneManager : Stocked oneManager := by
  intro cache key engine found
  have empty : (oneManager.cache cache).entries = [] := by
    obtain ⟨_ | index⟩ := cache <;> rfl
  rw [EngineCache.get?_of_nil empty] at found
  cases found

/-- A host attaches a stream to the engine of an invocation, and the cache is emptied; then the
invocation is released too early. -/
theorem release_ends_own_redirection_too_early :
    ∃ s a later invocation, Idle oneManager ∧
      Stocked oneManager ∧ Run oneManager s ∧
      s.log = [] ++ a :: later ∧ a.invocation? = some invocation ∧ a.held = true ∧
      (s.host.release invocation).1 = .error (.streamOutOfOrder ⟨0⟩) ∧
      (s.host.release invocation).2.ScopeAbsent invocation.bindings := by
  have facts : (oneManager.acquire ⟨0⟩
        (toolContext 0 "outer")).1.toOption.map Invocation.engine = some ⟨0⟩ ∧
      (oneManager.acquire ⟨0⟩
        (toolContext 0 "outer")).2.engines.size = 1 := by
    decide +kernel
  cases acquires : oneManager.acquire ⟨0⟩
      (toolContext 0 "outer") with
  | mk result after =>
      rw [acquires] at facts
      obtain ⟨succeeds, size⟩ := facts
      cases result with
      | error e => cases succeeds
      | ok invocation =>
          have engine : invocation.engine = ⟨0⟩ := Option.some.inj succeeds
          have run := ((Run.start.step (.acquire ⟨0⟩ _ acquires)).step
            (.attach ⟨0⟩ ⟨"own", ⟨1⟩⟩ (by rw [size]; decide))).step (.clearEngines ⟨0⟩)
          obtain ⟨outcome, front, releases⟩ := release_ends_own_redirection
            idle_oneManager stocked_oneManager run (List.nil_append _).symm rfl rfl
          refine ⟨_, _, _, invocation, idle_oneManager, stocked_oneManager, run, rfl, rfl, rfl,
            outcome.trans ?_, releases.absent⟩
          rw [engine]
          rfl

end GuardHistory

end ScriptHost
