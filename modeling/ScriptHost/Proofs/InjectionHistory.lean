import ScriptHost.Proofs.CacheEffects
import ScriptHost.Proofs.InjectionEffects
import ScriptHost.Proofs.InvocationHistory

/-!
# Histories of injections

What a host sees under the names of bindings when injections come and go: its own and those of
invocations, cleared in whatever order, with acquisitions that fail and with all bindings made
absent in between. While no global has the name of a binding, nothing is read but the values of
injections whose guards have not been cleared.
-/

set_option autoImplicit false

namespace ScriptHost

open Lua Heap Scope

/-- A host, and all injections since the start. -/
structure InjectionHistory where
  host : Host
  log : List Injection

namespace InjectionHistory

def isOn (engine : EngineId) (a : Injection) : Bool := a.guard.engine == engine

def onEngine (engine : EngineId) (log : List Injection) : List Injection := log.filter (isOn engine)

/-- The injections after an acquisition, perhaps without success. -/
def acquire (s : InjectionHistory) (id : ManagerId) (context : Context) : InjectionHistory :=
  match s.host.acquire id context with
  | (.ok invocation, after) =>
    ⟨after, s.log ++ [.ofInvocation invocation id]⟩
  | (.error _, after) => ⟨after, s.log⟩

def inject (s : InjectionHistory) (engine : EngineId) (context : Context) (cached : Bool)
    (manager? : Option ManagerId) : InjectionHistory :=
  match s.host.inject engine context cached manager? with
  | (.ok guard, after) => ⟨after, s.log ++ [⟨guard, context, cached, manager?, false⟩]⟩
  | (.error _, after) => ⟨after, s.log⟩

/-- The injections after an attempt to clear a guard, which an engine refuses if it is not for
it. -/
def clear (s : InjectionHistory) (engine : EngineId) (guard : BindingGuard) : InjectionHistory :=
  ⟨(s.host.clear engine guard).2,
    if guard.engine = engine then s.log.map (Injection.clear guard) else s.log⟩

def release (s : InjectionHistory) (invocation : Invocation) : InjectionHistory :=
  ⟨(s.host.release invocation).2, s.log.map (Injection.clear invocation.bindings)⟩

/-- An assignment to a global, as scripts make it. -/
def assign (s : InjectionHistory) (engine : EngineId) (name : String) (v : Value) :
    InjectionHistory :=
  ⟨(s.host.setField engine (.table (s.host.heap engine).globals) name v).2, s.log⟩

/-- The engine that a manager selects is fit if there has been no injection on it. -/
def Admits (assigns : Bool) (s : InjectionHistory) (id : ManagerId) (context : Context) : Prop :=
  ∀ engine cached selected,
    s.host.selectEngine id context.policy context.cacheKey = (.ok (engine, cached), selected) →
    onEngine engine s.log = [] → Fit assigns (selected.heap engine)

/-- Injecting and clearing, by hand or with invocations. In between, scripts may run that change
nothing but free globals of the tables that are there, or assign any globals at all if they
are to, as long as scopes work afterwards. -/
inductive Step (assigns : Bool) : InjectionHistory → InjectionHistory → Prop where
  | inject {s} (engine : EngineId) (context : Context) (cached : Bool)
      (manager? : Option ManagerId) :
      (onEngine engine s.log = [] → Fit assigns (s.host.heap engine)) →
      Step assigns s (s.inject engine context cached manager?)
  | clear {s} (engine : EngineId) (a : Injection) : a ∈ s.log →
      Step assigns s (s.clear engine a.guard)
  | clearAll {s} (engine : EngineId) : Step assigns s ⟨s.host.clearAll engine, s.log⟩
  | acquire {s} (id : ManagerId) (context : Context) : Admits assigns s id context →
      Step assigns s (s.acquire id context)
  | release {s} (invocation : Invocation) (a : Injection) : a ∈ s.log →
      a.guard = invocation.bindings → a.guard.engine = invocation.engine →
      Step assigns s (s.release invocation)
  | script {s after} (engine : EngineId) : Host.RunsOn engine s.host after →
      Steady (InvocationHistory.freeGlobals (s.host.heap engine)) (s.host.heap engine)
        (after.heap engine) →
      Step assigns s ⟨after, s.log⟩
  | assign {s} (engine : EngineId) (name : String) (v : Value) : assigns = true →
      (Orderly (s.host.heap engine) → Orderly ((s.assign engine name v).host.heap engine)) →
      Step assigns s (s.assign engine name v)

/-- What is reached by steps. -/
inductive Run (assigns : Bool) (s : InjectionHistory) : InjectionHistory → Prop where
  | refl : Run assigns s s
  | step {t u} : Run assigns s t → Step assigns t u → Run assigns s u

/-- What holds on every engine that was fit at the start or has injections. -/
structure Coherent (assigns : Bool) (fit : EngineId → Prop) (free : EngineId → Binding → Prop)
    (s : InjectionHistory) : Prop where
  bounded : assigns = true → ∀ engine binding, free engine binding → fit engine
  kept : ∀ engine, fit engine ∨ onEngine engine s.log ≠ [] →
    Kept assigns (free engine) s.host.Knows (s.host.heap engine) (onEngine engine s.log)

variable {s t : InjectionHistory} {assigns : Bool} {fit : EngineId → Prop}
  {free : EngineId → Binding → Prop} {engine : EngineId} {log : List Injection}

/-! ## Injections on one engine -/

theorem onEngine_append (engine : EngineId) (log : List Injection) (a : Injection) :
    onEngine engine (log ++ [a]) =
      onEngine engine log ++ if isOn engine a then [a] else [] := by
  by_cases here : isOn engine a <;> simp [onEngine, here]

theorem onEngine_clear (engine : EngineId) (guard : BindingGuard) (log : List Injection) :
    onEngine engine (log.map (Injection.clear guard)) =
      (onEngine engine log).map (Injection.clear guard) := by
  rw [onEngine, List.filter_map]
  congr 1
  exact congrArg (List.filter · log) (funext fun a => by simp [isOn])

theorem onEngine_clear_of_ne {guard : BindingGuard} (other : engine ≠ guard.engine)
    (log : List Injection) :
    onEngine engine (log.map (Injection.clear guard)) = onEngine engine log := by
  rw [onEngine_clear]
  refine (List.map_congr_left fun a listed => ?_).trans (List.map_id _)
  have here : a.guard.engine = engine := by simpa [onEngine, isOn] using (List.mem_filter.mp listed).2
  rw [Injection.clear, if_neg fun same => other (here.symm.trans same.1)]
  rfl

namespace Coherent

theorem present (coherent : Coherent assigns fit free s)
    (covered : fit engine ∨ onEngine engine s.log ≠ []) :
    engine.index < s.host.engines.size :=
  Host.present_of_orderly (coherent.kept engine covered).nested.orderly

theorem on (coherent : Coherent assigns fit free s) (engine : EngineId) {after : Host}
    {log : List Injection}
    (contexts : ∀ id context, s.host.Knows id context → after.Knows id context)
    (others : ∀ other, other ≠ engine → other.index < s.host.engines.size →
      after.heap other = s.host.heap other)
    (logs : ∀ other, other ≠ engine → onEngine other log = onEngine other s.log)
    (own : fit engine ∨ onEngine engine log ≠ [] →
      Kept assigns (free engine) after.Knows (after.heap engine) (onEngine engine log)) :
    Coherent assigns fit free ⟨after, log⟩ where
  bounded := coherent.bounded
  kept other covered := by
    by_cases same : other = engine
    · subst same
      exact own covered
    · rw [logs other same] at covered ⊢
      rw [others other same (coherent.present covered)]
      exact (coherent.kept other covered).mono contexts

theorem runsOn (coherent : Coherent assigns fit free s) {after : Host} {log : List Injection}
    (runs : Host.RunsOn engine s.host after)
    (logs : ∀ other, other ≠ engine → onEngine other log = onEngine other s.log)
    (own : fit engine ∨ onEngine engine log ≠ [] →
      Kept assigns (free engine) after.Knows (after.heap engine) (onEngine engine log)) :
    Coherent assigns fit free ⟨after, log⟩ := by
  refine coherent.on engine runs.contexts (fun other different _ => ?_) logs own
  rw [Host.heap, runs.others other different, Host.heap]

/-- An engine is as it should be for a further injection. -/
theorem kept_of_admits (coherent : Coherent assigns fit free s) {h : Heap}
    (same : fit engine ∨ onEngine engine s.log ≠ [] → h = s.host.heap engine)
    (admits : onEngine engine s.log = [] → Fit assigns h) :
    Kept assigns (free engine) s.host.Knows h (onEngine engine s.log) := by
  by_cases covered : fit engine ∨ onEngine engine s.log ≠ []
  · rw [same covered]
    exact coherent.kept engine covered
  · obtain ⟨unfit, unused⟩ := not_or.mp covered
    have unused := Classical.not_not.mp unused
    have isFit := admits unused
    rw [unused]
    refine .ofFit isFit fun binding isFree => ?_
    cases assigning : assigns with
    | true => exact absurd (coherent.bounded assigning engine binding isFree) unfit
    | false =>
        subst assigning
        exact ⟨isFit.unshadowed rfl binding, fun absurd => by cases absurd⟩

theorem inject (coherent : Coherent assigns fit free s) (context : Context) (cached : Bool)
    (manager? : Option ManagerId)
    (admits : onEngine engine s.log = [] → Fit assigns (s.host.heap engine)) :
    Coherent assigns fit free (s.inject engine context cached manager?) := by
  have kept := coherent.kept_of_admits (fun _ => rfl) admits
  have orderly := kept.nested.orderly
  have runs := Host.runsOn_inject s.host engine context cached manager?
  have entered := Host.inject_of_orderly (Host.present_of_orderly orderly) orderly context cached
    manager?
  unfold InjectionHistory.inject
  cases injects : s.host.inject engine context cached manager? with
  | mk result after =>
      rw [injects] at runs entered
      cases result with
      | error e =>
          obtain ⟨_, _, ensured⟩ | ⟨_, _, ok, _⟩ := entered
          · refine coherent.runsOn runs (fun _ _ => rfl) fun _ => ?_
            exact (kept.rewound (ensured.rewound orderly)).mono runs.contexts
          · cases ok
      | ok guard =>
          obtain ⟨_, error, _⟩ | ⟨_, contextId, same, own, known, injected⟩ := entered
          · cases error
          · cases same
            refine coherent.runsOn runs (fun other different => ?_) fun _ => ?_
            · rw [onEngine_append, if_neg (by simp [isOn, own, Ne.symm different]),
                List.append_nil]
            · rw [onEngine_append, if_pos (by simp [isOn, own])]
              exact (kept.mono runs.contexts).inject
                (a := ⟨guard, context, cached, manager?, false⟩) injected rfl known

theorem clear (coherent : Coherent assigns fit free s) (engine : EngineId) {a : Injection}
    (member : a ∈ s.log) : Coherent assigns fit free (s.clear engine a.guard) := by
  have runs := Host.runsOn_clear s.host engine a.guard
  unfold InjectionHistory.clear
  by_cases own : a.guard.engine = engine
  · subst own
    have listed : a ∈ onEngine a.guard.engine s.log := by simp [onEngine, isOn, member]
    have used := List.ne_nil_of_mem listed
    have left := (coherent.kept _ (.inr used)).leave listed
    refine coherent.runsOn runs (fun other different => ?_) fun _ => ?_
    · rw [if_pos rfl, onEngine_clear_of_ne different]
    · rw [if_pos rfl, onEngine_clear, Host.clear, if_pos rfl,
        Host.heap_modifyHeap (coherent.present (.inr used))]
      exact left
  · rw [if_neg own, Host.clear, if_neg own]
    exact coherent

theorem clearAll (coherent : Coherent assigns fit free s) (engine : EngineId) :
    Coherent assigns fit free ⟨s.host.clearAll engine, s.log⟩ := by
  refine coherent.runsOn (Host.RunsOn.modifyHeap engine s.host _) (fun _ _ => rfl) fun covered => ?_
  rw [Host.clearAll, Host.heap_modifyHeap (coherent.present covered)]
  exact (coherent.kept engine covered).blankCurrent

theorem release (coherent : Coherent assigns fit free s) {invocation : Invocation} {a : Injection}
    (member : a ∈ s.log) (guard : a.guard = invocation.bindings)
    (own : a.guard.engine = invocation.engine) :
    Coherent assigns fit free (s.release invocation) := by
  have listed : a ∈ onEngine invocation.engine s.log := by simp [onEngine, isOn, member, own]
  have used := List.ne_nil_of_mem listed
  have released := Host.released_of_release (guard ▸ own) (coherent.present (.inr used))
  have left := (coherent.kept _ (.inr used)).leave listed
  rw [guard] at left own
  refine coherent.on invocation.engine released.contexts (fun other different _ => ?_)
    (fun other different => onEngine_clear_of_ne (by rwa [own]) _) fun _ => ?_
  · rw [Host.heap, released.others other different, Host.heap]
  · rw [onEngine_clear]
    rcases released.scope with same | ⟨running, same⟩
    · rw [same]
      exact left.mono released.contexts
    · rw [same]
      exact left.steady_all (Steady.collect _ running _) released.contexts

theorem script (coherent : Coherent assigns fit free s) {after : Host}
    (runs : Host.RunsOn engine s.host after)
    (steady : Steady (InvocationHistory.freeGlobals (s.host.heap engine)) (s.host.heap engine)
      (after.heap engine)) : Coherent assigns fit free ⟨after, s.log⟩ := by
  refine coherent.runsOn runs (fun _ _ => rfl) fun covered => ?_
  have kept := coherent.kept engine covered
  refine kept.steady steady ?_ ?_ ?_ ?_ runs.contexts
  · intro id name reserved
    refine InvocationHistory.not_freeGlobals _ id (List.mem_append_right _ ?_)
    simp only [List.mem_cons, List.not_mem_nil, or_false] at reserved
    rcases reserved with rfl | rfl | rfl | rfl <;> decide
  · intro p _ assigned
    exact absurd assigned
      (InvocationHistory.not_freeGlobals _ p (List.mem_append_right _ (by decide)))
  · intro m installed touched
    exact kept.nested.orderly.lookup_ne_globals installed touched.1
  · rintro id k ⟨isGlobals, unnamed⟩
    exact ⟨.inl isGlobals, fun binding =>
      unnamed binding.name (List.mem_append_left _ (List.mem_map_of_mem (Binding.mem_all binding)))⟩

theorem assign {free : EngineId → Binding → Prop} (coherent : Coherent true fit free s)
    {name : String} {v : Value}
    (works : Orderly (s.host.heap engine) →
      Orderly ((s.assign engine name v).host.heap engine)) :
    Coherent true fit free (s.assign engine name v) := by
  have runs := Host.runsOn_setField s.host engine (.table (s.host.heap engine).globals) name v
  unfold InjectionHistory.assign at works ⊢
  refine coherent.runsOn runs (fun _ _ => rfl) fun covered => ?_
  have kept := coherent.kept engine covered
  have orderly := kept.nested.orderly
  have present := coherent.present covered
  obtain ⟨middle, steady, outcome⟩ := Host.setField_globals orderly (kept.guarded rfl) name v
  have collected := kept.steady_all steady fun _ _ => id
  rcases outcome with ⟨allowed, done⟩ | ⟨_, done⟩ | done
  · rw [done] at runs works ⊢
    dsimp only at runs works ⊢
    rw [Host.heap_modifyHeap present] at works ⊢
    refine (collected.assign (works orderly) fun reserved => allowed ?_).mono runs.contexts
    obtain ⟨installed, absent, named⟩ := reserved
    rw [steady.globalsMetatable?] at installed
    rw [orderly.rawGetText_globals steady.toKeeps id] at absent
    exact ⟨installed, absent, named⟩
  · rw [done] at runs ⊢
    dsimp only at runs ⊢
    rw [Host.heap_modifyHeap present]
    exact collected.mono runs.contexts
  · rw [done] at runs ⊢
    dsimp only at runs ⊢
    rw [Host.heap_modifyHeap present]
    exact collected.mono runs.contexts

theorem refused (coherent : Coherent assigns fit free s) {id : ManagerId} {context : Context}
    {e : EngineError} {after : Host} (refused : s.host.acquire id context = (.error e, after)) :
    Coherent assigns fit free ⟨after, s.log⟩ := by
  have grows := Host.grows_selectEngine s.host id context.policy context.cacheKey
  cases selects : s.host.selectEngine id context.policy context.cacheKey with
  | mk result selected =>
      rw [selects] at grows
      cases result with
      | error failure =>
          rw [Host.acquire_of_error selects] at refused
          cases refused
          refine ⟨coherent.bounded, fun other covered => ?_⟩
          rw [Host.heap, grows.engine other (coherent.present covered)]
          exact (coherent.kept other covered).mono grows.contexts
      | ok choice =>
          obtain ⟨engine, cached⟩ := choice
          obtain ⟨restored, contexts, rewound⟩ := Host.refused_of_acquire selects refused
          have kept_ : ∀ id context, s.host.Knows id context → after.Knows id context :=
            fun id context found => contexts id context (grows.contexts id context found)
          refine coherent.on engine kept_ (fun other different there => ?_) (fun _ _ => rfl)
            fun covered => ?_
          · rw [Host.heap, restored.others other different, grows.engine other there, Host.heap]
          · have kept := coherent.kept engine covered
            have same : selected.heap engine = s.host.heap engine := by
              rw [Host.heap, grows.engine engine (coherent.present covered), Host.heap]
            rw [← same] at kept
            exact (kept.rewound (rewound kept.nested.orderly)).mono kept_

/-- The engine that is selected for an invocation is as it should be for its injection. -/
theorem kept_selected (coherent : Coherent assigns fit free s) {id : ManagerId} {context : Context}
    {invocation : Invocation} {after : Host} (admits : Admits assigns s id context)
    (acquires : s.host.acquire id context = (.ok invocation, after)) :
    ∃ selected, s.host.selectEngine id context.policy context.cacheKey =
        (.ok (invocation.engine, invocation.cached), selected) ∧ Host.Grows s.host selected ∧
      Kept assigns (free invocation.engine) s.host.Knows (selected.heap invocation.engine)
        (onEngine invocation.engine s.log) := by
  obtain ⟨selected, selects⟩ := Host.exists_of_acquire acquires
  have grows := Host.grows_selectEngine s.host id context.policy context.cacheKey
  rw [selects] at grows
  refine ⟨selected, selects, grows, coherent.kept_of_admits (fun covered => ?_)
    (admits _ _ _ selects)⟩
  rw [Host.heap, grows.engine _ (coherent.present covered), Host.heap]

theorem acquired (coherent : Coherent assigns fit free s) {id : ManagerId} {context : Context}
    {invocation : Invocation} {after : Host} (admits : Admits assigns s id context)
    (acquires : s.host.acquire id context = (.ok invocation, after)) :
    Coherent assigns fit free ⟨after, s.log ++ [.ofInvocation invocation id]⟩ := by
  obtain ⟨selected, selects, grows, kept⟩ := coherent.kept_selected admits acquires
  obtain ⟨_, _, acquired⟩ := Host.acquired_of_acquire selects kept.nested.orderly acquires
  have contexts : ∀ id context, s.host.Knows id context → after.Knows id context :=
    fun id context found => acquired.contexts id context (grows.contexts id context found)
  have own : (Injection.ofInvocation invocation id).guard.engine = invocation.engine :=
    acquired.formed.bindings
  refine coherent.on invocation.engine contexts (fun other different there => ?_)
    (fun other different => ?_) fun _ => ?_
  · rw [Host.heap, acquired.others other different, grows.engine other there, Host.heap]
  · rw [onEngine_append, if_neg (by simpa [isOn] using fun same => different (same.symm.trans own)),
      List.append_nil]
  · obtain ⟨contextId, middle, p, patterns, known, injected, package, assigned⟩ := acquired.scope
    rw [onEngine_append, if_pos (by simpa [isOn] using own), assigned]
    exact ((kept.mono contexts).inject (a := .ofInvocation invocation id) injected rfl
      known).assignPath package patterns

theorem step (coherent : Coherent assigns fit free s) (taken : Step assigns s t) :
    Coherent assigns fit free t := by
  cases taken with
  | inject engine context cached manager? admits =>
      exact coherent.inject context cached manager? admits
  | clear engine a member => exact coherent.clear engine member
  | clearAll engine => exact coherent.clearAll engine
  | acquire id context admits =>
      unfold InjectionHistory.acquire
      split
      · rename_i acquires
        exact coherent.acquired admits acquires
      · rename_i refused
        exact coherent.refused refused
  | release invocation a member guard own => exact coherent.release member guard own
  | script engine runs steady => exact coherent.script runs steady
  | assign engine name v assigning works =>
      subst assigning
      exact coherent.assign works

theorem run (coherent : Coherent assigns fit free s) (run : Run assigns s t) :
    Coherent assigns fit free t := by
  induction run with
  | refl => exact coherent
  | step _ taken ih => exact ih.step taken

end Coherent

/-- An engine on which there have been injections, or which was fit for them at the start. -/
def Covered (assigns : Bool) (start : Host) (s : InjectionHistory) (engine : EngineId) : Prop :=
  Fit assigns (start.heap engine) ∨ onEngine engine s.log ≠ []

theorem coherent_of_run {start : Host} (run : Run assigns ⟨start, []⟩ s) :
    Coherent assigns (fun engine => Fit assigns (start.heap engine))
      (fun _ _ => assigns = false) s := by
  refine Coherent.run ⟨?_, ?_⟩ run
  · rintro rfl _ _ absurd
    cases absurd
  · rintro engine (fit | used)
    · refine .ofFit fit fun binding quiet => ⟨fit.unshadowed quiet binding, fun assigning => ?_⟩
      rw [quiet] at assigning
      cases assigning
    · exact absurd rfl used

/-- Over every run of injections and acquisitions, whose guards are cleared in any order: what is
read under the name of a binding is absent or belongs to an injection whose guard has not been
cleared. -/
theorem bindings_absent_or_uncleared {start : Host} (run : Run false ⟨start, []⟩ s)
    (covered : Covered false start s engine) (binding : Binding) :
    ∃ v, s.host.binding engine binding = (.ok v, s.host) ∧
      (v.isAbsent = true ∨ ∃ a ∈ onEngine engine s.log, a.isCleared = false ∧
        ∃ contextId own, s.host.context? contextId = some a.context ∧
          Shows (s.host.heap engine) own (a.subject contextId) v binding) ∧
      ((∀ a ∈ onEngine engine s.log, a.isCleared = true) → v.isAbsent = true) := by
  have kept := (coherent_of_run run).kept engine covered
  have unhidden := (kept.free binding rfl).1
  refine ⟨_, Host.global_of_orderly kept.nested.orderly binding.name, ?_, fun cleared => ?_⟩
  · rcases kept.nested.reads unhidden with absent | ⟨a, member, uncleared, same⟩
    · exact .inl absent
    · rw [same]
      rcases (kept.shown rfl).values a member uncleared with isBlank | displayed
      · rw [isBlank binding]
        exact .inl rfl
      · obtain ⟨contextId, high, known, _, _, values⟩ := displayed
        exact .inr ⟨a, member, uncleared, contextId, _, known, values binding⟩
  · rcases kept.nested.reads unhidden with absent | ⟨a, member, uncleared, _⟩
    · exact absent
    · rw [cleared a member] at uncleared
      cases uncleared

theorem fit_of_unused {h : Heap} (unused : Unused h) : Fit assigns h where
  orderly := unused.ready.orderly
  idle s current := by
    rw [current?, unused.globalsMetatable?] at current
    cases current
  guarded _ m installed := by
    rw [unused.globalsMetatable?] at installed
    cases installed
  unshadowed _ := unused.ready.unshadowed

theorem admits_of_bare {id : ManagerId} {context : Context}
    (bare : (s.host.manager id).factory.initializers = [])
    (used : ((s.host.cacheOf id).get? context.cacheKey).all
      (fun engine => s.log.any (isOn engine)) = true) : Admits assigns s id context := by
  intro engine cached selected selects unused
  rcases Host.unused_selectEngine bare selects with found | fresh
  · rw [found, Option.all_some, List.any_eq_true] at used
    obtain ⟨a, member, here⟩ := used
    have listed : a ∈ onEngine engine s.log := List.mem_filter.mpr ⟨member, here⟩
    rw [unused] at listed
    cases listed
  · exact fit_of_unused fresh

/-- Clears the guard of the injection with a number on its engine. -/
def clearAt (s : InjectionHistory) (i : Nat) : InjectionHistory :=
  match s.log[i]? with
  | some a => s.clear a.guard.engine a.guard
  | none => s

theorem step_clearAt {i : Nat} (there : i < s.log.length) : Step assigns s (s.clearAt i) := by
  rw [clearAt, List.getElem?_eq_getElem there]
  exact .clear _ _ (List.getElem_mem there)

/-- An invocation, and an injection by hand on its engine. -/
def twoInjections : InjectionHistory :=
  ((⟨InvocationHistory.oneManager, []⟩ : InjectionHistory).acquire ⟨0⟩
    (InvocationHistory.toolContext 0 "outer")).inject ⟨0⟩
      (InvocationHistory.toolContext 1 "inner") false none

/-- The outer injection is cleared first, and its blank scope is what the inner one leaves. -/
theorem bindings_absent_or_uncleared_after_clears :
    ∃ s v, Run false ⟨InvocationHistory.oneManager, []⟩ s ∧
      Covered false InvocationHistory.oneManager s ⟨0⟩ ∧
      s.log.map Injection.isCleared = [true, true] ∧
      s.host.binding ⟨0⟩ .commandName = (.ok v, s.host) ∧ v.isAbsent = true := by
  have first : Run false ⟨InvocationHistory.oneManager, []⟩ _ := Run.refl.step
    (.acquire ⟨0⟩ (InvocationHistory.toolContext 0 "outer") (admits_of_bare rfl (by decide +kernel)))
  have nested : Run false ⟨InvocationHistory.oneManager, []⟩ twoInjections := first.step
    (.inject ⟨0⟩ (InvocationHistory.toolContext 1 "inner") false none
      fun unused => absurd (congrArg List.length unused) (by decide +kernel))
  have run := (nested.step (step_clearAt (i := 0) (by decide +kernel))).step
    (step_clearAt (i := 1) (by decide +kernel))
  have facts : ((twoInjections.clearAt 0).clearAt 1).log.map Injection.isCleared = [true, true] ∧
      (onEngine ⟨0⟩ ((twoInjections.clearAt 0).clearAt 1).log).length = 2 ∧
      (onEngine ⟨0⟩ ((twoInjections.clearAt 0).clearAt 1).log).all Injection.isCleared = true := by
    decide +kernel
  generalize (twoInjections.clearAt 0).clearAt 1 = s at run facts
  obtain ⟨cleared, used, all⟩ := facts
  have covered : Covered false InvocationHistory.oneManager s ⟨0⟩ :=
    .inr (List.ne_nil_of_length_pos (by omega))
  obtain ⟨v, read, _, absent⟩ := bindings_absent_or_uncleared run covered .commandName
  exact ⟨s, v, run, covered, cleared, read, absent (List.all_eq_true.mp all)⟩

/-- A script that has a function answer for globals that are not there. -/
def answerGlobals : String := "setmetatable(_G, \x7b __index = function() return 7 end \x7d)"

/-- A host with an engine on which this script has run. -/
def answering : Host :=
  ((InvocationHistory.oneManager.newEngine {}).2.exec ⟨0⟩ (Utf8.bytes "answer")
    (Utf8.bytes answerGlobals)).2

/-- Without any injection and without a global of its name, a binding is not absent. -/
theorem foreign_metatable_answers_for_bindings :
    Run false ⟨answering, []⟩ ⟨answering, []⟩ ∧
      Binding.all.all (fun binding => ((answering.heap ⟨0⟩).rawGetText (answering.heap ⟨0⟩).globals
        binding.name).isNil) = true ∧
      (answering.isAbsent ⟨0⟩ .host).1.toOption = some false := by
  refine ⟨.refl, ?_⟩
  decide +kernel

end InjectionHistory

end ScriptHost
