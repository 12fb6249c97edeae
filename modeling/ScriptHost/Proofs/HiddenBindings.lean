import ScriptHost.Proofs.InjectionHistory

/-!
# Globals with the names of bindings

A script that gives a global the name of a binding before the first injection hides the binding
for good; later on the host refuses such assignments. All other bindings show the values of the
latest injection.
-/

set_option autoImplicit false

namespace ScriptHost

open Lua Heap Scope

namespace InjectionHistory

variable {s t : InjectionHistory} {assigns : Bool} {fit : EngineId → Prop}
  {free : EngineId → Binding → Prop} {engine : EngineId}

/-- The global with the name of a binding, which scripts see instead of the binding. -/
def hider (h : Host) (engine : EngineId) (binding : Binding) : Value :=
  (h.heap engine).rawGetText (h.heap engine).globals binding.name

/-- A binding reads a value of a kind, unless there is a global of its name. -/
def Reads (h : Host) (engine : EngineId) (binding : Binding) (fits : Value → Prop) : Prop :=
  ∃ v, h.binding engine binding = (.ok v, h) ∧
    if (hider h engine binding).isNil then fits v else v = hider h engine binding

theorem reads_of_orderly {h : Host} (orderly : Orderly (h.heap engine)) {binding : Binding}
    {fits : Value → Prop}
    (unhidden : hider h engine binding = .nil → fits (visible (h.heap engine) binding.name)) :
    Reads h engine binding fits := by
  refine ⟨_, Host.global_of_orderly orderly binding.name, ?_⟩
  split
  · rename_i absent
    exact unhidden (Value.eq_nil_of_isNil absent)
  · rename_i present
    unfold visible
    exact if_neg present

/-- A host shows the values of a context under the names of bindings. -/
def Shows (h : Host) (engine : EngineId) (context : Context) (cached : Bool)
    (manager? : Option ManagerId) : Prop :=
  ∃ contextId own, h.context? contextId = some context ∧ ∀ binding,
    Reads h engine binding fun v =>
      Scope.Shows (h.heap engine) own { context, contextId, cached, manager? } v binding

theorem Coherent.shows_inject (coherent : Coherent assigns fit free s) {context : Context}
    {cached : Bool} {manager? : Option ManagerId} {guard : BindingGuard} {after : Host}
    (covered : fit engine ∨ onEngine engine s.log ≠ [])
    (injects : s.host.inject engine context cached manager? = (.ok guard, after)) :
    Shows after engine context cached manager? := by
  have orderly := (coherent.kept engine covered).nested.orderly
  have entered := Host.inject_of_orderly (coherent.present covered) orderly context cached manager?
  rw [injects] at entered
  obtain ⟨_, error, _⟩ | ⟨_, contextId, same, own, known, injected⟩ := entered
  · cases error
  · cases same
    dsimp only at known injected
    refine ⟨contextId, Within (guard.scope.index + 1) (after.heap engine).tables.size, known,
      fun binding => reads_of_orderly injected.orderly fun unhidden => ?_⟩
    have seen := visible_injected (a := ⟨guard, context, cached, manager?, false⟩) injected unhidden
    rw [seen]
    exact injected.shown binding

/-- After an acquisition on an engine whose scopes work, every binding that is not hidden shows its
value. -/
theorem shows_of_acquire {h selected after : Host} {id : ManagerId} {context : Context}
    {invocation : Invocation}
    (selects : h.selectEngine id context.policy context.cacheKey =
      (.ok (invocation.engine, invocation.cached), selected))
    (orderly : Orderly (selected.heap invocation.engine))
    (acquires : h.acquire id context = (.ok invocation, after)) :
    Shows after invocation.engine context invocation.cached (some id) := by
  obtain ⟨_, rfl, acquired⟩ := Host.acquired_of_acquire selects orderly acquires
  obtain ⟨contextId, middle, p, patterns, known, injected, package, assigned⟩ := acquired.scope
  have later : Orderly (after.heap invocation.engine) := by
    rw [assigned]
    exact injected.orderly.assignPath package patterns
  refine ⟨contextId, Within (invocation.bindings.scope.index + 1) middle.tables.size, known,
    fun binding => reads_of_orderly later fun unhidden => ?_⟩
  rw [hider, assigned] at unhidden
  rw [assigned]
  rw [injected.orderly.rawGetText_globals (steady_assignPath middle p patterns).toKeeps
    (not_pathField_name binding p _)] at unhidden
  exact shows_assignPath (a := .ofInvocation invocation id) injected orderly package patterns
    unhidden

theorem Coherent.shows_acquire (coherent : Coherent assigns fit free s) {id : ManagerId}
    {context : Context} {invocation : Invocation} {after : Host}
    (admits : Admits assigns s id context)
    (acquires : s.host.acquire id context = (.ok invocation, after)) :
    Shows after invocation.engine context invocation.cached (some id) := by
  obtain ⟨selected, selects, _, kept⟩ := coherent.kept_selected admits acquires
  exact shows_of_acquire selects kept.nested.orderly acquires

theorem Coherent.reads_absent (coherent : Coherent assigns fit free s)
    (covered : fit engine ∨ onEngine engine s.log ≠ [])
    (cleared : ∀ a ∈ onEngine engine s.log, a.isCleared = true) (binding : Binding) :
    Reads s.host engine binding fun v => v.isAbsent = true := by
  have nested := (coherent.kept engine covered).nested
  refine reads_of_orderly nested.orderly fun unhidden => ?_
  rcases nested.reads unhidden with absent | ⟨a, member, uncleared, _⟩
  · exact absent
  · rw [cleared a member] at uncleared
    cases uncleared

/-- A binding that can be seen after an injection can be seen ever after. -/
theorem Coherent.unhidden (coherent : Coherent true fit free s) (run : Run true s t)
    (used : onEngine engine s.log ≠ []) {binding : Binding}
    (unhidden : hider s.host engine binding = .nil) : hider t.host engine binding = .nil := by
  have from_here : Coherent true (fun engine => fit engine ∨ onEngine engine s.log ≠ [])
      (fun engine binding => onEngine engine s.log ≠ [] ∧ hider s.host engine binding = .nil) s := by
    refine ⟨fun _ other binding free => .inr free.1, fun other covered => ?_⟩
    have kept := coherent.kept other ((or_assoc.mp covered).imp_right fun used => used.elim id id)
    refine ⟨kept.nested, kept.guarded, fun binding free => ⟨free.2, fun _ => ?_⟩, kept.shown⟩
    obtain ⟨m, installed⟩ := kept.nested.installed free.1
    rw [installed]
    rfl
  have later := (from_here.run run).kept engine (.inl (.inr used))
  exact (later.free binding ⟨used, unhidden⟩).1

/-- Over every run in which scripts assign globals: after an injection or an acquisition every
binding reads its value, and after the last one has been cleared it is absent, but for bindings
that are hidden by a global of their name. Once there has been an injection, no further binding
comes to be hidden. -/
theorem bindings_shown_unless_hidden {start : Host} (run : Run true ⟨start, []⟩ s) :
    (∀ engine context cached manager? guard after, Covered true start s engine →
      s.host.inject engine context cached manager? = (.ok guard, after) →
      Shows after engine context cached manager?) ∧
    (∀ id context invocation after, Admits true s id context →
      s.host.acquire id context = (.ok invocation, after) →
      Shows after invocation.engine context invocation.cached (some id)) ∧
    (∀ engine, Covered true start s engine →
      (∀ a ∈ onEngine engine s.log, a.isCleared = true) →
      ∀ binding, Reads s.host engine binding fun v => v.isAbsent = true) ∧
    (∀ engine binding t, onEngine engine s.log ≠ [] → hider s.host engine binding = .nil →
      Run true s t → hider t.host engine binding = .nil) := by
  have coherent := coherent_of_run run
  refine ⟨?_, ?_, ?_, ?_⟩
  · intro engine context cached manager? guard after covered injects
    exact coherent.shows_inject covered injects
  · intro id context invocation after admits acquires
    exact coherent.shows_acquire admits acquires
  · intro engine covered cleared binding
    exact coherent.reads_absent covered cleared binding
  · intro engine binding t used unhidden later
    exact coherent.unhidden later used unhidden

/-- Scopes go on working when scripts assign a global that the host does not need. -/
theorem Coherent.step_assign (coherent : Coherent true fit free s)
    (covered : fit engine ∨ onEngine engine s.log ≠ []) {name : String}
    (ordinary : name ∉ ["__index", "__mode", "package", "path", "setmetatable"]) (v : Value) :
    Step true s (s.assign engine name v) := by
  refine .assign engine name v rfl fun orderly => ?_
  have kept := coherent.kept engine covered
  have present := coherent.present covered
  obtain ⟨middle, steady, outcome⟩ := Host.setField_globals orderly (kept.guarded rfl) name v
  have collected := orderly.keep_all steady
  simp only [List.mem_cons, List.not_mem_nil, or_false, not_or] at ordinary
  obtain ⟨index, mode, package, path, setmetatable⟩ := ordinary
  have assigned : Orderly (middle.rawSetText middle.globals name v) := by
    have changes : Steady (fun _ k => k = .ofText name) middle
        (middle.rawSetText middle.globals name v) := Steady.rawSetText rfl mode middle v
    refine collected.keep changes ?_ fun _ _ same => absurd same (Key.ofText_ne (Ne.symm path))
    intro id field reserved same
    simp only [List.mem_cons, List.not_mem_nil, or_false] at reserved
    have equal : field = name := Classical.not_not.mp fun different => Key.ofText_ne different same
    rcases reserved with rfl | rfl | rfl | rfl
    · exact index equal.symm
    · exact mode equal.symm
    · exact package equal.symm
    · exact setmetatable equal.symm
  rcases outcome with ⟨_, done⟩ | ⟨_, done⟩ | done
  · rw [InjectionHistory.assign, done]
    dsimp only
    rw [Host.heap_modifyHeap present]
    exact assigned
  · rw [InjectionHistory.assign, done]
    dsimp only
    rw [Host.heap_modifyHeap present]
    exact collected
  · rw [InjectionHistory.assign, done]
    dsimp only
    rw [Host.heap_modifyHeap present]
    exact collected

/-- A host with a new engine. -/
def oneEngine : Host := (InvocationHistory.oneManager.newEngine {}).2

theorem fit_oneEngine : Fit true (oneEngine.heap ⟨0⟩) := by
  have made : (InvocationHistory.oneManager.newEngine {}).1.toOption = some ⟨0⟩ := by
    decide +kernel
  cases created : InvocationHistory.oneManager.newEngine {} with
  | mk result after =>
      rw [created] at made
      cases result with
      | error e => cases made
      | ok engine =>
          obtain rfl : engine = ⟨0⟩ := Option.some.inj made
          rw [oneEngine, created]
          exact fit_of_unused (Host.unused_newEngine created)

/-- A script has given a global the name of a binding. -/
def hostAssigned : InjectionHistory :=
  (⟨oneEngine, []⟩ : InjectionHistory).assign ⟨0⟩ "__host__" (.integer 5)

-- The key alone could also be that of a float.
theorem eq_integer {v : Value} {n : Int64} (isInteger : v.hostTypeName = "integer")
    (isKey : v.key? = some (.integer n)) : v = .integer n := by
  cases v with
  | integer m => simpa [Value.key?] using isKey
  | _ => simp [Value.hostTypeName, Value.typeName] at isInteger

/-- The global hides the binding of its name and no other. -/
theorem bindings_shown_unless_hidden_after_assignment :
    ∃ guard after, Run true ⟨oneEngine, []⟩ hostAssigned ∧
      Covered true oneEngine hostAssigned ⟨0⟩ ∧
      hostAssigned.host.inject ⟨0⟩ (InvocationHistory.toolContext 0 "tool") false none =
        (.ok guard, after) ∧
      after.binding ⟨0⟩ .commandName = (.ok (.ofText "tool"), after) ∧
      after.binding ⟨0⟩ .host = (.ok (.integer 5), after) := by
  have coherent : Coherent true _ _ ⟨oneEngine, []⟩ := coherent_of_run .refl
  have run : Run true ⟨oneEngine, []⟩ hostAssigned := Run.refl.step
    (coherent.step_assign (.inl fit_oneEngine) (by decide) (.integer 5))
  have covered : Covered true oneEngine hostAssigned ⟨0⟩ := .inl fit_oneEngine
  have facts : (hostAssigned.host.inject ⟨0⟩ (InvocationHistory.toolContext 0 "tool") false
        none).1.toOption.isSome = true ∧
      (hider (hostAssigned.host.inject ⟨0⟩ (InvocationHistory.toolContext 0 "tool") false none).2
        ⟨0⟩ .commandName).isNil = true ∧
      (hider (hostAssigned.host.inject ⟨0⟩ (InvocationHistory.toolContext 0 "tool") false none).2
        ⟨0⟩ .host).hostTypeName = "integer" ∧
      (hider (hostAssigned.host.inject ⟨0⟩ (InvocationHistory.toolContext 0 "tool") false none).2
        ⟨0⟩ .host).key? = some (.integer 5) := by
    decide +kernel
  generalize hostAssigned = s at run covered facts ⊢
  obtain ⟨succeeds, free, isInteger, hides⟩ := facts
  cases injects : s.host.inject ⟨0⟩ (InvocationHistory.toolContext 0 "tool") false none with
  | mk result after =>
      rw [injects] at succeeds free isInteger hides
      cases result with
      | error e => cases succeeds
      | ok guard =>
          obtain ⟨contextId, own, _, reads⟩ :=
            (bindings_shown_unless_hidden run).1 _ _ _ _ _ _ covered injects
          obtain ⟨name, readName, isName⟩ := reads .commandName
          obtain ⟨host, readHost, isHost⟩ := reads .host
          dsimp only at free isInteger hides
          rw [if_pos free] at isName
          have five : hider after ⟨0⟩ .host = .integer 5 := eq_integer isInteger hides
          rw [five, if_neg (by simp [Value.isNil])] at isHost
          rw [isName] at readName
          rw [isHost] at readHost
          exact ⟨guard, after, run, covered, rfl, readName, readHost⟩

/-- A host with a manager whose engines are prepared by an assignment to the name of a binding. -/
def hostPrepared : Host :=
  { InvocationHistory.oneManager with
    managers := #[{ cache := ⟨0⟩, factory := { initializers := ["__host__ = 5"] } }] }

/-- What acquiring an invocation from this manager comes to. -/
def preparedAcquired : Except EngineError Invocation × Host :=
  hostPrepared.acquire ⟨0⟩ (InvocationHistory.toolContext 0 "tool")

/-- Neither does the binding show the value of the context then, nor is it absent at the end. -/
theorem prepared_global_hides_binding :
    preparedAcquired.1.toOption.map Invocation.engine = some ⟨0⟩ ∧
      (InvocationHistory.toolContext 0 "tool").host = .null ∧
      (preparedAcquired.2.isAbsent ⟨0⟩ .host).1.toOption = some false ∧
      (preparedAcquired.1.toOption.map fun invocation =>
        ((preparedAcquired.2.release invocation).2.isAbsent ⟨0⟩ .host).1.toOption) =
          some (some false) := by
  exact ⟨by decide +kernel, rfl, by decide +kernel, by decide +kernel⟩

end InjectionHistory

end ScriptHost
