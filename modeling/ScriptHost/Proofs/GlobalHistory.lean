import ScriptHost.Proofs.CacheEffects
import ScriptHost.Proofs.InvocationHistory
import ScriptHost.Proofs.SearchPathHistory
import ScriptHost.Proofs.TendedEngines

/-!
# Histories of globals

Scripts assign globals of an engine while scopes come and go. The names of bindings cannot be
assigned; everything else is as if there were no scopes at all.
-/

set_option autoImplicit false

namespace ScriptHost

open Lua Heap Scope

/-- A host, the guards of the scopes that were entered on an engine, and the globals that were
assigned there, the latest first. -/
structure GlobalHistory where
  host : Host
  guards : List BindingGuard := []
  assigned : List (Key × Value) := []

namespace GlobalHistory

def inject (s : GlobalHistory) (engine : EngineId) (context : Context) (cached : Bool)
    (manager? : Option ManagerId) : GlobalHistory :=
  let (result, after) := s.host.inject engine context cached manager?
  { s with host := after, guards := s.guards ++ result.toOption.toList }

/-- The manager may select another engine; then no scope is entered on this one. -/
def acquire (s : GlobalHistory) (engine : EngineId) (id : ManagerId) (context : Context) :
    GlobalHistory :=
  let (result, after) := s.host.acquire id context
  let here := result.toOption.toList.filter fun invocation => invocation.engine = engine
  { s with host := after, guards := s.guards ++ here.map (·.bindings) }

def assign (s : GlobalHistory) (engine : EngineId) (key v : Value) : GlobalHistory :=
  match s.host.assignGlobal engine key v with
  | (.ok _, after) => ⟨after, s.guards, (key.key?.map (·, v)).toList ++ s.assigned⟩
  | (.error _, after) => { s with host := after }

/-- A history begins when the metatable of the globals is installed, by the first injection that
does not fail before. Of what scripts have done until then, it only matters whether `setmetatable`
is still what it was. -/
inductive Begins (engine : EngineId) : GlobalHistory → Prop where
  | inject {h : Host} (context : Context) (cached : Bool) (manager? : Option ManagerId) :
      Pending (h.heap engine) →
      ((h.inject engine context cached manager?).2.heap engine).globalsMetatable? ≠ none →
      Begins engine (inject ⟨h, [], []⟩ engine context cached manager?)
  | acquire {h selected : Host} {id : ManagerId} {context : Context} {cached : Bool} :
      h.selectEngine id context.policy context.cacheKey = (.ok (engine, cached), selected) →
      Pending (selected.heap engine) → PackageApart (selected.heap engine) [] →
      ((h.acquire id context).2.heap engine).globalsMetatable? ≠ none →
      Begins engine (acquire ⟨h, [], []⟩ engine id context)

/-- Globals are assigned, and scopes are entered and left, in any order. In between, anything may
happen by which no table that was there changes. -/
inductive Step (engine : EngineId) : GlobalHistory → GlobalHistory → Prop where
  | assign {s} {key : Value} {k : Key} (isKey : key.key? = some k) (v : Value) :
      Step engine s (s.assign engine key v)
  | inject {s} (context : Context) (cached : Bool) (manager? : Option ManagerId) :
      Step engine s (s.inject engine context cached manager?)
  | clear {s} {guard : BindingGuard} : guard ∈ s.guards →
      Step engine s { s with host := (s.host.clear engine guard).2 }
  | clearAll {s} : Step engine s { s with host := s.host.clearAll engine }
  | acquire {s} (id : ManagerId) (context : Context) :
      (∀ cached selected, s.host.selectEngine id context.policy context.cacheKey =
        (.ok (engine, cached), selected) → PackageApart (s.host.heap engine) s.guards) →
      Step engine s (s.acquire engine id context)
  | release {s} {invocation : Invocation} : invocation.engine = engine →
      invocation.bindings ∈ s.guards →
      Step engine s { s with host := (s.host.release invocation).2 }
  | other {s} {after : Host} :
      Steady (fun _ _ => False) (s.host.heap engine) (after.heap engine) →
      Step engine s { s with host := after }

/-- What is reached by steps. -/
inductive Run (engine : EngineId) (s : GlobalHistory) : GlobalHistory → Prop where
  | refl : Run engine s s
  | step {t u} : Run engine s t → Step engine t u → Run engine s u

theorem Run.trans {engine : EngineId} {s t u : GlobalHistory} (before : Run engine s t)
    (after : Run engine t u) : Run engine s u := by
  induction after with
  | refl => exact before
  | step _ next ih => exact ih.step next

/-- The globals are tended, and the guards are of scopes on this engine. -/
structure Sound (engine : EngineId) (s : GlobalHistory) : Prop where
  tended : Tended (s.host.heap engine) s.guards
  own : ∀ guard ∈ s.guards, guard.engine = engine

variable {engine : EngineId} {h middle : Host} {s t first : GlobalHistory}
  {guards : List BindingGuard}

/-! ## Injections and acquisitions -/

theorem sound_inject (ensures : s.host.ensureScopes engine = (.ok (), middle))
    (tended : Tended (middle.heap engine) s.guards)
    (own : ∀ guard ∈ s.guards, guard.engine = engine) (context : Context) (cached : Bool)
    (manager? : Option ManagerId) :
    Sound engine (s.inject engine context cached manager?) ∧
      ∀ k, (s.inject engine context cached manager?).host.rawGlobal engine k =
        middle.rawGlobal engine k := by
  rcases Host.inject_of_ensured ensures tended context cached manager? with
    ⟨e, failed, minds⟩ | ⟨guard, succeeds, here, entered⟩
  · have guards : (s.inject engine context cached manager?).guards = s.guards := by
      simp [inject, failed, Except.toOption]
    exact ⟨⟨by rw [guards]; exact minds.tended, by rwa [guards]⟩, minds.entries⟩
  · have guards : (s.inject engine context cached manager?).guards = s.guards ++ [guard] := by
      simp [inject, succeeds, Except.toOption]
    refine ⟨⟨by rw [guards]; exact entered.minds.tended, ?_⟩, entered.minds.entries⟩
    rw [guards]
    exact List.forall_mem_append.mpr ⟨own, List.forall_mem_singleton.mpr here⟩

theorem sound_acquire {id : ManagerId} {context : Context} {cached : Bool} {selected : Host}
    (selects : s.host.selectEngine id context.policy context.cacheKey =
      (.ok (engine, cached), selected))
    (ensures : (selected.attach engine context.output).2.ensureScopes engine = (.ok (), middle))
    (tended : Tended (middle.heap engine) s.guards)
    (apart : PackageApart (middle.heap engine) s.guards)
    (own : ∀ guard ∈ s.guards, guard.engine = engine) :
    Sound engine (s.acquire engine id context) ∧
      ∀ k, (s.acquire engine id context).host.rawGlobal engine k = middle.rawGlobal engine k := by
  rcases Host.acquire_of_ensured selects ensures tended apart with
    ⟨e, failed, minds⟩ | ⟨invocation, succeeds, here, bound, minds⟩
  · have guards : (s.acquire engine id context).guards = s.guards := by
      simp [acquire, failed, Except.toOption]
    exact ⟨⟨by rw [guards]; exact minds.tended, by rwa [guards]⟩, minds.entries⟩
  · have guards : (s.acquire engine id context).guards = s.guards ++ [invocation.bindings] := by
      simp [acquire, succeeds, here, Except.toOption]
    refine ⟨⟨by rw [guards]; exact minds.tended, ?_⟩, minds.entries⟩
    rw [guards]
    exact List.forall_mem_append.mpr ⟨own, List.forall_mem_singleton.mpr bound⟩

/-- From the first injection on, the globals are tended. -/
theorem sound_of_begins (begins : Begins engine s) : Sound engine s := by
  cases begins with
  | @inject h context cached manager? pending installed =>
      rcases Host.ensureScopes_of_pending pending with ⟨middle, ensures, opened⟩ | ⟨e, failed, none⟩
      · exact (sound_inject (s := ⟨h, [], []⟩) ensures opened.tended (by simp) ..).1
      · refine absurd ?_ installed
        rw [Host.inject_of_error (Prod.ext failed rfl)]
        exact none
  | @acquire h selected id context cached selects pending apart installed =>
      have attached := Host.heap_attach selected engine engine context.output
      rw [← attached] at pending apart
      rcases Host.ensureScopes_of_pending pending with ⟨middle, ensures, opened⟩ | ⟨e, failed, none⟩
      · exact (sound_acquire (s := ⟨h, [], []⟩) selects ensures opened.tended
          (opened.packageApart apart) (by simp)).1
      · refine absurd ?_ installed
        rw [Host.acquire, selects]
        dsimp only
        rw [Host.inject_of_error (Prod.ext failed rfl)]
        dsimp only
        rw [Host.heap_detach]
        exact none

/-! ## Single steps -/

/-- What a step does to the globals: all are as before, or one has been assigned. The name of a
binding can be assigned only while a global shadows it. -/
structure Effect (engine : EngineId) (s t : GlobalHistory) : Prop where
  sound : Sound engine t
  change : (t.assigned = s.assigned ∧
      ∀ k, t.host.rawGlobal engine k = s.host.rawGlobal engine k) ∨
    ∃ k v, t.assigned = (k, v) :: s.assigned ∧
      (IsBindingName k → s.host.rawGlobal engine k ≠ .nil) ∧
      ∀ other, t.host.rawGlobal engine other =
        if k = other then v else s.host.rawGlobal engine other

theorem Effect.ofMinds {after : Host} (sound : Sound engine s)
    (minds : Minds (s.host.heap engine) (after.heap engine) s.guards) :
    Effect engine s { s with host := after } :=
  ⟨⟨minds.tended, sound.own⟩, .inl ⟨rfl, minds.entries⟩⟩

theorem Effect.elsewhere (sound : Sound engine s) (heap : t.host.heap engine = s.host.heap engine)
    (guards : t.guards = s.guards) (assigned : t.assigned = s.assigned) : Effect engine s t :=
  ⟨⟨by rw [heap, guards]; exact sound.tended, by rw [guards]; exact sound.own⟩,
    .inl ⟨assigned, fun k => by rw [Host.rawGlobal, heap, Host.rawGlobal]⟩⟩

theorem effect_assign (sound : Sound engine s) {key : Value} {k : Key} (isKey : key.key? = some k)
    (v : Value) : Effect engine s (s.assign engine key v) := by
  have present := Host.present_of_globals sound.tended.globals
  obtain ⟨heap, steady, ⟨binding, _, _, refused⟩ | ⟨unnamed, assigned⟩ | ⟨_, failed⟩⟩ :=
    Host.assignGlobal_of_tended sound.tended isKey v
  · rw [assign, refused]
    refine .ofMinds sound ?_
    rw [Host.heap_modifyHeap present]
    exact sound.tended.minds_of_calm steady
  · have calm := sound.tended.minds_of_calm steady
    rw [assign, assigned, isKey]
    refine ⟨⟨?_, sound.own⟩, .inr ⟨k, v, rfl, unnamed, fun other => ?_⟩⟩
    · dsimp only
      rw [Host.heap_modifyHeap present]
      exact calm.tended.rawSet k v
    · exact Host.rawGlobal_rawSet present calm k other v
  · rw [assign, failed]
    refine .ofMinds sound ?_
    rw [Host.heap_modifyHeap present]
    exact sound.tended.minds_of_calm steady

theorem effect_acquire (sound : Sound engine s) (id : ManagerId) (context : Context)
    (apart : ∀ cached selected, s.host.selectEngine id context.policy context.cacheKey =
      (.ok (engine, cached), selected) → PackageApart (s.host.heap engine) s.guards) :
    Effect engine s (s.acquire engine id context) := by
  have present := Host.present_of_globals sound.tended.globals
  have grows := Host.grows_selectEngine s.host id context.policy context.cacheKey
  cases selects : s.host.selectEngine id context.policy context.cacheKey with
  | mk result selected =>
      rw [selects] at grows
      have same : selected.heap engine = s.host.heap engine :=
        congrArg (·.store.heap) (grows.engine engine present)
      cases result with
      | error e =>
          have failed := Host.acquire_of_error selects
          refine .elsewhere sound ?_ ?_ rfl
          · rw [acquire, failed]
            exact same
          · simp [acquire, failed, Except.toOption]
      | ok choice =>
          obtain ⟨other, cached⟩ := choice
          by_cases here : other = engine
          · subst here
            have attached := (Host.heap_attach selected other other context.output).trans same
            have tended := sound.tended
            have library := apart cached selected selects
            rw [← attached] at tended library
            obtain ⟨kept, entries⟩ := sound_acquire selects (Host.ensureScopes_of_tended tended)
              tended library sound.own
            refine ⟨kept, .inl ⟨rfl, fun k => (entries k).trans ?_⟩⟩
            rw [Host.rawGlobal, attached, Host.rawGlobal]
          · have touches := Host.touches_acquire selects
            refine .elsewhere sound ?_ ?_ rfl
            · exact (congrArg (·.store.heap) (touches.others engine (Ne.symm here))).trans same
            · cases acquires : s.host.acquire id context with
              | mk result after =>
                  cases result with
                  | error e => simp [acquire, acquires, Except.toOption]
                  | ok invocation =>
                      obtain ⟨chosen, selects'⟩ := Host.exists_of_acquire acquires
                      have foreign : invocation.engine ≠ engine := by
                        rw [selects] at selects'
                        cases selects'
                        exact here
                      simp [acquire, acquires, foreign, Except.toOption]

theorem effect_of_step (sound : Sound engine s) (step : Step engine s t) : Effect engine s t := by
  cases step with
  | assign isKey v => exact effect_assign sound isKey v
  | inject context cached manager? =>
      obtain ⟨kept, entries⟩ := sound_inject (Host.ensureScopes_of_tended sound.tended) sound.tended
        sound.own context cached manager?
      exact ⟨kept, .inl ⟨rfl, entries⟩⟩
  | clear member => exact .ofMinds sound (Host.clear_of_tended sound.tended member)
  | clearAll => exact .ofMinds sound (Host.clearAll_of_tended sound.tended)
  | acquire id context apart => exact effect_acquire sound id context apart
  | release here member =>
      exact .ofMinds sound
        (Host.release_of_tended sound.tended here (sound.own _ member) member)
  | other steady => exact .ofMinds sound (sound.tended.minds_of_calm steady)

/-! ## Runs -/

theorem sound_of_run (sound : Sound engine s) (run : Run engine s t) : Sound engine t := by
  induction run with
  | refl => exact sound
  | step _ next ih => exact (effect_of_step ih next).sound

/-- As no global shadows a binding, none is ever made to. -/
theorem unshadowed_of_run (sound : Sound engine s) (unshadowed : Unshadowed (s.host.heap engine))
    (run : Run engine s t) : Unshadowed (t.host.heap engine) := by
  induction run with
  | refl => exact unshadowed
  | step before next ih =>
      intro binding
      rcases (effect_of_step (sound_of_run sound before) next).change with
        ⟨_, same⟩ | ⟨k, v, _, unnamed, changed⟩
      · exact (same _).trans (ih binding)
      · refine (changed _).trans ?_
        rw [if_neg]
        · exact ih binding
        · rintro rfl
          exact unnamed ⟨binding, rfl⟩ (ih binding)

/-- A global is what was assigned last, or else what it was at the start. -/
theorem rawGlobal_of_run (sound : Sound engine first) (unassigned : first.assigned = [])
    (run : Run engine first s) (k : Key) :
    s.host.rawGlobal engine k = (s.assigned.lookup k).getD (first.host.rawGlobal engine k) := by
  induction run with
  | refl => rw [unassigned]; rfl
  | step before next ih =>
      rcases (effect_of_step (sound_of_run sound before) next).change with
        ⟨assigned, same⟩ | ⟨k', v, assigned, _, changed⟩
      · rw [same, ih, assigned]
      · rw [changed, assigned, List.lookup_cons, ih]
        by_cases equal : k' = k
        · simp [equal]
        · rw [if_neg equal, beq_eq_false_iff_ne.mpr (Ne.symm equal)]

theorem Begins.unassigned (begins : Begins engine first) : first.assigned = [] := by
  cases begins <;> rfl

/-- From the first injection on, scripts assign globals while scopes come and go. As soon as no
global shadows a binding, an assignment to the name of a binding is refused and changes nothing. One
under any other key does what it would do without the guard. Either may fail for lack of memory
instead, where memory is limited. A global is what was assigned last under its key, whatever scopes
there are. -/
theorem globals_follow_assignments {shown : GlobalHistory} (begins : Begins engine first)
    (early : Run engine first shown) (unshadowed : Unshadowed (shown.host.heap engine))
    (run : Run engine shown s) :
    (∀ (binding : Binding) v, ∃ e after, s.host.assignGlobal engine (.ofText binding.name) v =
        (.error (.ofRun e), after) ∧ Host.Unchanged engine s.host after ∧
        (e = readOnly binding.name ∨ (s.host.heap engine).limit? ≠ none ∧ e = .memory)) ∧
    (∀ binding : Binding, s.host.rawGlobal engine (.ofText binding.name) = .nil) ∧
    ∀ key k, key.key? = some k → ¬ IsBindingName k →
      (∀ v, ∃ unguarded after, (s.host.unguarded engine).assignGlobal engine key v =
          (.ok (), unguarded) ∧
        (∀ other, unguarded.rawGlobal engine other =
          if k = other then v else s.host.rawGlobal engine other) ∧
        (s.host.assignGlobal engine key v = (.ok (), after) ∧
            (∀ other, after.rawGlobal engine other = unguarded.rawGlobal engine other) ∨
          (s.host.heap engine).limit? ≠ none ∧ s.host.assignGlobal engine key v =
            (.error (.ofRun .memory), after) ∧ Host.Unchanged engine s.host after)) ∧
      s.host.readGlobal engine key =
        (.ok ((s.assigned.lookup k).getD (first.host.rawGlobal engine k)), s.host) := by
  have begun := sound_of_begins begins
  have tidy := sound_of_run begun early
  have tended := (sound_of_run tidy run).tended
  have none := unshadowed_of_run tidy unshadowed run
  have present := Host.present_of_globals tended.globals
  refine ⟨fun binding v => ?_, none, fun key k isKey free => ⟨fun v => ?_, ?_⟩⟩
  · obtain ⟨heap, steady, ⟨other, same, _, refused⟩ | ⟨shadowed, _⟩ | ⟨limited, failed⟩⟩ :=
      Host.assignGlobal_of_tended tended (Value.key?_ofText binding.name) v
    · rw [← Key.eq_of_ofText same] at refused
      exact ⟨_, _, refused, Host.unchanged_of_steady tended steady, .inl rfl⟩
    · exact absurd (none binding) (shadowed ⟨binding, rfl⟩)
    · exact ⟨_, _, failed, Host.unchanged_of_steady tended steady, .inr ⟨limited, rfl⟩⟩
  · obtain ⟨unguarded, plain, entries⟩ := Host.assignGlobal_unguarded tended isKey v
    obtain ⟨heap, steady, ⟨binding, named, _⟩ | ⟨_, assigned⟩ | ⟨limited, failed⟩⟩ :=
      Host.assignGlobal_of_tended tended isKey v
    · exact absurd ⟨binding, named⟩ free
    · refine ⟨unguarded, _, plain, entries, .inl ⟨assigned, fun other => ?_⟩⟩
      rw [entries]
      exact Host.rawGlobal_rawSet present (tended.minds_of_calm steady) k other v
    · exact ⟨unguarded, _, plain, entries,
        .inr ⟨limited, failed, Host.unchanged_of_steady tended steady⟩⟩
  · rw [Host.readGlobal_of_tended tended isKey free,
      rawGlobal_of_run begun begins.unassigned (early.trans run)]

/-- A new engine with a first scope. -/
def opened : GlobalHistory :=
  inject ⟨(InvocationHistory.oneManager.newEngine {}).2, [], []⟩ ⟨0⟩
    (InvocationHistory.toolContext 0 "outer") false none

/-- A global is assigned, and a second scope is entered. -/
def nested : GlobalHistory :=
  (opened.assign ⟨0⟩ (.ofText "answer") (.ofText "first")).inject ⟨0⟩
    (InvocationHistory.toolContext 1 "inner") false none

/-- The name of a binding is tried, and the global assigned again. -/
def reassigned : GlobalHistory :=
  (nested.assign ⟨0⟩ (.ofText "__host__") (.ofText "own")).assign ⟨0⟩ (.ofText "answer")
    (.ofText "second")

/-- The first scope is left while the second is current, which is cleared then. -/
def cleared : GlobalHistory :=
  let left := { reassigned with
    host := (reassigned.host.clear ⟨0⟩ (reassigned.guards.head (by decide +kernel))).2 }
  { left with host := left.host.clearAll ⟨0⟩ }

theorem globals_follow_assignments_cleared :
    ∃ refused, cleared.host.assignGlobal ⟨0⟩ (.ofText "__host__") (.ofText "own") =
        (.error (.ofRun (readOnly "__host__")), refused) ∧
      cleared.host.readGlobal ⟨0⟩ (.ofText "answer") = (.ok (.ofText "second"), cleared.host) := by
  have made : (InvocationHistory.oneManager.newEngine {}).1.toOption = some ⟨0⟩ := by
    decide +kernel
  have unused := Host.unused_of_toOption made
  have begins : Begins ⟨0⟩ opened := .inject _ false none unused.pending (by decide +kernel)
  have unshadowed : Unshadowed (opened.host.heap ⟨0⟩) := by decide +kernel
  have run : Run ⟨0⟩ opened cleared := by
    have entered : Run ⟨0⟩ opened nested :=
      (Run.refl.step (.assign (Value.key?_ofText "answer") (.ofText "first"))).step
        (.inject (InvocationHistory.toolContext 1 "inner") false none)
    have assigned : Run ⟨0⟩ opened reassigned :=
      (entered.step (.assign (Value.key?_ofText "__host__") (.ofText "own"))).step
        (.assign (Value.key?_ofText "answer") (.ofText "second"))
    exact (assigned.step (.clear (List.head_mem _))).step .clearAll
  obtain ⟨refuses, _, others⟩ := globals_follow_assignments begins .refl unshadowed run
  have unlimited : (cleared.host.heap ⟨0⟩).limit? = none := by decide +kernel
  obtain ⟨e, refused, fails, _, rfl | ⟨limited, _⟩⟩ := refuses .host (.ofText "own")
  · refine ⟨refused, fails, ?_⟩
    have latest : (cleared.assigned.lookup (.ofText "answer")).getD
        (opened.host.rawGlobal ⟨0⟩ (.ofText "answer")) = .ofText "second" :=
      Value.eq_string_of_key? (by decide +kernel)
    have read := (others _ _ (Value.key?_ofText "answer") (not_isBindingName (by decide))).2
    rwa [latest] at read
  · exact absurd unlimited limited

/-- A script makes the globals its package library, and assigns the global `path`, before a second
invocation is acquired on the engine. -/
def borrowed : GlobalHistory :=
  let acquired := acquire ⟨InvocationHistory.oneManager, [], []⟩ ⟨0⟩ ⟨0⟩
    (InvocationHistory.toolContext 0 "outer")
  let globals := (acquired.host.heap ⟨0⟩).globals
  ((acquired.assign ⟨0⟩ (.ofText "package") (.table globals)).assign ⟨0⟩ (.ofText "path")
    (.integer 5)).acquire ⟨0⟩ ⟨0⟩ (InvocationHistory.toolContext 1 "inner")

/-- A script has replaced `setmetatable` before the first injection. -/
def unwatched : GlobalHistory :=
  inject ⟨((InvocationHistory.oneManager.newEngine {}).2.exec ⟨0⟩ (Utf8.bytes "script")
    (Utf8.bytes "setmetatable = function() end")).2, [], []⟩ ⟨0⟩
    (InvocationHistory.toolContext 0 "outer") false none

/-- Where the globals are the package library, an acquisition assigns one of them; and where the
function `setmetatable` is not that of the library, the names of bindings can be assigned. -/
theorem globals_of_tampered_engines :
    (borrowed.guards.length = 2 ∧ Unshadowed (borrowed.host.heap ⟨0⟩) ∧
      (borrowed.assigned.lookup (.ofText "path")).bind Value.key? = some (.integer 5) ∧
      (borrowed.host.readGlobal ⟨0⟩ (.ofText "path")).1.toOption.bind Value.key? =
        some (.ofText "")) ∧
    unwatched.guards.length = 1 ∧ Unshadowed (unwatched.host.heap ⟨0⟩) ∧
      (unwatched.host.assignGlobal ⟨0⟩ (.ofText "__host__") (.ofText "own")).1.toOption =
        some () := by
  decide +kernel

end GlobalHistory

end ScriptHost
