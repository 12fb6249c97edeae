import ScriptHost.Host.Invocation

/-!
# How the operations of a host end

An injection, an assignment of search paths and an acquisition consist of parts that may fail.
Here each of them is taken apart into the ways in which it can end. What is proved about one of
them later follows from what holds of its parts.
-/

set_option autoImplicit false

namespace ScriptHost.Host

open Lua Scope

variable {h middle selected after : Host} {engine : EngineId} {id : ManagerId} {context : Context}
  {cached : Bool}

/-! ## Injections -/

theorem context?_addContext_self (h : Host) (context : Context) :
    (h.addContext context).2.context? (h.addContext context).1 = some context := by
  simp [context?, addContext]

theorem ensureScopes_of_marked {m : TableId} (marked : (h.heap engine).globalsMetatable? = some m) :
    h.ensureScopes engine = (.ok (), h) := by
  rw [ensureScopes, marked]

theorem inject_of_error {manager? : Option ManagerId} {e : EngineError}
    (refused : h.ensureScopes engine = (.error e, middle)) :
    h.inject engine context cached manager? = (.error e, middle) := by
  rw [inject, refused]

/-- Where scopes can be looked up, the context is recorded and a scope is built for it. The scope is
entered if there is room for it. -/
theorem inject_cases (ensured : h.ensureScopes engine = (.ok (), middle)) (context : Context)
    (cached : Bool) (manager? : Option ManagerId) :
    let extended := (middle.addContext context).2
    let subject : Subject := { context, contextId := (middle.addContext context).1, cached, manager? }
    let built := build subject (middle.heap engine)
    ∃ full,
      Machine.fits built.2 0 = (false, full) ∧
        h.inject engine context cached manager? =
          (.error (.ofRun .memory), extended.modifyHeap engine fun _ => full) ∨
      Machine.fits built.2 0 = (true, full) ∧
        h.inject engine context cached manager? =
          (.ok ⟨engine, built.1, (enter built.1 full).1⟩,
            extended.modifyHeap engine fun _ => (enter built.1 full).2) := by
  have kept : (middle.addContext context).2.heap engine = middle.heap engine := rfl
  dsimp only
  unfold inject
  rw [ensured]
  dsimp only
  rw [kept]
  generalize build { context, contextId := (middle.addContext context).1, cached, manager? }
    (middle.heap engine) = built
  cases Machine.fits built.2 0 with
  | mk enough full =>
      refine ⟨full, ?_⟩
      cases enough with
      | false => exact .inl ⟨rfl, rfl⟩
      | true => exact .inr ⟨rfl, rfl⟩

theorem engine_of_inject {manager? : Option ManagerId} {guard : BindingGuard}
    (injects : h.inject engine context cached manager? = (.ok guard, after)) :
    guard.engine = engine := by
  cases ensured : h.ensureScopes engine with
  | mk result middle =>
      cases result with
      | error e =>
          rw [inject_of_error ensured] at injects
          cases injects
      | ok _ =>
          obtain ⟨full, ⟨_, ends⟩ | ⟨_, ends⟩⟩ := inject_cases ensured context cached manager?
          · rw [ends] at injects
            cases injects
          · rw [ends] at injects
            cases injects
            rfl

/-! ## Search paths -/

/-- The field is assigned if the global is a table and there is room for the patterns. -/
theorem setPackagePath_cases (h : Host) (engine : EngineId) (patterns : List UInt8) :
    ∃ middle,
      (∃ e, h.global engine "package" = (.error e, middle) ∧
        h.setPackagePath engine patterns = (.error e, middle)) ∨
      ∃ v, h.global engine "package" = (.ok v, middle) ∧
        ((∃ e, asTable v = .error e ∧ h.setPackagePath engine patterns = (.error e, middle)) ∨
        ∃ p heap, v = .table p ∧
          let roomy := middle.modifyHeap engine fun _ => heap
          let text : Value := .string patterns.toByteArray
          (Machine.fitsHolding p (middle.heap engine) (Heap.sizeOf text) = (false, heap) ∧
            h.setPackagePath engine patterns = (.error (.ofRun .memory), roomy)) ∨
          Machine.fitsHolding p (middle.heap engine) (Heap.sizeOf text) = (true, heap) ∧
            h.setPackagePath engine patterns = roomy.setField engine (.table p) "path" text) := by
  unfold setPackagePath
  cases read : h.global engine "package" with
  | mk result middle =>
      refine ⟨middle, ?_⟩
      cases result with
      | error e => exact .inl ⟨e, rfl, rfl⟩
      | ok v =>
          refine .inr ⟨v, rfl, ?_⟩
          cases v with
          | table p =>
              dsimp only [asTable]
              cases room : Machine.fitsHolding p (middle.heap engine)
                  (Heap.sizeOf (.string patterns.toByteArray)) with
              | mk enough heap =>
                  refine .inr ⟨p, heap, rfl, ?_⟩
                  cases enough with
                  | false => exact .inl ⟨room, rfl⟩
                  | true => exact .inr ⟨room, rfl⟩
          | _ => exact .inl ⟨_, rfl, rfl⟩

/-- An unusable path is refused at once. Otherwise it is up to scripts whether the field of the
package library can be assigned, and only then does the engine learn of its paths. -/
theorem setSearchPaths_cases (h : Host) (engine : EngineId) (paths : List Path) :
    (∃ path fault, SearchPath.firstFault? paths = some (path, fault) ∧
      h.setSearchPaths engine paths = (.error (.invalidSearchPath path fault), h)) ∨
    SearchPath.firstFault? paths = none ∧ ∃ middle,
      (∃ e, h.setPackagePath engine (SearchPath.render paths) = (.error e, middle) ∧
        h.setSearchPaths engine paths = (.error e, middle)) ∨
      h.setPackagePath engine (SearchPath.render paths) = (.ok (), middle) ∧
        h.setSearchPaths engine paths =
          (.ok (), middle.modifyEngine engine fun e => { e with searchPaths := paths }) := by
  unfold setSearchPaths
  cases faulty : SearchPath.firstFault? paths with
  | some found => exact .inl ⟨found.1, found.2, rfl, rfl⟩
  | none =>
      refine .inr ⟨rfl, ?_⟩
      cases assigned : h.setPackagePath engine (SearchPath.render paths) with
      | mk result middle =>
          cases result with
          | error e => exact ⟨middle, .inl ⟨e, rfl, rfl⟩⟩
          | ok _ => exact ⟨middle, .inr ⟨rfl, rfl⟩⟩

/-! ## Acquisitions -/

theorem acquire_of_error {e : EngineError}
    (refused : h.selectEngine id context.policy context.cacheKey = (.error e, middle)) :
    h.acquire id context = (.error e, middle) := by
  rw [acquire, refused]

/-- What becomes of an engine that was selected: its scope is not entered, its search paths are
refused and the scope is left again, or the engine is ready. -/
theorem acquire_cases
    (selects : h.selectEngine id context.policy context.cacheKey = (.ok (engine, cached), selected)) :
    let attached := selected.attach engine context.output
    ∃ injected,
      (∃ e, attached.2.inject engine context cached (some id) = (.error e, injected) ∧
        h.acquire id context = (.error e, (injected.detach engine attached.1).2)) ∨
      ∃ guard, attached.2.inject engine context cached (some id) = (.ok guard, injected) ∧
        ∃ assigned,
          (∃ e, injected.setSearchPaths engine (injected.effectivePaths id context) =
              (.error e, assigned) ∧
            h.acquire id context =
              (.error e, ((assigned.clear engine guard).2.detach engine attached.1).2)) ∨
          injected.setSearchPaths engine (injected.effectivePaths id context) = (.ok (), assigned) ∧
            h.acquire id context =
              (.ok { engine, context, cached, stream := attached.1, bindings := guard }, assigned) := by
  intro attached
  rw [acquire, selects]
  dsimp only
  cases injects : attached.2.inject engine context cached (some id) with
  | mk result injected =>
      refine ⟨injected, ?_⟩
      cases result with
      | error e => exact .inl ⟨e, rfl, rfl⟩
      | ok guard =>
          refine .inr ⟨guard, rfl, ?_⟩
          dsimp only
          cases assigns : injected.setSearchPaths engine (injected.effectivePaths id context) with
          | mk result assigned =>
              refine ⟨assigned, ?_⟩
              cases result with
              | error e => exact .inl ⟨e, rfl, rfl⟩
              | ok _ => exact .inr ⟨rfl, rfl⟩

/-- The steps of an acquisition that succeeds. -/
theorem steps_of_acquire {invocation : Invocation}
    (acquires : h.acquire id context = (.ok invocation, after)) :
    ∃ selected injected, h.selectEngine id context.policy context.cacheKey =
        (.ok (invocation.engine, invocation.cached), selected) ∧
      (selected.attach invocation.engine context.output).2.inject invocation.engine context
        invocation.cached (some id) = (.ok invocation.bindings, injected) ∧
      injected.setSearchPaths invocation.engine (injected.effectivePaths id context) =
        (.ok (), after) ∧
      invocation.context = context ∧
      invocation.stream = (selected.attach invocation.engine context.output).1 := by
  cases selects : h.selectEngine id context.policy context.cacheKey with
  | mk result selected =>
      cases result with
      | error e =>
          rw [acquire_of_error selects] at acquires
          cases acquires
      | ok choice =>
          obtain ⟨engine, cached⟩ := choice
          obtain ⟨injected, ⟨e, _, failed⟩ | ⟨guard, injects, assigned, ⟨e, _, failed⟩ | ⟨sets, done⟩⟩⟩ :=
            acquire_cases selects
          · rw [failed] at acquires
            cases acquires
          · rw [failed] at acquires
            cases acquires
          · rw [done] at acquires
            cases acquires
            exact ⟨selected, injected, rfl, injects, sets, rfl, rfl⟩

/-- An invocation is on the engine that was selected, and tells whether the cache had it. -/
theorem exists_of_acquire {invocation : Invocation}
    (acquires : h.acquire id context = (.ok invocation, after)) :
    ∃ selected, h.selectEngine id context.policy context.cacheKey =
      (.ok (invocation.engine, invocation.cached), selected) := by
  obtain ⟨selected, _, selects, _⟩ := steps_of_acquire acquires
  exact ⟨selected, selects⟩

end ScriptHost.Host
