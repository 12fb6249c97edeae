import ScriptHost.Proofs.EngineUses
import ScriptHost.Proofs.Evaluation
import ScriptHost.Proofs.HostState

/-!
# What running scripts changes

A script that runs on an engine reaches nothing of the engines but the store of its own one,
whatever it does and whatever it asks its host for.
-/

set_option autoImplicit false

namespace ScriptHost.Host

open Lua

/-! ## Answers -/

theorem engines_reply (h : Host) (engine : EngineId) (request : Request) :
    (h.reply engine request).2.engines = h.engines := by
  cases request with
  | write bytes =>
      simp only [reply, write]
      split <;> rfl
  | clearEngines id? =>
      simp only [reply]
      split <;> rfl
  | _ => rfl

theorem contexts_reply (h : Host) (engine : EngineId) (request : Request) :
    (h.reply engine request).2.contexts = h.contexts := by
  cases request with
  | write bytes =>
      simp only [reply, write]
      split <;> rfl
  | clearEngines id? =>
      simp only [reply]
      split <;> rfl
  | _ => rfl

/-! ## Runs on one engine -/

/-- From `h` to `after`, of all engines only the store of one has changed, and no context is
lost. -/
structure RunsOn (engine : EngineId) (h after : Host) : Prop where
  size : after.engines.size = h.engines.size
  others : ∀ other, other ≠ engine → after.engine other = h.engine other
  routing : after.routing engine = h.routing engine
  searchPaths : (after.engine engine).searchPaths = (h.engine engine).searchPaths
  options : (after.engine engine).options = (h.engine engine).options
  contexts : ∀ id context, h.context? id = some context → after.context? id = some context

namespace RunsOn

variable {engine : EngineId} {h middle after : Host}

theorem refl (engine : EngineId) (h : Host) : RunsOn engine h h :=
  ⟨rfl, fun _ _ => rfl, rfl, rfl, rfl, fun _ _ found => found⟩

theorem trans (first : RunsOn engine h middle) (second : RunsOn engine middle after) :
    RunsOn engine h after where
  size := second.size.trans first.size
  others other different := (second.others other different).trans (first.others other different)
  routing := second.routing.trans first.routing
  searchPaths := second.searchPaths.trans first.searchPaths
  options := second.options.trans first.options
  contexts id context found := second.contexts id context (first.contexts id context found)

theorem ofEngines (engines : after.engines = h.engines)
    (contexts : ∀ id context, h.context? id = some context → after.context? id = some context) :
    RunsOn engine h after := by
  have same : ∀ id, after.engine id = h.engine id := by simp [Host.engine, engines]
  exact ⟨by rw [engines], fun other _ => same other, by rw [Host.routing, same, Host.routing],
    by rw [same], by rw [same], contexts⟩

theorem modifyEngine (engine : EngineId) (h : Host) (store : Engine → Store) :
    RunsOn engine h (h.modifyEngine engine fun e => { e with store := store e }) := by
  by_cases present : engine.index < h.engines.size
  · refine ⟨size_engines_modifyEngine .., fun other different => ?_, ?_, ?_, ?_,
      fun _ _ found => found⟩
    · exact engine_modifyEngine_of_ne different _
    · rw [Host.routing, engine_modifyEngine_self present, Host.routing]
    · rw [engine_modifyEngine_self present]
    · rw [engine_modifyEngine_self present]
  · rw [modifyEngine_of_le (Nat.not_lt.mp present)]
    exact refl engine h

theorem modifyHeap (engine : EngineId) (h : Host) (f : Heap → Heap) :
    RunsOn engine h (h.modifyHeap engine f) :=
  modifyEngine engine h fun e => { e.store with heap := f e.store.heap }

theorem addContext (engine : EngineId) (h : Host) (context : Context) :
    RunsOn engine h (h.addContext context).2 := by
  refine ofEngines rfl ?_
  intro id found present
  have below := (Array.getElem?_eq_some_iff.mp present).1
  rw [context?, Host.addContext, Array.getElem?_push, if_neg (Nat.ne_of_lt below)]
  exact present

end RunsOn

/-- From `h` to `after`, one engine at most has changed, and where its output goes has not. -/
structure WorksOn (engine : EngineId) (h after : Host) : Prop where
  size : after.engines.size = h.engines.size
  others : ∀ other, other ≠ engine → after.engine other = h.engine other
  routing : after.routing engine = h.routing engine

theorem RunsOn.worksOn {engine : EngineId} {h after : Host} (runs : RunsOn engine h after) :
    WorksOn engine h after :=
  ⟨runs.size, runs.others, runs.routing⟩

theorem WorksOn.trans {engine : EngineId} {h middle after : Host} (first : WorksOn engine h middle)
    (second : WorksOn engine middle after) : WorksOn engine h after where
  size := second.size.trans first.size
  others other different := (second.others other different).trans (first.others other different)
  routing := second.routing.trans first.routing

theorem WorksOn.modifyEngine (engine : EngineId) (h : Host) {f : Engine → Engine}
    (kept : ∀ e, (f e).routing = e.routing) : WorksOn engine h (h.modifyEngine engine f) := by
  refine ⟨size_engines_modifyEngine .., fun other different => ?_, ?_⟩
  · exact engine_modifyEngine_of_ne different f
  · by_cases present : engine.index < h.engines.size
    · rw [Host.routing, engine_modifyEngine_self present, kept, Host.routing]
    · rw [modifyEngine_of_le (Nat.not_lt.mp present)]

/-! ## What a host does on an engine -/

theorem Uses.runsOn {engine : EngineId} {start h : Host} {log : List Request}
    (uses : Uses engine start log h) : RunsOn engine start h := by
  induction uses with
  | start => exact .refl engine start
  | answer request _ ih =>
      refine ih.trans (.ofEngines (engines_reply ..) fun id context found => ?_)
      rw [context?, contexts_reply]
      exact found
  | alter store _ ih => exact ih.trans (.modifyEngine engine _ store)
  | addContext context _ ih => exact ih.trans (.addContext engine _ context)

section

variable (h : Host) (engine : EngineId)

theorem runsOn_advance (mayPause : Bool) (stack : Stack) (action : Action) :
    RunsOn engine h (h.advance mayPause engine stack action).2 :=
  (h.uses_advance engine mayPause stack action).runsOn

theorem runsOn_setField (v : Value) (name : String) (value : Value) :
    RunsOn engine h (h.setField engine v name value).2 :=
  (h.uses_setField engine v name value).runsOn

theorem runsOn_callFunction (f : Value) (arguments : List Value) :
    RunsOn engine h (h.callFunction engine f arguments).2 :=
  (h.uses_callFunction engine f arguments).runsOn

theorem runsOn_load (name text : List UInt8) : RunsOn engine h (h.load engine name text).2 :=
  (h.uses_load engine name text).runsOn

theorem runsOn_exec (name text : List UInt8) : RunsOn engine h (h.exec engine name text).2 :=
  (h.uses_exec engine name text).runsOn

theorem runsOn_prepare (scripts : List String) (index : Nat) :
    RunsOn engine h (h.prepare engine index scripts).2 :=
  (h.uses_prepare engine scripts index).runsOn

theorem runsOn_inject (context : Context) (cached : Bool) (manager? : Option ManagerId) :
    RunsOn engine h (h.inject engine context cached manager?).2 :=
  (h.uses_inject engine context cached manager?).runsOn

theorem runsOn_clear (guard : BindingGuard) : RunsOn engine h (h.clear engine guard).2 :=
  (h.uses_clear engine guard).runsOn

theorem runsOn_setPackagePath (patterns : List UInt8) :
    RunsOn engine h (h.setPackagePath engine patterns).2 :=
  (h.uses_setPackagePath engine patterns).runsOn

theorem worksOn_setSearchPaths (paths : List Path) :
    WorksOn engine h (h.setSearchPaths engine paths).2 := by
  obtain ⟨middle, uses, ⟨e, sets⟩ | sets⟩ := h.uses_setSearchPaths engine paths
  · rw [sets]
    exact uses.runsOn.worksOn
  · rw [sets]
    exact uses.runsOn.worksOn.trans (.modifyEngine engine middle fun _ => rfl)

theorem runsOn_setSearchPaths_of_error {paths : List Path} {e : EngineError}
    (failed : (h.setSearchPaths engine paths).1 = .error e) :
    RunsOn engine h (h.setSearchPaths engine paths).2 := by
  obtain ⟨middle, uses, ⟨e, sets⟩ | sets⟩ := h.uses_setSearchPaths engine paths
  · rw [sets]
    exact uses.runsOn
  · rw [sets] at failed
    cases failed

end

/-! ## Scripts that settle -/

section

variable {h : Host} {engine : EngineId} {calls steps : Nat} {after : Heap}

theorem modifyEngine_congr {f g : Engine → Engine} (same : f (h.engine engine) = g (h.engine engine)) :
    h.modifyEngine engine f = h.modifyEngine engine g := by
  by_cases present : engine.index < h.engines.size
  · have engines : h.engines.modify engine.index f = h.engines.modify engine.index g := by
      apply Array.ext_getElem?
      intro i
      simp only [Array.getElem?_modify]
      split
      · next here =>
          subst here
          simpa [Host.engine, Array.getElem?_eq_getElem present] using same
      · rfl
    simp [modifyEngine, engines]
  · rw [modifyEngine_of_le (Nat.not_lt.mp present), modifyEngine_of_le (Nat.not_lt.mp present)]

theorem modifyEngine_self {f : Engine → Engine} (same : f (h.engine engine) = h.engine engine) :
    h.modifyEngine engine f = h := by
  have kept : h.modifyEngine engine f = h.modifyEngine engine fun e => e :=
    modifyEngine_congr same
  rw [kept]
  have engines : h.engines.modify engine.index (fun e => e) = h.engines := by
    apply Array.ext_getElem?
    intro i
    rw [Array.getElem?_modify]
    split <;> simp
  simp [modifyEngine, engines]

theorem modifyHeap_heap (h : Host) (engine : EngineId) :
    (h.modifyHeap engine fun _ => h.heap engine) = h :=
  modifyEngine_self rfl

theorem heap_modifyHeap (present : engine.index < h.engines.size) (f : Heap → Heap) :
    (h.modifyHeap engine f).heap engine = f (h.heap engine) := by
  rw [heap, modifyHeap, engine_modifyEngine_self present]
  rfl

theorem modifyHeap_modifyHeap (h : Host) (engine : EngineId) (f g : Heap → Heap) :
    (h.modifyHeap engine f).modifyHeap engine g = h.modifyHeap engine fun heap => g (f heap) := by
  simp only [modifyHeap, modifyEngine, Host.mk.injEq, and_true]
  apply Array.ext_getElem?
  intro i
  simp only [Array.getElem?_modify]
  split
  · cases h.engines[i]? <;> rfl
  · rfl

theorem perform_of_evaluates {script : Eval (List Value)} {outcome : Except Thrown (List Value)}
    (settles : Evaluates setting calls steps (h.heap engine) script outcome after)
    (flat : calls < Machine.nestingLimit) (short : steps < 10000) :
    h.perform engine script =
      ((h.modifyHeap engine fun _ => after).outcome engine (.ended outcome),
        h.modifyHeap engine fun _ => after) := by
  have enough : steps < h.stepLimit := Nat.lt_of_lt_of_le short h.stepLimit_large
  have stops := settles.run flat enough (h.engine engine).store.paused
  have driven : drive false engine h.stepLimit (h.engine engine).store {} (Eval.run script) h =
      (.ended outcome, ⟨after, (h.engine engine).store.paused⟩, h) := by
    obtain ⟨rounds, positive⟩ :=
      Nat.exists_eq_succ_of_ne_zero (Nat.ne_of_gt (Nat.zero_lt_of_lt enough))
    rw [positive, drive,
      show (h.engine engine).store = ⟨h.heap engine, (h.engine engine).store.paused⟩ from rfl, stops]
  have advanced : h.advance false engine {} (Eval.run script) =
      (.ended outcome, h.modifyHeap engine fun _ => after) := by
    rw [advance, driven]
    exact congrArg (Prod.mk _) (modifyEngine_congr rfl)
  rw [perform, advanced]

theorem performOperation_of_evaluates {operation : Eval (List Value)} {values : List Value}
    (settles : Evaluates setting calls steps (h.heap engine) operation (.ok values) after)
    (flat : calls < Machine.nestingLimit) (short : steps + 2 < 10000) :
    h.performOperation engine operation = (.ok values, h.modifyHeap engine fun _ => after) := by
  have whole : Evaluates setting calls (steps + 2 + 0) (h.heap engine) (reporting operation)
      (.ok values) after := settles.protect.bind (Evaluates.pure values)
  exact perform_of_evaluates whole flat short

end

end ScriptHost.Host
