import ScriptHost.Proofs.IntactEngines

/-!
# What the scripts of a factory ask for

A new engine has no handle of a manager, and the scripts that prepare it come by none. So they ask
nothing of managers, and no cache is emptied before the engine is there.
-/

set_option autoImplicit false

namespace ScriptHost.Host

open Lua Vault

variable {engine : EngineId} {h after : Host}

/-- No script on an engine has a handle of a manager. -/
structure Unmanaged (engine : EngineId) (h : Host) : Prop where
  present : engine.index < h.engines.size
  safe : SafeStore (lending (fun _ => False) (h.heap engine)) (h.engine engine).store

theorem unmanaged_newEngine {options : EngineOptions}
    (made : h.newEngine options = (.ok engine, after)) : Unmanaged engine after := by
  obtain ⟨rfl, size, built⟩ := fresh?_of_newEngine made
  exact ⟨by simp [size], safe_fresh? _ built⟩

/-- Without a handle of a manager there is no way to empty its cache. -/
theorem clearedBy?_of_grants {heap : Heap} {request : Request}
    (granted : (lending (fun _ => False) heap).Grants request) : h.clearedBy? request = none := by
  cases request with
  | clearEngines id? =>
      cases id? with
      | none => rfl
      | some id => exact (granted id rfl).elim
  | _ => rfl

theorem Unmanaged.exec (unmanaged : Unmanaged engine h) (name text : List UInt8) (g : Host) :
    Unmanaged engine (h.exec engine name text).2 ∧
      g.cleared (h.execRequests engine name text) = [] := by
  obtain ⟨confines, granted⟩ :=
    confines_exec unmanaged.present unmanaged.safe name text False.elim
  have globals : ((h.exec engine name text).2.heap engine).globals = (h.heap engine).globals :=
    confines.confines.passes.guards.globals
  refine ⟨⟨confines.present unmanaged.present, on_lending globals ▸ confines.safe⟩, ?_⟩
  rw [cleared, List.filterMap_eq_nil_iff]
  exact fun request asked => clearedBy?_of_grants (granted request asked)

theorem Unmanaged.cleared_prepareRequests (unmanaged : Unmanaged engine h) (index : Nat)
    (scripts : List String) (g : Host) : g.cleared (h.prepareRequests engine index scripts) = [] := by
  induction scripts generalizing h index with
  | nil => rfl
  | cons script scripts ih =>
      obtain ⟨later, silent⟩ :=
        unmanaged.exec (Utf8.bytes s!"init{index}") (Utf8.bytes script) g
      rw [prepareRequests, cleared_append, silent, List.nil_append]
      cases ran : h.exec engine (Utf8.bytes s!"init{index}") (Utf8.bytes script) with
      | mk result middle =>
          rw [ran] at later
          cases result with
          | error e => rfl
          | ok values => exact ih later (index + 1)

theorem cleared_creationRequests (g h : Host) (factory : Factory) (options : EngineOptions) :
    g.cleared (h.creationRequests factory options) = [] := by
  unfold creationRequests
  cases made : h.newEngine (factory.effective options) with
  | mk result start =>
      cases result with
      | error e => rfl
      | ok engine => exact (unmanaged_newEngine made).cleared_prepareRequests 0 _ g

theorem cleared_engineRequests (h : Host) (id : ManagerId) (options : EngineOptions) :
    h.cleared (h.engineRequests id options) = [] := by
  unfold engineRequests
  dsimp only
  split
  · rfl
  · exact cleared_creationRequests h ..

end ScriptHost.Host
