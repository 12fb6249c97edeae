import ScriptHost.Proofs.TendedGlobals

/-!
# Entries of globals that the host tends

What becomes of an assignment to a global under any key, and what is read there, while the host
tends the globals. The names of bindings cannot be assigned; under every other key, the globals are
like a table without a metatable.
-/

set_option autoImplicit false

namespace ScriptHost

open Lua Heap Scope

namespace Host

/-- Assigns a global under any key, as scripts do. -/
def assignGlobal (h : Host) (engine : EngineId) (key v : Value) : Except EngineError Unit × Host :=
  let (result, h) := h.performOperation engine (entryAssignment (h.heap engine).globals key v)
  (result.map fun _ => (), h)

/-- A global under any key, as scripts see it. -/
def readGlobal (h : Host) (engine : EngineId) (key : Value) : Except EngineError Value × Host :=
  let (result, h) := h.performOperation engine do
    return [← Operation.index {} none (.table (h.heap engine).globals) key]
  (result.map firstOf, h)

/-- The engine when nothing stands for its globals. -/
def unguarded (h : Host) (engine : EngineId) : Host :=
  h.modifyHeap engine fun heap =>
    heap.modifyTable heap.globals fun t => { t with metatable? := none }

/-- The entry of the globals under a key, without metamethods. -/
def rawGlobal (h : Host) (engine : EngineId) (k : Key) : Value :=
  (h.heap engine).rawGet (h.heap engine).globals k

variable {h after : Host} {engine : EngineId} {guards : List BindingGuard} {key v : Value} {k : Key}
  {result : Except EngineError (List Value)}

theorem assignGlobal_of_performOperation
    (performed : h.performOperation engine (entryAssignment (h.heap engine).globals key v) =
      (result, after)) :
    h.assignGlobal engine key v = (result.map fun _ => (), after) := by
  rw [assignGlobal, performed]

/-! ## Reading -/

theorem readGlobal_of_evaluates {steps : Nat} (few : steps + 0 + 2 < 10000)
    (settles : Evaluates setting 0 steps (h.heap engine)
      (Operation.index {} none (.table (h.heap engine).globals) key) (.ok v) (h.heap engine)) :
    h.readGlobal engine key = (.ok v, h) := by
  have whole : Evaluates setting 0 (steps + 0) (h.heap engine)
      (do return [← Operation.index {} none (.table (h.heap engine).globals) key])
      (.ok [v]) (h.heap engine) := settles.bind (Evaluates.pure _)
  rw [readGlobal, performOperation_of_evaluates whole (by decide) few, modifyHeap_heap]
  rfl

/-- No scope answers for a key that is not the name of a binding. -/
theorem readGlobal_of_tended (tended : Tended (h.heap engine) guards) (isKey : key.key? = some k)
    (free : ¬ IsBindingName k) : h.readGlobal engine key = (.ok (h.rawGlobal engine k), h) := by
  unfold rawGlobal
  obtain ⟨m, installed, watch⟩ := tended.watch
  cases absent : ((h.heap engine).rawGet (h.heap engine).globals k).isNil with
  | false =>
      exact readGlobal_of_evaluates (by decide)
        (Evaluates.index_found (lookUp_entry_of_value isKey absent))
  | true =>
      have nil := Value.eq_nil_of_isNil absent
      have looked := lookUp_entry_of_nil isKey nil
      rw [metamethod_of_metatable?_eq_some watch.linked] at looked
      rw [nil]
      rcases watch.index with none | ⟨scope, found⟩
      · rw [none] at looked
        exact readGlobal_of_evaluates (by decide) (Evaluates.index_found looked)
      · rw [found] at looked
        have only := tended.scopes scope (.inl (by rw [current?_of_link installed, found]))
        have forwarded := lookUp_entry_of_plain isKey only.metatable?
        rw [only.others k free] at forwarded
        exact readGlobal_of_evaluates (by decide)
          (Evaluates.index_forward looked (Evaluates.index_found forwarded))

/-! ## Assigning -/

theorem lookUpTarget_of_watch {h : Heap} {m : TableId} (watch : Watch h m)
    (isKey : key.key? = some k) (absent : h.rawGet h.globals k = .nil) :
    Operation.lookUpTarget h (.table h.globals) key =
      .handler (.builtin (.host .guardAssignment)) := by
  have handler : h.metamethod (.table h.globals) "__newindex" =
      .builtin (.host .guardAssignment) := by
    rw [metamethod_of_metatable?_eq_some watch.linked, watch.newindex]
  simp [Operation.lookUpTarget, isKey, absent, handler, Value.isNil, Operation.Access.ofMetamethod]

theorem assignGlobal_own (isKey : key.key? = some k)
    (own : (h.rawGlobal engine k).isNil = false ∨
      ((h.heap engine).table (h.heap engine).globals).metatable? = none) (v : Value) :
    h.assignGlobal engine key v =
      (.ok (), h.modifyHeap engine fun _ =>
        (h.heap engine).rawSet (h.heap engine).globals k v) := by
  have settles : Evaluates setting 0 2 (h.heap engine)
      (entryAssignment (h.heap engine).globals key v) _ _ := .entryAssignment_own isKey own
  rw [assignGlobal_of_performOperation
    (performOperation_of_evaluates settles (by decide) (by decide))]
  rfl

/-- What becomes of an assignment to a global: it is refused if the key is the name of a binding
that no global shadows, and has its effect if it is not; else there was no memory for it. -/
theorem assignGlobal_of_tended (tended : Tended (h.heap engine) guards)
    (isKey : key.key? = some k) (v : Value) :
    ∃ middle, Steady (fun _ _ => False) (h.heap engine) middle ∧
      ((∃ binding : Binding, k = .ofText binding.name ∧ h.rawGlobal engine k = .nil ∧
          h.assignGlobal engine key v =
            (.error (.ofRun (readOnly binding.name)), h.modifyHeap engine fun _ => middle)) ∨
        (IsBindingName k → h.rawGlobal engine k ≠ .nil) ∧ h.assignGlobal engine key v =
          (.ok (), h.modifyHeap engine fun _ => middle.rawSet middle.globals k v) ∨
        (h.heap engine).limit? ≠ none ∧ h.assignGlobal engine key v =
          (.error (.ofRun .memory), h.modifyHeap engine fun _ => middle)) := by
  have present := present_of_globals tended.globals
  obtain ⟨m, installed, watch⟩ := tended.watch
  cases absent : (h.rawGlobal engine k).isNil with
  | false =>
      refine ⟨_, Steady.refl .., .inr (.inl ⟨fun _ nil => ?_, ?_⟩)⟩
      · rw [nil] at absent
        cases absent
      · exact assignGlobal_own isKey (.inl absent) v
  | true =>
      have nil := Value.eq_nil_of_isNil absent
      have target := lookUpTarget_of_watch watch isKey nil
      obtain ⟨middle, steady, outcome⟩ := performOperation_guarded present isKey target v
      refine ⟨middle, steady, ?_⟩
      rcases outcome with ⟨name, listed, rfl, refused⟩ | ⟨free, carried⟩ | ⟨limited, full⟩
      · obtain ⟨binding, _, rfl⟩ := List.mem_map.mp listed
        exact .inl ⟨binding, rfl, nil, assignGlobal_of_performOperation refused⟩
      · refine .inr (.inl ⟨?_, ?_⟩)
        · rintro ⟨binding, same⟩
          exact absurd same (free _ (List.mem_map_of_mem (Binding.mem_all binding)))
        · rw [steady.globals]
          exact assignGlobal_of_performOperation carried
      · exact .inr (.inr ⟨limited, assignGlobal_of_performOperation full⟩)

theorem rawGlobal_rawSet (present : engine.index < h.engines.size) {heap : Heap}
    (minds : Minds (h.heap engine) heap guards) (k other : Key) (v : Value) :
    (h.modifyHeap engine fun _ => heap.rawSet heap.globals k v).rawGlobal engine other =
      if k = other then v else h.rawGlobal engine other := by
  rw [rawGlobal, heap_modifyHeap present,
    show (heap.rawSet heap.globals k v).globals = heap.globals from rfl,
    rawGet_rawSet_self minds.tended.globals, minds.entries other, rawGlobal]

/-- Nothing but a heap has changed, and no table there. -/
structure Unchanged (engine : EngineId) (h after : Host) : Prop where
  rest : after = h.modifyHeap engine fun _ => after.heap engine
  tables : Steady (fun _ _ => False) (h.heap engine) (after.heap engine)
  globals : ∀ k, after.rawGlobal engine k = h.rawGlobal engine k

theorem unchanged_of_steady (tended : Tended (h.heap engine) guards) {heap : Heap}
    (steady : Steady (fun _ _ => False) (h.heap engine) heap) :
    Unchanged engine h (h.modifyHeap engine fun _ => heap) := by
  have reached := heap_modifyHeap (present_of_globals tended.globals) fun _ => heap
  refine ⟨by rw [reached], by rwa [reached], fun k => ?_⟩
  rw [rawGlobal, reached]
  exact (tended.minds_of_calm steady).entries k

/-- Without a guard, every assignment has its effect. -/
theorem assignGlobal_unguarded (tended : Tended (h.heap engine) guards) (isKey : key.key? = some k)
    (v : Value) : ∃ after, (h.unguarded engine).assignGlobal engine key v = (.ok (), after) ∧
      ∀ other, after.rawGlobal engine other =
        if k = other then v else h.rawGlobal engine other := by
  have present := present_of_globals tended.globals
  have there : engine.index < (h.unguarded engine).engines.size := by
    rwa [unguarded, modifyHeap, size_engines_modifyEngine]
  have opened : (h.unguarded engine).heap engine = (h.heap engine).modifyTable
      (h.heap engine).globals fun t => { t with metatable? := none } :=
    heap_modifyHeap present _
  have plain : (((h.unguarded engine).heap engine).table
      ((h.unguarded engine).heap engine).globals).metatable? = none := by
    rw [opened]
    exact congrArg Table.metatable? (table_modifyTable_self tended.globals _)
  refine ⟨_, assignGlobal_own isKey (.inr plain) v, fun other => ?_⟩
  rw [rawGlobal, heap_modifyHeap there, opened]
  refine (rawGet_rawSet_self ?_ k other v).trans ?_
  · rw [size_tables_modifyTable]
    exact tended.globals
  · rw [rawGet_setMetatable, rawGlobal]
    rfl

end Host

end ScriptHost
