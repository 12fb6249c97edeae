import ScriptHost.Proofs.HostRuns
import ScriptHost.Proofs.ScopeState

/-!
# Globals of an engine on which scopes work

On such an engine a host reads globals, assigns the patterns of modules and installs the
metatable of the globals without any script running.
-/

set_option autoImplicit false

namespace ScriptHost

open Lua Scope

section

variable {setting : Library.Setting} {calls : Nat} {h : Heap} {place : Place}
  {label? : Option Label}

theorem Scope.Orderly.evaluates_index (orderly : Orderly h) (name : String) :
    ∃ steps ≤ 2, Evaluates setting calls steps h
      (Operation.index place label? (.table h.globals) (.ofText name)) (.ok (visible h name)) h := by
  unfold visible
  cases absent : (h.rawGetText h.globals name).isNil with
  | false =>
      have found := lookUp_table_of_value absent
      exact ⟨1, by decide, Evaluates.index_found found⟩
  | true =>
      have looked := lookUp_table_of_nil (Value.eq_nil_of_isNil absent)
      have link := orderly.link
      rw [if_pos rfl]
      cases installed : h.globalsMetatable? with
      | none =>
          rw [installed] at link
          rw [metamethod_of_metatable?_eq_none link] at looked
          refine ⟨1, by decide, ?_⟩
          rw [current?, installed]
          exact Evaluates.index_found looked
      | some m =>
          rw [installed] at link
          rw [metamethod_of_metatable?_eq_some link] at looked
          rw [current?_of_link installed]
          rcases (orderly.lookup m installed).index with none | ⟨scope, found, plain⟩
          · rw [none] at looked ⊢
            exact ⟨1, by decide, Evaluates.index_found looked⟩
          · rw [found] at looked ⊢
            exact ⟨1 + 1, by decide,
              Evaluates.index_forward looked (Evaluates.index_found (lookUp_table_of_plain plain.metatable? name))⟩

/-- No scope has the package library in it. -/
theorem Scope.Orderly.visible_package (orderly : Orderly h) :
    visible h "package" = h.rawGetText h.globals "package" := by
  unfold visible
  cases absent : (h.rawGetText h.globals "package").isNil with
  | false => rfl
  | true =>
      have nil : h.rawGetText h.globals "package" = .nil := Value.eq_nil_of_isNil absent
      rw [if_pos rfl, nil]
      cases current : current? h with
      | none => rfl
      | some scope => exact (orderly.plain_current current).package

end

namespace Host

variable {h : Host} {engine : EngineId}

theorem present_of_globals (globals : (h.heap engine).globals.index < (h.heap engine).tables.size) :
    engine.index < h.engines.size := by
  rcases Nat.lt_or_ge engine.index h.engines.size with present | missing
  · exact present
  · rw [heap_of_le missing] at globals
    exact absurd globals (Nat.not_lt_zero _)

theorem present_of_orderly (orderly : Orderly (h.heap engine)) :
    engine.index < h.engines.size :=
  present_of_globals orderly.globals

/-- A global that is there is read as it is, whatever metatable the globals have. -/
theorem global_of_value {name : String}
    (value : ((h.heap engine).rawGetText (h.heap engine).globals name).isNil = false) :
    h.global engine name = (.ok ((h.heap engine).rawGetText (h.heap engine).globals name), h) := by
  have settles : Evaluates setting 0 (1 + 0) (h.heap engine)
      (do return [← Operation.index {} none (.table (h.heap engine).globals) (.ofText name)])
      (.ok [(h.heap engine).rawGetText (h.heap engine).globals name]) (h.heap engine) :=
    (Evaluates.index_found (lookUp_table_of_value value)).bind (Evaluates.pure _)
  rw [global, field, performOperation_of_evaluates settles (by decide) (by decide),
    modifyHeap_heap]
  rfl

theorem global_of_orderly (orderly : Orderly (h.heap engine)) (name : String) :
    h.global engine name = (.ok (visible (h.heap engine) name), h) := by
  obtain ⟨steps, few, settles⟩ := @Orderly.evaluates_index setting 0 _ {} none orderly name
  have whole : Evaluates setting 0 (steps + 0) (h.heap engine)
      (do return [← Operation.index {} none (.table (h.heap engine).globals) (.ofText name)])
      (.ok [visible (h.heap engine) name]) (h.heap engine) := settles.bind (Evaluates.pure _)
  rw [global, field, performOperation_of_evaluates whole (by decide) (by omega), modifyHeap_heap]
  rfl

/-! ## Assigning the patterns of modules -/

/-- A field that is there, or that no metamethod stands for, is assigned without a script running,
if there is room for the patterns. -/
theorem setPackagePath_of_table (present : engine.index < h.engines.size) {p : TableId}
    (read : h.global engine "package" = (.ok (.table p), h)) (patterns : List UInt8)
    (own : ∀ heap, Heap.Steady (fun _ _ => False) (h.heap engine) heap →
      (heap.rawGetText p "path").isNil = false ∨
        heap.metamethod (.table p) "__newindex" = .nil) :
    h.setPackagePath engine patterns =
      match Machine.fitsHolding p (h.heap engine) (Heap.sizeOf (.string patterns.toByteArray)) with
      | (false, heap) => (.error (.ofRun .memory), h.modifyHeap engine fun _ => heap)
      | (true, heap) => (.ok (), h.modifyHeap engine fun _ =>
          heap.rawSetText p "path" (.string patterns.toByteArray)) := by
  unfold setPackagePath
  rw [read]
  dsimp only [asTable]
  cases room : Machine.fitsHolding p (h.heap engine)
      (Heap.sizeOf (.string patterns.toByteArray)) with
  | mk enough heap =>
      cases enough with
      | false => rfl
      | true =>
          have there : (h.modifyHeap engine fun _ => heap).heap engine = heap :=
            heap_modifyHeap present _
          have whole : Evaluates setting 0 (2 + 0) ((h.modifyHeap engine fun _ => heap).heap engine)
              (do
                Operation.assign {} none (.table p) (.ofText "path") (.string patterns.toByteArray)
                return [] : Eval (List Value))
              (.ok []) (heap.rawSetText p "path" (.string patterns.toByteArray)) := by
            rw [there]
            exact (Evaluates.assign_field (own heap (.of_fitsHolding _ room))).bind
              (Evaluates.pure [])
          dsimp only [setField]
          rw [performOperation_of_evaluates whole (by decide) (by decide)]
          dsimp only
          rw [modifyHeap_modifyHeap]
          rfl

/-- The library table gets the patterns, if it still is a table and there is room for them. -/
theorem setPackagePath_of_orderly (orderly : Orderly (h.heap engine)) (patterns : List UInt8) :
    ∃ heap, Heap.Steady (fun _ _ => False) (h.heap engine) heap ∧
      ((∃ p, heap.rawGetText heap.globals "package" = .table p ∧
        h.setPackagePath engine patterns = (.ok (), h.modifyHeap engine fun _ =>
          heap.rawSetText p "path" (.string patterns.toByteArray))) ∨
      ∃ e, h.setPackagePath engine patterns = (.error e, h.modifyHeap engine fun _ => heap)) := by
  have present := present_of_orderly orderly
  have read := global_of_orderly orderly "package"
  rw [orderly.visible_package] at read
  cases found : (h.heap engine).rawGetText (h.heap engine).globals "package" with
  | table p =>
      rw [found] at read
      have assigns := setPackagePath_of_table present read patterns fun heap steady => by
        have library := (orderly.keep_all steady).package p
          ((orderly.rawGetText_globals steady.toKeeps id).trans found)
        rcases library.path with ⟨s, text⟩ | ⟨plain, _⟩
        · exact .inl (by rw [text]; rfl)
        · exact .inr (metamethod_of_metatable?_eq_none plain _)
      cases room : Machine.fitsHolding p (h.heap engine)
          (Heap.sizeOf (.string patterns.toByteArray)) with
      | mk enough heap =>
          rw [room] at assigns
          have steady := Heap.Steady.of_fitsHolding (fun _ _ => False) room
          refine ⟨heap, steady, ?_⟩
          cases enough with
          | false => exact .inr ⟨_, assigns⟩
          | true =>
              exact .inl ⟨p, (orderly.rawGetText_globals steady.toKeeps id).trans found, assigns⟩
  | _ =>
      rw [found] at read
      refine ⟨h.heap engine, .refl .., .inr ?_⟩
      rw [modifyHeap_heap, setPackagePath, read]
      exact ⟨_, rfl⟩

end Host

/-! ## Installing the metatable of the globals -/

namespace Scope

variable {h middle after : Heap}

/-- What making sure that scopes are looked up does to a heap. -/
structure Ensured (h after : Heap) : Prop where
  orderly : Orderly after
  keeps : Heap.Keeps (fun _ _ => False) h after
  current? : current? after = current? h
  installed : ∀ m, h.globalsMetatable? = some m → after.globalsMetatable? = some m
  guarded : Guarded h → Guarded after

theorem Ensured.ofSteady (orderly : Orderly h) (steady : Heap.Steady (fun _ _ => False) h after) :
    Ensured h after :=
  ⟨orderly.keep_all steady, steady.toKeeps, orderly.current?_keep steady fun _ _ _ => id,
    fun _ before => steady.globalsMetatable?.trans before,
    orderly.guarded_keep steady.toKeeps steady.globalsMetatable? fun _ _ => id⟩

theorem Ensured.trans (first : Ensured h middle) (second : Ensured middle after) :
    Ensured h after :=
  ⟨second.orderly, first.keeps.andThen second.keeps, second.current?.trans first.current?,
    fun m before => second.installed m (first.installed m before),
    fun guarded => second.guarded (first.guarded guarded)⟩

/-- A table that can become the metatable of the globals; nothing is looked up by it yet. -/
structure Candidate (h : Heap) (m : TableId) : Prop where
  present : m.index < h.tables.size
  metatable? : (h.table m).metatable? = none
  mode : h.rawGetText m "__mode" = .nil
  index : h.rawGetText m "__index" = .nil
  newindex : h.rawGetText m "__newindex" = .builtin (.host .guardAssignment)

theorem candidate_new (h : Heap) :
    Candidate (h.newTable (.ofEntries [("__newindex", .builtin (.host .guardAssignment))])).2
      (h.newTable (.ofEntries [("__newindex", .builtin (.host .guardAssignment))])).1 where
  present := by simp [Heap.newTable]
  metatable? := by rw [Heap.table_newTable_self, Table.metatable?_ofEntries]
  mode := by
    rw [Heap.rawGetText, Heap.rawGet, Heap.table_newTable_self]
    exact Table.get_ofEntries_of_not_mem (by simp)
  index := by
    rw [Heap.rawGetText, Heap.rawGet, Heap.table_newTable_self]
    exact Table.get_ofEntries_of_not_mem (by simp)
  newindex := by
    rw [Heap.rawGetText, Heap.rawGet, Heap.table_newTable_self]
    rw [Table.ofEntries, List.foldl_cons, List.foldl_nil, Table.get_setText, if_pos rfl]

theorem Candidate.keep {m : TableId} (candidate : Candidate h m)
    (keeps : Heap.Keeps (fun _ _ => False) h after) (other : m ≠ h.globals) :
    Candidate after m := by
  have strong := Collect.strong_of_metatable?_eq_none candidate.metatable?
  refine ⟨Nat.lt_of_lt_of_le candidate.present keeps.grown, ?_, ?_, ?_, ?_⟩
  · rw [keeps.metatable? m candidate.present other, candidate.metatable?]
  · rw [keeps.rawGetText candidate.present id strong, candidate.mode]
  · rw [keeps.rawGetText candidate.present id strong, candidate.index]
  · rw [keeps.rawGetText candidate.present id strong, candidate.newindex]

theorem Ensured.link {m : TableId} (orderly : Orderly h) (pending : h.globalsMetatable? = none)
    (candidate : Candidate h m) (other : m ≠ h.globals) :
    Ensured h { h.modifyTable h.globals fun t => { t with metatable? := some m } with
      globalsMetatable? := some m } := by
  have linked := Heap.Keeps.setGlobalsMetatable candidate.present candidate.mode fun _ _ => False
  have keeps : Heap.Keeps (fun _ _ => False) h
      { h.modifyTable h.globals fun t => { t with metatable? := some m } with
        globalsMetatable? := some m } :=
    linked.andThen (.ofTables rfl rfl rfl fun _ _ found => found)
  have kept := candidate.keep keeps other
  refine ⟨⟨?_, ?_, ?_, ?_, ?_, ?_, ?_⟩, keeps, ?_, by simp [pending], ?_⟩
  · exact Nat.lt_of_lt_of_le orderly.globals keeps.grown
  · exact congrArg Table.metatable? (Heap.table_modifyTable_self orderly.globals _)
  · exact Nat.lt_of_lt_of_le orderly.arrays keeps.grown
  · rw [keeps.arrayMetatable, keeps.inert _ _ orderly.arrays id (by
      rw [orderly.mode]
      exact Value.inert_nil), orderly.mode]
  · intro n installed
    obtain rfl : m = n := Option.some.inj installed
    exact ⟨kept.present, kept.metatable?, kept.mode, .inl kept.index⟩
  · intro absent
    cases absent
  · intro p found
    rw [orderly.rawGetText_globals keeps id] at found
    exact (orderly.package p found).keep keeps False.elim
  · have none : Scope.current? h = none := by simp [Scope.current?, pending]
    rw [current?_of_link (m := m) rfl, kept.index, none]
  · intro _ n installed
    obtain rfl : m = n := Option.some.inj installed
    exact kept.newindex

end Scope

namespace Host

variable {h : Host} {engine : EngineId}

/-- The function `setmetatable` gives a table a metatable if there is room for a call. -/
theorem callFunction_setmetatable_fits {globals m : TableId}
    (unprotected : (h.heap engine).metamethod (.table globals) "__metatable" = .nil) :
    h.callFunction engine (.builtin (.base .setmetatable)) [.table globals, .table m] =
        (.ok [.table globals], h.modifyHeap engine fun _ =>
          (Machine.fits (h.heap engine) 0).2.modifyTable globals fun t =>
            { t with metatable? := some m }) ∨
      ∃ e, h.callFunction engine (.builtin (.base .setmetatable)) [.table globals, .table m] =
        (.error e, h.modifyHeap engine fun _ => (Machine.fits (h.heap engine) 0).2) := by
  have kept := Heap.metamethod_fits 0 unprotected
  cases room : Machine.fits (h.heap engine) 0 with
  | mk enough heap =>
      rw [room] at kept
      cases enough with
      | true =>
          have settles : Evaluates setting 0 2 heap _ _ _ :=
            Evaluates.setmetatable_of_unprotected (m := m) kept
              (Library.nameOf (.base .setmetatable))
          have called : Evaluates setting 1 (2 + 2) (h.heap engine)
              (Eval.callBack (.builtin (.base .setmetatable)) [.table globals, .table m]) _ _ :=
            Evaluates.call_builtin rfl room settles
          exact .inl (perform_of_evaluates called.hostCall (by decide) (by decide))
      | false =>
          have failed : Evaluates setting 1 2 (h.heap engine)
              (Eval.callBack (.builtin (.base .setmetatable)) [.table globals, .table m]) _ _ :=
            Evaluates.call_outOfMemory rfl room
          exact .inr ⟨_, perform_of_evaluates failed.hostCall_outOfMemory (by decide) (by decide)⟩

theorem callFunction_setmetatable {globals m : TableId}
    (plain : ((h.heap engine).table globals).metatable? = none) :
    ∃ heap, Heap.Steady (fun _ _ => False) (h.heap engine) heap ∧
      (h.callFunction engine (.builtin (.base .setmetatable)) [.table globals, .table m] =
          (.ok [.table globals], h.modifyHeap engine fun _ =>
            heap.modifyTable globals fun t => { t with metatable? := some m }) ∨
        ∃ e, h.callFunction engine (.builtin (.base .setmetatable)) [.table globals, .table m] =
          (.error e, h.modifyHeap engine fun _ => heap)) :=
  ⟨_, Heap.Steady.fits (fun _ _ => False) (h.heap engine) 0,
    callFunction_setmetatable_fits (metamethod_of_metatable?_eq_none plain _)⟩

/-- Before the metatable of the globals is installed, no scope answers for `setmetatable`. -/
theorem setmetatable_of_orderly (orderly : Orderly (h.heap engine))
    (pending : (h.heap engine).globalsMetatable? = none) :
    ∃ v, h.global engine "setmetatable" = (.ok v, h) ∧
      (asFunction v = .ok (.builtin (.base .setmetatable)) ∨ ∃ e, asFunction v = .error e) := by
  have read := global_of_orderly orderly "setmetatable"
  have installer := orderly.setmetatable pending
  have own : visible (h.heap engine) "setmetatable" =
      (h.heap engine).rawGetText (h.heap engine).globals "setmetatable" := by
    unfold visible
    split
    · rename_i absent
      rw [current?, pending]
      exact (Value.eq_nil_of_isNil absent).symm
    · rfl
  rw [← own] at installer
  refine ⟨_, read, ?_⟩
  cases found : visible (h.heap engine) "setmetatable" with
  | builtin f =>
      rw [found] at installer
      exact .inl (congrArg (fun f => Except.ok (Value.builtin f)) installer)
  | closure id =>
      rw [found] at installer
      exact installer.elim
  | _ => exact .inr ⟨_, rfl⟩

theorem ensureScopes_of_orderly (present : engine.index < h.engines.size)
    (orderly : Orderly (h.heap engine)) :
    ∃ heap, (h.ensureScopes engine).2 = (h.modifyHeap engine fun _ => heap) ∧
      Ensured (h.heap engine) heap ∧
      ((h.ensureScopes engine).1 = .ok () → heap.globalsMetatable?.isSome) := by
  unfold ensureScopes
  cases pending : (h.heap engine).globalsMetatable? with
  | some m =>
      exact ⟨h.heap engine, (modifyHeap_heap h engine).symm,
        .ofSteady orderly (Heap.Steady.refl ..), by simp [pending]⟩
  | none =>
      simp only [installScopes]
      have candidate := candidate_new (h.heap engine)
      have steady := Heap.Steady.newTable (fun _ _ => False) (h.heap engine)
        (.ofEntries [("__newindex", .builtin (.host .guardAssignment))])
      have other : ((h.heap engine).newTable
          (.ofEntries [("__newindex", .builtin (.host .guardAssignment))])).1 ≠
          (h.heap engine).globals := by
        intro same
        exact Nat.ne_of_gt orderly.globals (congrArg TableId.index same)
      generalize (h.heap engine).newTable
        (.ofEntries [("__newindex", .builtin (.host .guardAssignment))]) = made at *
      obtain ⟨m, heap⟩ := made
      have opened : (h.modifyHeap engine fun _ => heap).heap engine = heap :=
        heap_modifyHeap present _
      have made := Ensured.ofSteady orderly steady
      obtain ⟨v, read, function | ⟨e, none⟩⟩ :=
        setmetatable_of_orderly (h := h.modifyHeap engine fun _ => heap)
          (by rw [opened]; exact made.orderly) (by rw [opened, steady.globalsMetatable?, pending])
      · have globals : heap.globals = (h.heap engine).globals := steady.globals
        have plain : (((h.modifyHeap engine fun _ => heap).heap engine).table
            (h.heap engine).globals).metatable? = none := by
          rw [opened, ← globals, made.orderly.link, steady.globalsMetatable?, pending]
        obtain ⟨full, collected, called | ⟨e, failed⟩⟩ := callFunction_setmetatable (m := m) plain
        · rw [opened] at collected
          have fitted := Ensured.ofSteady made.orderly collected
          have fullGlobals : full.globals = (h.heap engine).globals :=
            collected.globals.trans globals
          have linked := Ensured.link fitted.orderly
            (by rw [collected.globalsMetatable?, steady.globalsMetatable?, pending])
            (candidate.keep collected.toKeeps (by rw [globals]; exact other))
            (by rw [fullGlobals]; exact other)
          rw [read]
          simp only [function, called, modifyHeap_modifyHeap]
          refine ⟨_, rfl, (made.trans fitted).trans ?_, fun _ => rfl⟩
          rw [← fullGlobals]
          exact linked
        · rw [opened] at collected
          rw [read]
          simp only [function, failed, modifyHeap_modifyHeap]
          exact ⟨full, rfl, made.trans (.ofSteady made.orderly collected), by simp⟩
      · rw [read]
        simp only [none]
        exact ⟨heap, rfl, made, by simp⟩

end Host

end ScriptHost
