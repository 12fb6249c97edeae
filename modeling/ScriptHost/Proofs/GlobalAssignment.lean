import ScriptHost.Proofs.GlobalAccess
import ScriptHost.Proofs.Utf8Text

/-!
# Assigning globals

What becomes of an ordinary assignment to a global, on an engine on which scopes work. Once the
metatable of the globals is installed, no global with the name of a binding comes into being.
-/

set_option autoImplicit false

namespace ScriptHost

open Lua Scope

namespace Lua

variable {setting : Library.Setting} {calls steps : Nat} {h middle after : Heap} {id : TableId}
  {name function : String} {v : Value} {names : List String}

/-- What the host says about an assignment to the name of a binding. -/
def readOnly (name : String) : Failure := .runtime s!"'{name}' is a read-only binding"

theorem guardAssignment_eq (names : List String) (function : String) (id : TableId) (name : String)
    (v : Value) :
    Library.guardAssignment names ⟨function, [.table id, .ofText name, v]⟩ =
      if name ∈ names then Eval.failure (readOnly name)
      else do
        Eval.modify fun h => h.rawSetText id name v
        return [] := by
  by_cases reserved : name ∈ names
  · simp [Library.guardAssignment, Arguments.get, Value.ofText, fromUTF8?_toByteArray,
      Option.filter_some, reserved, readOnly]
  · simp [Library.guardAssignment, Arguments.get, Value.ofText, fromUTF8?_toByteArray,
      Option.filter_some, reserved, Value.key?]
    rfl

/-- Any other key is assigned. -/
theorem guardAssignment_eq_rawSet {key : Value} {k : Key} (isKey : key.key? = some k)
    (free : ∀ name ∈ names, k ≠ .ofText name) (function : String) (id : TableId) (v : Value) :
    Library.guardAssignment names ⟨function, [.table id, key, v]⟩ = (do
      Eval.modify fun h => h.rawSet id k v
      return []) := by
  cases key with
  | string s =>
      obtain rfl : Key.string s = k := Option.some.inj isKey
      have unnamed : (String.fromUTF8? s).filter names.contains = none := by
        rw [Option.filter_eq_none_iff]
        intro name decoded listed
        exact free name (by simpa using listed)
          (congrArg Key.string (toByteArray_of_fromUTF8? decoded).symm)
      simp [Library.guardAssignment, Arguments.get, unnamed, Value.key?]
  | _ => simp [Library.guardAssignment, Arguments.get, isKey]

/-- What a host does to assign an entry of a table as a script would. -/
def entryAssignment (id : TableId) (key v : Value) : Eval (List Value) := do
  Operation.assign {} none (.table id) key v
  return []

/-- What a host does to assign a field as a script would. -/
def assignment (id : TableId) (name : String) (v : Value) : Eval (List Value) := do
  Operation.assign {} none (.table id) (.ofText name) v
  return []

namespace Evaluates

section

variable {key : Value} {k : Key}

theorem entryAssignment_own (isKey : key.key? = some k)
    (own : (h.rawGet id k).isNil = false ∨ (h.table id).metatable? = none) :
    Evaluates setting calls 2 h (entryAssignment id key v) (.ok []) (h.rawSet id k v) := by
  change Evaluates setting calls (2 + 0) h _ _ _
  exact (assign_entry isKey (own.imp_right (metamethod_of_metatable?_eq_none · _))).bind (pure [])

/-- An assignment for which a library function stands comes to what a call of it comes to. -/
theorem entryAssignment_handler {f : Builtin} {outcome : Except Thrown (List Value)}
    (target : Operation.lookUpTarget h (.table id) key = .handler (.builtin f))
    (called : Evaluates setting calls steps h
      (Eval.call (({} : Place).site "newindex") (.builtin f) [.table id, key, v]) outcome after) :
    Evaluates setting calls (1 + steps) h (entryAssignment id key v)
      (outcome.map fun _ => []) after := by
  have assigned : Evaluates setting calls (1 + steps) h
      (Operation.assign {} none (.table id) key v) (outcome.map fun _ => ()) after := by
    rw [Operation.assign, show Operation.chainLimit = 1999 + 1 from rfl]
    refine (read fun h => Operation.lookUpTarget h (.table id) key).bind ?_
    rw [target]
    exact called.map fun _ => ()
  have whole := assigned.map fun _ : Unit => ([] : List Value)
  cases outcome <;> exact whole

theorem guardAssignment_rawSet (isKey : key.key? = some k) (free : ∀ name ∈ names, k ≠ .ofText name) :
    Evaluates setting calls 1 h
      (Library.guardAssignment names ⟨function, [.table id, key, v]⟩) (.ok []) (h.rawSet id k v) := by
  rw [guardAssignment_eq_rawSet isKey free]
  change Evaluates setting calls (1 + 0) h _ _ _
  exact (modify fun h => h.rawSet id k v).bind (pure [])

end

theorem assignment_own
    (own : (h.rawGetText id name).isNil = false ∨ (h.table id).metatable? = none) :
    Evaluates setting calls 2 h (assignment id name v) (.ok []) (h.rawSetText id name v) :=
  entryAssignment_own rfl own

theorem guardAssignment_reserved (reserved : name ∈ names) :
    Evaluates setting calls 1 h
      (Library.guardAssignment names ⟨function, [.table id, .ofText name, v]⟩)
      (.error (.error (.userdata (h.newUserdata (.failure (readOnly name))).1)))
      (h.newUserdata (.failure (readOnly name))).2 := by
  rw [guardAssignment_eq, if_pos reserved]
  exact failure (by simp [readOnly])

end Evaluates

end Lua

namespace Host

variable {h : Host} {engine : EngineId} {operation : Eval (List Value)} {calls steps : Nat}
  {after : Heap}

/-! ## Operations that fail -/

theorem performOperation_of_outOfMemory
    (settles : Evaluates setting calls steps (h.heap engine) operation (.error .outOfMemory) after)
    (flat : calls < Machine.nestingLimit) (short : steps + 2 < 10000) :
    h.performOperation engine operation =
      (.error (.ofRun .memory), h.modifyHeap engine fun _ => after) := by
  have whole : Evaluates setting calls (steps + 2 + 0) (h.heap engine) (reporting operation)
      (.error .outOfMemory) after := settles.protect.bind (Evaluates.raise .outOfMemory)
  exact perform_of_evaluates whole flat short

/-- A failure inside an operation is what the operation fails with. -/
theorem performOperation_of_failure {u : UserdataId} {f : Failure}
    (present : engine.index < h.engines.size) (ordinary : f ≠ .memory)
    (settles : Evaluates setting calls steps (h.heap engine) operation
      (.error (.error (.userdata u))) after)
    (found : after.resource? u = some (.failure f)) (flat : calls < Machine.nestingLimit)
    (short : steps + 4 < 10000) :
    h.performOperation engine operation =
      (.error (.ofRun f), h.modifyHeap engine fun _ => (after.newUserdata (.failure f)).2) := by
  have classified : Evaluates setting calls (1 + 1) after
      (Library.failureOf (.error (.userdata u)) >>= fun f => (Eval.failure f : Eval (List Value)))
      (.error (.error (.userdata (after.newUserdata (.failure f)).1)))
      (after.newUserdata (.failure f)).2 := by
    refine Evaluates.bind (a := f) ?_ (.failure ordinary)
    change Evaluates setting calls (1 + 0) after _ _ _
    refine (Evaluates.read fun h => Library.failure? h (.userdata u)).bind ?_
    rw [show Library.failure? after (.userdata u) = some f by simp [Library.failure?, found]]
    exact Evaluates.pure f
  have whole : Evaluates setting calls (steps + 2 + (1 + 1)) (h.heap engine)
      (reporting operation) _ _ := settles.protect.bind classified
  rw [performOperation, perform_of_evaluates whole flat short]
  refine congrArg (fun result => (result, _)) ?_
  rw [outcome, heap_modifyHeap present]
  simp [Library.failure?, Heap.resource?_newUserdata]

/-! ## Assignments -/

/-- What becomes of an assignment that the guard of the globals decides about: it is refused under
the name of a binding and carried out under any other key, unless there is no memory for the guard
to run. -/
theorem performOperation_guarded {id : TableId} {key : Value} {k : Key}
    (present : engine.index < h.engines.size) (isKey : key.key? = some k)
    (target : Operation.lookUpTarget (h.heap engine) (.table id) key =
      .handler (.builtin (.host .guardAssignment))) (v : Value) :
    ∃ middle, Heap.Steady (fun _ _ => False) (h.heap engine) middle ∧
      ((∃ name ∈ Binding.names, k = .ofText name ∧
          h.performOperation engine (entryAssignment id key v) =
            (.error (.ofRun (readOnly name)), h.modifyHeap engine fun _ => middle)) ∨
        (∀ name ∈ Binding.names, k ≠ .ofText name) ∧
          h.performOperation engine (entryAssignment id key v) =
            (.ok [], h.modifyHeap engine fun _ => middle.rawSet id k v) ∨
        (h.heap engine).limit? ≠ none ∧ h.performOperation engine (entryAssignment id key v) =
          (.error (.ofRun .memory), h.modifyHeap engine fun _ => middle)) := by
  cases room : Machine.fits (h.heap engine) 0 with
  | mk enough middle =>
      have fitted := Heap.Steady.of_fits (fun _ _ => False) room
      cases enough with
      | false =>
          have full : Evaluates setting 1 (1 + 2) (h.heap engine) (entryAssignment id key v)
              (.error .outOfMemory) middle :=
            .entryAssignment_handler target (.call_outOfMemory rfl room)
          exact ⟨middle, fitted, .inr (.inr ⟨Heap.limit?_ne_none_of_fits room,
            performOperation_of_outOfMemory full (by decide) (by decide)⟩)⟩
      | true =>
          by_cases named : ∃ name ∈ Binding.names, k = .ofText name
          · obtain ⟨name, listed, rfl⟩ := named
            obtain rfl : key = .ofText name := Value.eq_string_of_key? isKey
            have refused : Evaluates setting 1 (1 + (1 + 2)) (h.heap engine)
                (entryAssignment id (.ofText name) v)
                (.error (.error (.userdata (middle.newUserdata (.failure (readOnly name))).1)))
                (middle.newUserdata (.failure (readOnly name))).2 :=
              .entryAssignment_handler target
                (.call_builtin rfl room (.guardAssignment_reserved listed))
            exact ⟨_, (fitted.andThen (.newUserdata ..)).andThen (.newUserdata ..),
              .inl ⟨name, listed, rfl, performOperation_of_failure present (by simp [readOnly])
                refused (Heap.resource?_newUserdata ..) (by decide) (by decide)⟩⟩
          · have free : ∀ name ∈ Binding.names, k ≠ .ofText name :=
              fun name listed same => named ⟨name, listed, same⟩
            have carried : Evaluates setting 1 (1 + (1 + 2)) (h.heap engine)
                (entryAssignment id key v) (.ok []) (middle.rawSet id k v) :=
              .entryAssignment_handler target
                (.call_builtin rfl room (.guardAssignment_rawSet isKey free))
            exact ⟨middle, fitted, .inr (.inl ⟨free,
              performOperation_of_evaluates carried (by decide) (by decide)⟩)⟩

/-- Whether a global is one that scripts cannot bring into being. -/
def Reserved (h : Heap) (name : String) : Prop :=
  h.globalsMetatable?.isSome = true ∧ h.rawGetText h.globals name = .nil ∧ name ∈ Binding.names

theorem lookUpTarget_of_guarded {h : Heap} {name : String} (orderly : Orderly h)
    (guarded : Guarded h) {m : TableId} (installed : h.globalsMetatable? = some m)
    (absent : h.rawGetText h.globals name = .nil) :
    Operation.lookUpTarget h (.table h.globals) (.ofText name) =
      .handler (.builtin (.host .guardAssignment)) := by
  have value : ((Value.ofText name).key?.map (h.rawGet h.globals)).getD .nil =
      h.rawGetText h.globals name := rfl
  have handler : h.metamethod (.table h.globals) "__newindex" =
      .builtin (.host .guardAssignment) := by
    rw [metamethod_of_metatable?_eq_some (orderly.link.trans installed), guarded m installed]
  simp [Operation.lookUpTarget, value, absent, handler, Value.isNil,
    Operation.Access.ofMetamethod]

theorem setField_of_performOperation {id : TableId} {name : String} {v : Value} {last : Host}
    {result : Except EngineError (List Value)}
    (performed : h.performOperation engine (assignment id name v) = (result, last)) :
    h.setField engine (.table id) name v = (result.map fun _ => (), last) := by
  unfold assignment at performed
  rw [setField, performed]

/-- An ordinary assignment to a global is carried out or, if there is no room or the name is that
of a binding, fails and changes no table. -/
theorem setField_globals (orderly : Orderly (h.heap engine)) (guarded : Guarded (h.heap engine))
    (name : String) (v : Value) :
    ∃ middle, Heap.Steady (fun _ _ => False) (h.heap engine) middle ∧
      (¬ Reserved (h.heap engine) name ∧
          h.setField engine (.table (h.heap engine).globals) name v =
            (.ok (), h.modifyHeap engine fun _ => middle.rawSetText middle.globals name v) ∨
        Reserved (h.heap engine) name ∧
          h.setField engine (.table (h.heap engine).globals) name v =
            (.error (.ofRun (readOnly name)), h.modifyHeap engine fun _ => middle) ∨
        h.setField engine (.table (h.heap engine).globals) name v =
          (.error (.ofRun .memory), h.modifyHeap engine fun _ => middle)) := by
  have present := present_of_orderly orderly
  by_cases own : ((h.heap engine).rawGetText (h.heap engine).globals name).isNil = false ∨
      ((h.heap engine).table (h.heap engine).globals).metatable? = none
  · refine ⟨h.heap engine, Heap.Steady.refl .., .inl ⟨?_, ?_⟩⟩
    · rintro ⟨installed, absent, _⟩
      rcases own with value | none
      · rw [absent] at value
        cases value
      · rw [← orderly.link, none] at installed
        cases installed
    · have assigned : Evaluates setting 0 2 (h.heap engine)
          (assignment (h.heap engine).globals name v) _ _ := .assignment_own own
      exact setField_of_performOperation
        (performOperation_of_evaluates assigned (by decide) (by decide))
  · rw [not_or] at own
    obtain ⟨value, linked⟩ := own
    have absent := Value.eq_nil_of_isNil (by simpa using value)
    rw [orderly.link] at linked
    obtain ⟨m, installed⟩ := Option.ne_none_iff_exists'.mp linked
    have target := lookUpTarget_of_guarded orderly guarded installed absent
    obtain ⟨middle, steady, outcome⟩ :=
      performOperation_guarded present (Value.key?_ofText name) target v
    refine ⟨middle, steady, ?_⟩
    rcases outcome with ⟨other, listed, same, refused⟩ | ⟨free, carried⟩ | ⟨_, full⟩
    · obtain rfl : name = other := Key.eq_of_ofText same
      exact .inr (.inl ⟨⟨by simp [installed], absent, listed⟩, setField_of_performOperation refused⟩)
    · rw [steady.globals]
      exact .inl ⟨fun reserved => free name reserved.2.2 rfl, setField_of_performOperation carried⟩
    · exact .inr (.inr (setField_of_performOperation full))

end Host

end ScriptHost
