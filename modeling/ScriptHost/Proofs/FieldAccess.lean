import ScriptHost.Proofs.Evaluation
import ScriptHost.Proofs.HeapAccess

/-!
# Fields and metatables without script functions

Reading and assigning fields of tables where no metamethod is a function, and giving a table its
first metatable.
-/

set_option autoImplicit false

namespace ScriptHost.Lua

open Operation

variable {setting : Library.Setting} {calls steps fuel : Nat} {h after : Heap} {place : Place}
  {label? : Option Label} {object key v : Value}

section

variable {id : TableId} {k : Key} (isKey : key.key? = some k)

include isKey

theorem lookUp_entry_of_value (present : (h.rawGet id k).isNil = false) :
    lookUp h (.table id) key = .found (h.rawGet id k) := by
  simp [lookUp, isKey, present]

theorem lookUp_entry_of_nil (absent : h.rawGet id k = .nil) :
    lookUp h (.table id) key =
      if (h.metamethod (.table id) "__index").isNil then .found .nil
      else .ofMetamethod (h.metamethod (.table id) "__index") := by
  simp [lookUp, isKey, absent, Value.isNil]

end

theorem lookUp_table_of_value {id : TableId} {name : String}
    (present : (h.rawGetText id name).isNil = false) :
    lookUp h (.table id) (.ofText name) = .found (h.rawGetText id name) :=
  lookUp_entry_of_value rfl present

theorem lookUp_table_of_nil {id : TableId} {name : String}
    (absent : h.rawGetText id name = .nil) :
    lookUp h (.table id) (.ofText name) =
      if (h.metamethod (.table id) "__index").isNil then .found .nil
      else .ofMetamethod (h.metamethod (.table id) "__index") :=
  lookUp_entry_of_nil rfl absent

theorem metamethod_of_metatable?_eq_none {id : TableId} (plain : (h.table id).metatable? = none)
    (event : String) : h.metamethod (.table id) event = .nil := by
  simp [Heap.metamethod, Heap.metatable?, plain]

theorem metamethod_of_metatable?_eq_some {id m : TableId}
    (linked : (h.table id).metatable? = some m) (event : String) :
    h.metamethod (.table id) event = h.rawGetText m event := by
  simp [Heap.metamethod, Heap.metatable?, linked]

theorem lookUp_entry_of_plain {id : TableId} {k : Key} (isKey : key.key? = some k)
    (plain : (h.table id).metatable? = none) :
    lookUp h (.table id) key = .found (h.rawGet id k) := by
  cases absent : (h.rawGet id k).isNil with
  | false => exact lookUp_entry_of_value isKey absent
  | true =>
      have nil := Value.eq_nil_of_isNil absent
      rw [lookUp_entry_of_nil isKey nil, metamethod_of_metatable?_eq_none plain]
      exact congrArg _ nil.symm

theorem lookUp_table_of_plain {id : TableId} (plain : (h.table id).metatable? = none)
    (name : String) : lookUp h (.table id) (.ofText name) = .found (h.rawGetText id name) :=
  lookUp_entry_of_plain rfl plain

namespace Evaluates

theorem index_found (found : lookUp h object key = .found v) :
    Evaluates setting calls 1 h (indexWithin place label? object key (fuel + 1)) (.ok v) h := by
  change Evaluates setting calls (1 + 0) h _ _ _
  refine (read fun h => lookUp h object key).bind ?_
  rw [found]
  exact pure v

theorem index_forward {next : Value} {outcome : Except Thrown Value}
    (forward : lookUp h object key = .forward next)
    (rest : Evaluates setting calls steps h (indexWithin place none next key fuel) outcome after) :
    Evaluates setting calls (1 + steps) h (indexWithin place label? object key (fuel + 1)) outcome
      after := by
  refine (read fun h => lookUp h object key).bind ?_
  rw [forward]
  exact rest

/-- An entry that is there, or that no metamethod stands for, is assigned in the table itself. -/
theorem assign_entry {id : TableId} {k : Key} {value : Value} (isKey : key.key? = some k)
    (own : (h.rawGet id k).isNil = false ∨ h.metamethod (.table id) "__newindex" = .nil) :
    Evaluates setting calls 2 h (assign place label? (.table id) key value) (.ok ())
      (h.rawSet id k value) := by
  have target : ∃ old, lookUpTarget h (.table id) key = .found old := by
    cases absent : (h.rawGet id k).isNil with
    | false => exact ⟨h.rawGet id k, by simp [lookUpTarget, isKey, absent]⟩
    | true =>
        have none : h.metamethod (.table id) "__newindex" = .nil := by simpa [absent] using own
        exact ⟨.nil, by simp [lookUpTarget, isKey, absent, none, show Value.nil.isNil = true from rfl]⟩
  obtain ⟨old, target⟩ := target
  have raw : Evaluates setting calls 1 h (assignRaw place id key value) (.ok ())
      (h.rawSet id k value) := by
    rw [assignRaw, isKey]
    exact modify fun h => h.rawSet id k value
  rw [assign, show chainLimit = 1999 + 1 from rfl]
  change Evaluates setting calls (1 + 1) h _ _ _
  refine (read fun h => lookUpTarget h (.table id) key).bind ?_
  rw [target]
  exact raw

theorem assign_field {id : TableId} {name : String} {value : Value}
    (own : (h.rawGetText id name).isNil = false ∨ h.metamethod (.table id) "__newindex" = .nil) :
    Evaluates setting calls 2 h (assign place label? (.table id) (.ofText name) value) (.ok ())
      (h.rawSetText id name value) :=
  assign_entry rfl own

/-- Nothing but a field of the metatable that is there keeps a table from getting another one. -/
theorem setmetatable_of_unprotected {id m : TableId}
    (unprotected : h.metamethod (.table id) "__metatable" = .nil) (function : String) :
    Evaluates setting calls 2 h (Library.setmetatable ⟨function, [.table id, .table m]⟩)
      (.ok [.table id]) (h.modifyTable id fun t => { t with metatable? := some m }) := by
  have unguarded : (!(h.metamethod (.table id) "__metatable").isNil) = false := by
    rw [unprotected]
    rfl
  let assigned : Eval (List Value) := do
    Eval.modify fun h => h.modifyTable id fun t => { t with metatable? := some m }
    return [.table id]
  have unfolded : Library.setmetatable ⟨function, [.table id, .table m]⟩ =
      Eval.read (fun h => !(h.metamethod (.table id) "__metatable").isNil) >>= fun guarded =>
        if guarded = true then
          Eval.fail "cannot change a protected metatable" >>= fun _ : Unit => assigned
        else assigned := rfl
  rw [unfolded]
  change Evaluates setting calls (1 + (1 + 0)) h (_ >>= _) _ _
  refine (read _).bind ?_
  rw [unguarded, if_neg Bool.false_ne_true]
  exact (modify _).bind (pure _)

end Evaluates

end ScriptHost.Lua
