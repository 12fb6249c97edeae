import Mathlib.Logic.Relation
import ScriptHost.Proofs.JsonReadback

/-!
# Values that have no JSON form

Functions, user data and coroutines have none, and neither has a table with one of them or with
itself in the part of it that is converted, at any depth.
-/

set_option autoImplicit false

namespace ScriptHost.Lua.Conversion

/-- A value stands in the part of a table that is converted: the items of an array, or all keys and
values of another table. -/
inductive Part (h : Heap) (id : TableId) : Value → Prop where
  | item {v} : isArray h (h.table id) = true → v ∈ items (h.table id) → Part h id v
  | key {k} : isArray h (h.table id) = false → ((h.table id).get k).isNil = false →
      Part h id k.value
  | value {k} : isArray h (h.table id) = false → ((h.table id).get k).isNil = false →
      Part h id ((h.table id).get k)

/-- The one table stands in the other. -/
def Contains (h : Heap) (outer inner : TableId) : Prop := Part h outer (.table inner)

inductive Unstorable (h : Heap) : Value → Prop where
  | closure (id : ClosureId) : Unstorable h (.closure id)
  | builtin (f : Builtin) : Unstorable h (.builtin f)
  | userdata (id : UserdataId) : Unstorable h (.userdata id)
  | coroutine (id : CoroutineId) : Unstorable h (.coroutine id)
  | containing {id v} : Part h id v → Unstorable h v → Unstorable h (.table id)
  | cyclic {id} : Relation.TransGen (Contains h) id id → Unstorable h (.table id)

variable {h : Heap} {id : TableId} {v : Value} {path : List TableId} {fuel : Nat}

/-- A list that is converted has every member converted. -/
theorem exists_ok_of_mapM {α β ε : Type} {f : α → Except ε β} {list : List α} {results : List β}
    (converted : list.mapM f = .ok results) {a : α} (member : a ∈ list) : ∃ b, f a = .ok b := by
  induction list generalizing results with
  | nil => cases member
  | cons b list ih =>
      rw [List.mapM_cons] at converted
      cases first : f b with
      | error e =>
          rw [first] at converted
          cases converted
      | ok result =>
          rcases List.mem_cons.mp member with rfl | later
          · exact ⟨result, first⟩
          · rw [first] at converted
            cases rest : list.mapM f with
            | error e =>
                rw [rest] at converted
                cases converted
            | ok results => exact ih rest later

theorem keyText_ok {k : Key} {text : String} (converted : keyText h k = .ok text) :
    ∃ s, k.value = .string s := by
  cases k with
  | string s => exact ⟨s, rfl⟩
  | _ => cases converted

theorem convertEntry_ok {t : Table} {k : Key} {entry : String × Json}
    (converted : Scope.convertEntry h path t fuel k = .ok entry) :
    (∃ s, k.value = .string s) ∧ ∃ json, toJsonWithin h path (t.get k) fuel = .ok json := by
  unfold Scope.convertEntry at converted
  cases key : checkPath path k.value with
  | error e =>
      rw [key] at converted
      cases converted
  | ok _ =>
      cases value : checkPath path (t.get k) with
      | error e =>
          rw [key, value] at converted
          cases converted
      | ok _ =>
          cases text : keyText h k with
          | error e =>
              rw [key, value, text] at converted
              cases converted
          | ok name =>
              cases inside : toJsonWithin h path (t.get k) fuel with
              | error e =>
                  rw [key, value, text, inside] at converted
                  cases converted
              | ok json => exact ⟨keyText_ok text, json, rfl⟩

/-- A table is converted only if all its parts are: values with the table around them, and keys as
strings. -/
theorem converted_of_part {json : Json}
    (converted : toJsonWithin h path (.table id) (fuel + 1) = .ok json) (part : Part h id v) :
    (∃ s, v = .string s) ∨ ∃ json, toJsonWithin h (id :: path) v fuel = .ok json := by
  have entries (object : isArray h (h.table id) = false) {k : Key}
      (live : ((h.table id).get k).isNil = false) :
      ∃ entry, Scope.convertEntry h (id :: path) (h.table id) fuel k = .ok entry := by
    have opened : ((h.table id).liveOrder.mapM
        (Scope.convertEntry h (id :: path) (h.table id) fuel) >>= fun entries =>
          Pure.pure (Json.object entries)) = .ok json := by
      rw [toJsonWithin, if_neg (by simp [object])] at converted
      exact converted
    cases all : (h.table id).liveOrder.mapM
        (Scope.convertEntry h (id :: path) (h.table id) fuel) with
    | error e =>
        rw [all] at opened
        cases opened
    | ok results => exact exists_ok_of_mapM all (Table.mem_liveOrder_of_live live)
  cases part with
  | item array member =>
      rw [toJsonWithin, if_pos array] at converted
      cases all : (items (h.table id)).mapM fun item => do
          checkPath (id :: path) item
          toJsonWithin h (id :: path) item fuel with
      | error e =>
          rw [all] at converted
          cases converted
      | ok results =>
          obtain ⟨result, inside⟩ := exists_ok_of_mapM all member
          cases outside : checkPath (id :: path) v with
          | error e =>
              rw [outside] at inside
              cases inside
          | ok _ =>
              rw [outside] at inside
              exact .inr ⟨result, inside⟩
  | key object live =>
      obtain ⟨entry, within⟩ := entries object live
      exact .inl (convertEntry_ok within).1
  | value object live =>
      obtain ⟨entry, within⟩ := entries object live
      exact .inr (convertEntry_ok within).2

/-- A table that stands in itself is not converted, however deep the conversion may go. -/
theorem not_converted_of_cyclic (cyclic : Relation.TransGen (Contains h) id id) {json : Json} :
    toJsonWithin h path (.table id) fuel ≠ .ok json := by
  induction fuel generalizing id path json with
  | zero => exact nofun
  | succ fuel ih =>
      intro converted
      obtain ⟨inner, part, back⟩ := Relation.TransGen.head'_iff.mp cyclic
      rcases converted_of_part converted part with ⟨s, same⟩ | ⟨json, within⟩
      · cases same
      · exact ih (.tail' back part) within

theorem Unstorable.not_converted (unstorable : Unstorable h v) {json : Json} :
    toJsonWithin h path v fuel ≠ .ok json := by
  induction unstorable generalizing path fuel json with
  | cyclic cyclic => exact not_converted_of_cyclic cyclic
  | @containing id v part within ih =>
      intro converted
      cases fuel with
      | zero => cases converted
      | succ fuel =>
          rcases converted_of_part converted part with ⟨s, same⟩ | ⟨json, inside⟩
          · cases same
            cases within
          · exact ih inside
  | _ => cases fuel <;> exact nofun

theorem Unstorable.toJson (unstorable : Unstorable h v) :
    ∃ fault, Conversion.toJson h v = .error fault := by
  cases converted : Conversion.toJson h v with
  | error fault => exact ⟨fault, rfl⟩
  | ok json => exact absurd converted unstorable.not_converted

end ScriptHost.Lua.Conversion
