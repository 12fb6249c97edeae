import ScriptHost.Lua.Conversion
import ScriptHost.Proofs.HeapAccess

/-!
# Items and entries of tables

A table that was made of items has them under the indices from one on, and a table that was made
of entries has no others. How they are laid out decides neither which they are nor whether there
are any.
-/

set_option autoImplicit false

namespace ScriptHost.Lua

theorem Key.index_inj {i j : Nat} (small : i < 2 ^ 63) (small' : j < 2 ^ 63)
    (same : Key.integer (Int64.ofNat i) = .integer (Int64.ofNat j)) : i = j := by
  have number := congrArg Int64.toInt (Key.integer.inj same)
  rw [Int64.toInt_ofNat_of_lt small, Int64.toInt_ofNat_of_lt small'] at number
  exact Int.ofNat_inj.mp number

namespace Table

/-! ## Items -/

theorem getIndex_setIndex (t : Table) {i j : Nat} (v : Value) (small : i < 2 ^ 63)
    (small' : j < 2 ^ 63) :
    (t.setIndex i v).getIndex j = if i = j then v else t.getIndex j := by
  rw [setIndex, getIndex, get_set]
  by_cases same : i = j
  · rw [if_pos (by rw [same]), if_pos same]
  · rw [if_neg fun equal => same (Key.index_inj small small' equal), if_neg same, getIndex]

theorem getIndex_foldl_setIndex (values : List Value) (n : Nat) (t : Table) {j : Nat}
    (small : n + values.length < 2 ^ 63) (small' : j < 2 ^ 63) :
    ((values.zipIdx n).foldl (fun t entry => t.setIndex (entry.2 + 1) entry.1) t).getIndex j =
      if n < j ∧ j ≤ n + values.length then values[j - n - 1]?.getD .nil else t.getIndex j := by
  induction values generalizing n t with
  | nil =>
      rw [if_neg (by simp only [List.length_nil]; omega)]
      rfl
  | cons v rest ih =>
      rw [List.length_cons] at small ⊢
      rw [List.zipIdx_cons, List.foldl_cons, ih (n + 1) _ (by omega),
        getIndex_setIndex t v (by omega) small']
      by_cases first : n + 1 = j
      · subst first
        rw [if_neg (by omega), if_pos rfl, if_pos (by omega), show n + 1 - n - 1 = 0 by omega]
        rfl
      · rw [if_neg first]
        by_cases later : n + 1 < j ∧ j ≤ n + 1 + rest.length
        · rw [if_pos later, if_pos (by omega), show j - n - 1 = j - (n + 1) - 1 + 1 by omega,
            List.getElem?_cons_succ]
        · rw [if_neg later, if_neg (by omega)]

theorem getIndex_ofItems {values : List Value} {i : Nat} (small : values.length < 2 ^ 63)
    (small' : i + 1 < 2 ^ 63) : (ofItems values).getIndex (i + 1) = values[i]?.getD .nil := by
  refine (getIndex_foldl_setIndex values 0 _ (by omega) small').trans ?_
  by_cases inside : i < values.length
  · rw [if_pos (by omega), show i + 1 - 0 - 1 = i by omega]
  · rw [if_neg (by omega), List.getElem?_eq_none (Nat.not_lt.mp inside), getIndex, get_withRoom]
    rfl

/-- A table has room for the items that it has. -/
theorem count_le_of_live {t : Table} {n : Nat} (small : n < 2 ^ 63)
    (live : ∀ i < n, (t.getIndex (i + 1)).isNil = false) : n ≤ t.arraySize + t.keys.size := by
  have distinct : ((List.range (n - t.arraySize)).map fun i =>
      Key.integer (Int64.ofNat (t.arraySize + i + 1))).Nodup := by
    refine List.pairwise_map.mpr (List.nodup_range.imp_of_mem ?_)
    intro i j member member' different same
    rw [List.mem_range] at member member'
    have equal := Key.index_inj (by omega) (by omega) same
    omega
  have outside : ((List.range (n - t.arraySize)).map fun i =>
      Key.integer (Int64.ofNat (t.arraySize + i + 1))) ⊆ t.keys.toList := by
    intro k member
    obtain ⟨i, below, rfl⟩ := List.mem_map.mp member
    rw [List.mem_range] at below
    refine (placed_of_get (live (t.arraySize + i) (by omega))).resolve_right fun inside => ?_
    obtain ⟨j, found, bounded⟩ := Option.any_eq_true _ _ |>.mp inside
    simp only [arrayIndex?, Int64.toInt_ofNat_of_lt (show t.arraySize + i + 1 < 2 ^ 63 by omega),
      Option.ite_none_right_eq_some, Option.some.injEq] at found
    simp only [decide_eq_true_eq] at bounded
    omega
  have counted := distinct.length_le_of_subset outside
  simp only [List.length_map, List.length_range, Array.length_toList] at counted
  omega

end Table

namespace Conversion

theorem itemsFrom_eq {t : Table} (values : List Value) (i fuel : Nat)
    (held : ∀ j ≤ values.length, t.getIndex (i + j) = values[j]?.getD .nil)
    (live : ∀ v ∈ values, v.isNil = false) (enough : values.length < fuel) :
    itemsFrom t i fuel = values := by
  induction values generalizing i fuel with
  | nil =>
      obtain ⟨fuel, rfl⟩ := Nat.exists_eq_add_of_lt enough
      have none : t.getIndex i = .nil := held 0 (Nat.le_refl _)
      simp [itemsFrom, Table.hasIndex, none, Value.isNil]
  | cons v rest ih =>
      obtain ⟨fuel, rfl⟩ := Nat.exists_eq_add_of_le' (Nat.one_le_of_lt enough)
      have first : t.getIndex i = v := held 0 (Nat.zero_le _)
      have present : t.hasIndex i = true := by
        rw [Table.hasIndex, first, live v List.mem_cons_self]
        rfl
      rw [itemsFrom, if_pos present, first, ih (i + 1) fuel]
      · intro j below
        rw [show i + 1 + j = i + (j + 1) by omega,
          held (j + 1) (by rw [List.length_cons]; omega), List.getElem?_cons_succ]
      · exact fun v member => live v (List.mem_cons_of_mem _ member)
      · rw [List.length_cons] at enough
        omega

theorem items_eq {t : Table} {values : List Value} (small : values.length < 2 ^ 63)
    (held : ∀ i ≤ values.length, t.getIndex (i + 1) = values[i]?.getD .nil)
    (live : ∀ v ∈ values, v.isNil = false) : items t = values := by
  refine itemsFrom_eq values 1 _ (fun j below => by rw [Nat.add_comm, held j below]) live ?_
  refine Nat.lt_succ_of_le (Table.count_le_of_live small fun i below => ?_)
  rw [held i (Nat.le_of_lt below), List.getElem?_eq_getElem below]
  exact live _ (List.getElem_mem below)

end Conversion

namespace Table

/-! ## Entries -/

theorem get_ofEntries_of_mem {fields : List (String × Value)} {name : String} {v : Value}
    (distinct : (fields.map Prod.fst).Nodup) (member : (name, v) ∈ fields) :
    (ofEntries fields).get (.ofText name) = v := by
  have kept : ∀ t : Table,
      (fields.foldl (fun t entry => t.setText entry.1 entry.2) t).get (.ofText name) = v := by
    induction fields with
    | nil => cases member
    | cons entry rest ih =>
        intro t
        obtain ⟨absent, distinct⟩ := List.nodup_cons.mp distinct
        rcases List.mem_cons.mp member with rfl | later
        · refine (get_foldl_setText rest (fun other later => Key.ofText_ne ?_) _).trans ?_
          · intro same
            exact absent (List.mem_map.mpr ⟨other, later, same⟩)
          · rw [get_setText, if_pos rfl]
        · exact ih distinct later _
  exact kept _

theorem mem_liveOrder_of_live {t : Table} {k : Key} (live : (t.get k).isNil = false) :
    k ∈ t.liveOrder := by
  rcases placed_of_get live with listed | indexed
  · exact List.mem_append_right _ (List.mem_filter.mpr ⟨listed, by simp [live]⟩)
  · obtain ⟨i, found, bounded⟩ := Option.any_eq_true _ _ |>.mp indexed
    obtain ⟨same, positive, _⟩ := eq_integer_of_arrayIndex? found
    have small : i ≤ t.arraySize := by simpa using bounded
    refine List.mem_append_left _ (List.mem_map.mpr ⟨i, ?_, same.symm⟩)
    refine List.mem_filter.mpr ⟨List.mem_map.mpr ⟨i - 1, List.mem_range.mpr ?_, ?_⟩, ?_⟩
    · omega
    · omega
    · rw [getIndex, ← same, live]
      rfl

section

variable {t : Table} (none : ∀ i, t.getIndex i = .nil)

include none

theorem hasIndex_eq_false (i : Nat) : t.hasIndex i = false := by
  rw [hasIndex, none]
  rfl

theorem length_eq_zero : t.length = 0 := by
  have bisected : ∀ fuel high, t.bisect 0 high fuel = 0 := by
    intro fuel
    induction fuel with
    | zero => exact fun _ => rfl
    | succ fuel ih =>
        intro high
        rw [bisect]
        split
        · rfl
        · simp only [hasIndex_eq_false none, Bool.false_eq_true, if_false]
          exact ih _
  by_cases empty : t.arraySize = 0 <;>
    simp [length, hasIndex_eq_false none, bisected, empty, Nat.pos_iff_ne_zero]

theorem mem_liveOrder {k : Key} : k ∈ t.liveOrder ↔ (t.get k).isNil = false := by
  have indices : t.liveIndices = [] :=
    List.filter_eq_nil_iff.mpr fun i _ => by rw [none i]; simp [Value.isNil]
  rw [liveOrder, indices, List.map_nil, List.nil_append, liveKeys, List.mem_filter]
  constructor
  · intro listed
    simpa using listed.2
  · intro live
    refine ⟨(placed_of_get live).resolve_right fun inside => ?_, by simp [live]⟩
    obtain ⟨i, found, _⟩ := Option.any_eq_true _ _ |>.mp inside
    have nil := none i
    rw [getIndex, ← (eq_integer_of_arrayIndex? found).1] at nil
    rw [nil] at live
    cases live

end

end Table

end ScriptHost.Lua
