import ScriptHost.Lua.Library
import ScriptHost.Proofs.TableContents

/-!
# Going through tables

A table that was made of entries is gone through in their order, and every entry comes up once: the
function `next` finds the entry that follows a key by the place of the key.
-/

set_option autoImplicit false

namespace ScriptHost.Lua

namespace Table

/-- The entry after the one with a key, or the first one after nil; an error if the table does not
know the key. -/
def entryAfter (t : Table) (control : Value) : Except Unit (Option (Value × Value)) :=
  let key? : Except Unit (Option Key) :=
    match control with
    | .nil => .ok (t.keyFrom? 1)
    | v =>
      match v.key? with
      | some k => t.keyAfter k
      | none => .error ()
  key?.map fun key? => key?.map fun k => (k.value, t.get k)

/-- The table has these fields and no others, laid out one after another. -/
structure Lists (t : Table) (fields : List (String × Value)) : Prop where
  arraySize : t.arraySize = 0
  keys : t.keys.toList = fields.map fun field => Key.ofText field.1
  slots : ∀ i field, fields[i]? = some field →
    t.slots.get? (.ofText field.1) = some ⟨field.2, i⟩
  present : ∀ field ∈ fields, field.2.isNil = false

variable {t : Table} {fields seen rest : List (String × Value)} {name : String} {v : Value}

theorem le_powerFor (n : Nat) : n ≤ powerFor n := by
  unfold powerFor
  split
  · omega
  · have large : 2 * n - 1 < 2 ^ (Nat.log2 (2 * n - 1) + 1) := Nat.lt_log2_self
    rw [Nat.pow_succ] at large
    omega

namespace Lists

theorem empty (n : Nat) : (withRoom 0 n).Lists [] :=
  ⟨rfl, rfl, fun _ _ found => by simp at found, fun _ member => by cases member⟩

theorem size (lists : t.Lists fields) : t.keys.size = fields.length := by
  rw [← Array.length_toList, lists.keys, List.length_map]

theorem slot_of_not_mem (lists : t.Lists fields) (absent : name ∉ fields.map Prod.fst) :
    t.slots.get? (.ofText name) = none := by
  cases found : t.slots.get? (.ofText name) with
  | none => rfl
  | some slot =>
      rcases t.placed (.ofText name) (by rw [found]; rfl) with listed | indexed
      · rw [lists.keys] at listed
        obtain ⟨field, member, same⟩ := List.mem_map.mp listed
        obtain rfl := Key.eq_of_ofText same
        exact absurd (List.mem_map_of_mem member) absent
      · cases indexed

/-- A field under a new name takes the next place, if there is room for it. -/
theorem setText (lists : t.Lists fields) (absent : name ∉ fields.map Prod.fst)
    (present : v.isNil = false) (room : fields.length < t.capacity) :
    (t.setText name v).Lists (fields ++ [(name, v)]) ∧
      (t.setText name v).capacity = t.capacity := by
  have free := lists.slot_of_not_mem absent
  have outside : t.inArray (.ofText name) = false := rfl
  have added : t.setText name v = t.addKey (.ofText name) v := by
    unfold Table.setText Table.set
    split
    · rename_i found
      rw [free] at found
      cases found
    · rw [if_neg (by simp [present]), if_pos (by simp [lists.size, room])]
  rw [added, addKey, dif_neg (by simp [outside])]
  refine ⟨⟨lists.arraySize, ?_, fun i field found => ?_, fun field member => ?_⟩, rfl⟩
  · simp [lists.keys]
  · dsimp only
    rw [KeyMap.get?_insert]
    rcases Nat.lt_trichotomy i fields.length with old | new | beyond
    · rw [List.getElem?_append_left old] at found
      have other : name ≠ field.1 := by
        rintro rfl
        exact absent (List.mem_map_of_mem (List.mem_of_getElem? found))
      rw [if_neg (Key.ofText_ne other), lists.slots i field found]
    · subst new
      rw [List.getElem?_concat_length] at found
      obtain rfl := Option.some.inj found
      rw [if_pos rfl, lists.size]
    · rw [List.getElem?_eq_none (by simp; omega)] at found
      cases found
  · rcases List.mem_append.mp member with old | new
    · exact lists.present field old
    · obtain rfl := List.mem_singleton.mp new
      exact present

theorem foldl (lists : t.Lists seen) (distinct : ((seen ++ rest).map Prod.fst).Nodup)
    (present : ∀ field ∈ rest, field.2.isNil = false)
    (room : (seen ++ rest).length ≤ t.capacity) :
    (rest.foldl (fun t field => t.setText field.1 field.2) t).Lists (seen ++ rest) := by
  induction rest generalizing t seen with
  | nil => simpa using lists
  | cons field rest ih =>
      have absent : field.1 ∉ seen.map Prod.fst := by
        rw [List.map_append, List.map_cons] at distinct
        exact fun member => (List.nodup_append.mp distinct).2.2 _ member _ List.mem_cons_self rfl
      have enough : seen.length < t.capacity := by
        simp only [List.length_append, List.length_cons] at room
        omega
      obtain ⟨more, same⟩ := lists.setText absent (present field List.mem_cons_self) enough
      rw [List.foldl_cons, List.append_cons]
      refine ih more ?_ (fun other member => present other (List.mem_cons_of_mem field member)) ?_
      · rwa [← List.append_cons]
      · rwa [same, ← List.append_cons]

/-- A table that is made of entries lists them. -/
theorem ofEntries (distinct : (fields.map Prod.fst).Nodup)
    (present : ∀ field ∈ fields, field.2.isNil = false) : (ofEntries fields).Lists fields :=
  (empty fields.length).foldl distinct present (le_powerFor fields.length)

theorem get (lists : t.Lists fields) {i : Nat} {field : String × Value}
    (found : fields[i]? = some field) : t.get (.ofText field.1) = field.2 := by
  rw [Table.get, lists.slots i field found]

theorem nextKey? (lists : t.Lists fields) (i : Nat) :
    t.nextKey? i = fields[i]?.map fun field => Key.ofText field.1 := by
  have place : t.keys[i]? = fields[i]?.map fun field => Key.ofText field.1 := by
    rw [← Array.getElem?_toList, lists.keys, List.getElem?_map]
  unfold Table.nextKey?
  cases found : fields[i]? with
  | none =>
      rw [List.getElem?_eq_none_iff, ← lists.size] at found
      rw [Nat.sub_eq_zero_of_le found]
      rfl
  | some field =>
      have below : i < t.keys.size := lists.size ▸ (List.getElem?_eq_some_iff.mp found).1
      rw [found] at place
      rw [show t.keys.size - i = t.keys.size - i - 1 + 1 by omega, nextKeyWithin?, place]
      simp [lists.get found, lists.present field (List.mem_of_getElem? found)]

/-- What stands after the fields that have been seen is the first of the rest. -/
theorem entryAfter (lists : t.Lists (seen ++ rest)) :
    t.entryAfter ((seen.getLast?.map fun field => Value.ofText field.1).getD .nil) =
      .ok (rest.head?.map fun field => (Value.ofText field.1, field.2)) := by
  have next : ∀ key?, key? = t.nextKey? seen.length →
      (key?.map fun k => (k.value, t.get k)) =
        rest.head?.map fun field => (Value.ofText field.1, field.2) := by
    rintro _ rfl
    rw [lists.nextKey?, List.getElem?_append_right (Nat.le_refl _), Nat.sub_self,
      ← List.head?_eq_getElem?, Option.map_map]
    cases rest with
    | nil => rfl
    | cons field rest =>
        have found : (seen ++ field :: rest)[seen.length]? = some field := by simp
        simp only [List.head?_cons, Option.map_some, Function.comp, lists.get found]
        rfl
  rcases seen.eq_nil_or_concat with rfl | ⟨before, last, rfl⟩
  · have start : t.keyFrom? 1 = t.nextKey? 0 := by
      rw [keyFrom?, lists.arraySize]
      rfl
    exact congrArg Except.ok (next _ start)
  · rw [List.concat_eq_append] at *
    have slot : t.slots.get? (.ofText last.1) = some ⟨last.2, before.length⟩ :=
      lists.slots before.length last (by simp)
    have after : t.keyAfter (.ofText last.1) = .ok (t.nextKey? (before ++ [last]).length) := by
      rw [keyAfter, if_neg (show ¬ t.inArray (.ofText last.1) = true from Bool.false_ne_true), slot,
        List.length_append, List.length_singleton]
    rw [List.getLast?_concat]
    unfold Table.entryAfter
    rw [Option.map_some, Option.getD_some]
    simp only [Value.ofText]
    rw [show (Value.string last.1.toUTF8).key? = some (.ofText last.1) from rfl]
    simp only [after]
    exact congrArg Except.ok (next _ rfl)

end Lists

end Table

/-! ## The function of the library -/

/-- The values that `next` gives for an entry, or at the end. -/
def Library.nextValues : Option (Value × Value) → List Value
  | some (k, v) => [k, v]
  | none => [.nil]

theorem Library.next_table {function : String} (id : TableId) (control : Value)
    (then_ : List Value → Action) :
    next ⟨function, [.table id, control]⟩ then_ =
      Eval.read (fun h => (h.table id).entryAfter control) fun
        | .ok pair? => then_ (nextValues pair?)
        | .error () => Eval.raiseText "invalid key to 'next'" then_ := by
  have opened : next ⟨function, [.table id, control]⟩ then_ =
      Eval.read (fun h => (h.table id).entryAfter control) fun found =>
        (match found with
          | .ok (some (k, v)) => return [k, v]
          | .ok none => return [.nil]
          | .error () => Eval.raiseText "invalid key to 'next'" : Eval (List Value)) then_ := by
    cases control <;> rfl
  rw [opened]
  refine congrArg (Eval.read _) (funext fun found => ?_)
  rcases found with _ | _ | ⟨_, _⟩ <;> rfl

end ScriptHost.Lua
