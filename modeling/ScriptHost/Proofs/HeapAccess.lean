import ScriptHost.Lua.Heap

/-!
# Tables as maps, and tables of a heap

How a table is laid out does not show when it is read: a key has the value that it was last given.
What a heap operation does to the table it works on, and that it leaves all other tables alone.
-/

set_option autoImplicit false

namespace ScriptHost.Lua

theorem Key.eq_of_ofText {a b : String} (same : Key.ofText a = Key.ofText b) : a = b :=
  String.toByteArray_inj.mp (by simpa using Key.string.inj same)

theorem Key.ofText_ne {a b : String} (different : a ≠ b) : Key.ofText a ≠ Key.ofText b :=
  fun same => different (Key.eq_of_ofText same)

theorem Value.key?_ofText (name : String) : (Value.ofText name).key? = some (.ofText name) := rfl

theorem Value.eq_string_of_key? {key : Value} {s : ByteArray}
    (found : key.key? = some (.string s)) : key = .string s := by
  cases key with
  | float x =>
      simp only [Value.key?] at found
      split at found
      · cases found
      · split at found <;> cases found
  | nil => cases found
  | string t =>
      obtain rfl := Key.string.inj (Option.some.inj found)
      rfl
  | _ => cases found

theorem Value.eq_nil_of_isNil {v : Value} (absent : v.isNil = true) : v = .nil := by
  cases v with
  | nil => rfl
  | _ => cases absent

namespace Table

theorem get_relayout (t : Table) (size others : Nat) (k : Key) :
    (t.relayout size others).get k = t.get k := by
  rcases relaidSlots_get? t size k with ⟨_, place, found⟩ | ⟨⟨notOutside, notInside⟩, absent⟩
  · simp only [get, relayout, found]
  · have dead : t.get k = .nil := by
      cases live : (t.get k).isNil with
      | true => exact Value.eq_nil_of_isNil live
      | false =>
          rcases mem_outsideKeys_or_insideKeys size live with outside | inside
          · exact absurd outside notOutside
          · exact absurd inside notInside
    rw [dead]
    simp only [get, relayout, absent]

theorem get_addKey (t : Table) (k other : Key) (v : Value) :
    (t.addKey k v).get other = if k = other then v else t.get other := by
  unfold addKey
  split
  · by_cases same : k = other <;> simp [get, KeyMap.get?_insert, same]
  · by_cases same : k = other <;> simp [get, KeyMap.get?_insert, same]

theorem get_set (t : Table) (k other : Key) (v : Value) :
    (t.set k v).get other = if k = other then v else t.get other := by
  unfold set
  split
  · by_cases same : k = other <;> simp [get, KeyMap.get?_insert, same]
  · rename_i absent
    have unset : t.get k = .nil := by simp [get, absent]
    split
    · rename_i removal
      split
      · rename_i same
        rw [← same, unset]
        cases v <;> simp_all [Value.isNil]
      · rfl
    · split
      · exact get_addKey ..
      · rw [get_addKey, grow, get_relayout]

@[simp] theorem get_set_self (t : Table) (k : Key) (v : Value) : (t.set k v).get k = v := by
  simp [get_set]

theorem get_set_of_ne {k other : Key} (t : Table) (v : Value) (different : k ≠ other) :
    (t.set k v).get other = t.get other := by
  simp [get_set, different]

@[simp] theorem metatable?_set (t : Table) (k : Key) (v : Value) :
    (t.set k v).metatable? = t.metatable? := by
  unfold set
  split
  · rfl
  · split
    · rfl
    · split <;> (unfold addKey; split <;> rfl)

@[simp] theorem get_empty (k : Key) : ({} : Table).get k = .nil := by
  simp [get, KeyMap.get?_empty]

theorem get_setText (t : Table) (name other : String) (v : Value) :
    (t.setText name v).get (.ofText other) = if name = other then v else t.get (.ofText other) := by
  by_cases same : name = other
  · simp [setText, same]
  · simp [setText, same, get_set_of_ne t v (Key.ofText_ne same)]

@[simp] theorem metatable?_setText (t : Table) (name : String) (v : Value) :
    (t.setText name v).metatable? = t.metatable? :=
  metatable?_set t _ v

/-- A key that no entry names has the value that it had before the entries were added. -/
theorem get_foldl_setText {k : Key} (entries : List (String × Value))
    (absent : ∀ entry ∈ entries, Key.ofText entry.1 ≠ k) (t : Table) :
    (entries.foldl (fun t entry => t.setText entry.1 entry.2) t).get k = t.get k := by
  induction entries generalizing t with
  | nil => rfl
  | cons entry rest ih =>
      rw [List.foldl_cons, ih fun later member => absent later (List.mem_cons_of_mem _ member),
        setText, get_set_of_ne _ _ (absent entry List.mem_cons_self)]

@[simp] theorem get_withRoom (items others : Nat) (k : Key) :
    (withRoom items others).get k = .nil := by
  simp [withRoom, get, KeyMap.get?_empty]

theorem get_ofEntries_of_ne {k : Key} {entries : List (String × Value)}
    (absent : ∀ entry ∈ entries, Key.ofText entry.1 ≠ k) : (ofEntries entries).get k = .nil :=
  (get_foldl_setText entries absent _).trans (get_withRoom ..)

theorem get_ofEntries_of_not_mem {name : String} {entries : List (String × Value)}
    (absent : name ∉ entries.map Prod.fst) : (ofEntries entries).get (.ofText name) = .nil := by
  refine get_ofEntries_of_ne fun entry member => Key.ofText_ne ?_
  rintro rfl
  exact absent (List.mem_map_of_mem member)

theorem metatable?_foldl_setText (entries : List (String × Value)) (t : Table) :
    (entries.foldl (fun t entry => t.setText entry.1 entry.2) t).metatable? = t.metatable? := by
  induction entries generalizing t with
  | nil => rfl
  | cons entry rest ih => rw [List.foldl_cons, ih, metatable?_setText]

@[simp] theorem metatable?_ofEntries (entries : List (String × Value)) :
    (ofEntries entries).metatable? = none :=
  metatable?_foldl_setText entries _

end Table

namespace Heap

variable {h : Heap} {id other : TableId}

theorem index_ne_of_table_ne (different : other ≠ id) : id.index ≠ other.index := by
  intro same
  cases id
  cases other
  exact different (congrArg TableId.mk same.symm)

theorem table_of_le (missing : h.tables.size ≤ id.index) : h.table id = {} := by
  simp [table, Array.getElem?_eq_none missing]

theorem table_modifyTable_self (present : id.index < h.tables.size) (f : Table → Table) :
    (h.modifyTable id f).table id = f (h.table id) := by
  simp [modifyTable, table, Array.getElem?_modify, Array.getElem?_eq_getElem present]

theorem table_modifyTable_of_ne (different : other ≠ id) (f : Table → Table) :
    (h.modifyTable id f).table other = h.table other := by
  simp [modifyTable, table, Array.getElem?_modify, index_ne_of_table_ne different]

@[simp] theorem size_tables_modifyTable (h : Heap) (id : TableId) (f : Table → Table) :
    (h.modifyTable id f).tables.size = h.tables.size := by
  simp [modifyTable]

/-- The entries of tables do not depend on metatables. -/
theorem rawGet_setMetatable (h : Heap) (id : TableId) (m? : Option TableId) (other : TableId)
    (k : Key) :
    (h.modifyTable id fun t => { t with metatable? := m? }).rawGet other k = h.rawGet other k := by
  by_cases same : other = id
  · subst same
    by_cases present : other.index < h.tables.size
    · rw [rawGet, table_modifyTable_self present]
      rfl
    · have missing := Nat.not_lt.mp present
      rw [rawGet, rawGet, table_of_le (h := h) missing, table_of_le (by simpa using missing)]
  · rw [rawGet, table_modifyTable_of_ne same, rawGet]

theorem table_newTable_of_lt (present : id.index < h.tables.size) (t : Table) :
    (h.newTable t).2.table id = h.table id := by
  simp [newTable, table, Array.getElem?_push, Nat.ne_of_lt present]

@[simp] theorem table_newTable_self (h : Heap) (t : Table) :
    (h.newTable t).2.table (h.newTable t).1 = t := by
  simp [newTable, table]

@[simp] theorem size_tables_newTable (h : Heap) (t : Table) :
    (h.newTable t).2.tables.size = h.tables.size + 1 := by
  simp [newTable]

@[simp] theorem resource?_newUserdata (h : Heap) (r : Resource) :
    (h.newUserdata r).2.resource? (h.newUserdata r).1 = some r := by
  simp [newUserdata, resource?]

theorem table_rawSet_self (present : id.index < h.tables.size) (k : Key) (v : Value) :
    (h.rawSet id k v).table id = (h.table id).set k v :=
  table_modifyTable_self present _

theorem table_rawSet_of_ne (different : other ≠ id) (k : Key) (v : Value) :
    (h.rawSet id k v).table other = h.table other :=
  table_modifyTable_of_ne different _

@[simp] theorem size_tables_rawSet (h : Heap) (id : TableId) (k : Key) (v : Value) :
    (h.rawSet id k v).tables.size = h.tables.size :=
  size_tables_modifyTable h id _

@[simp] theorem metatable?_rawSet (h : Heap) (id other : TableId) (k : Key) (v : Value) :
    ((h.rawSet id k v).table other).metatable? = (h.table other).metatable? := by
  by_cases same : other = id
  · subst same
    by_cases present : other.index < h.tables.size
    · rw [table_rawSet_self present, Table.metatable?_set]
    · have missing := Nat.not_lt.mp present
      rw [table_of_le (h := h) missing, table_of_le (by simpa using missing)]
  · rw [table_rawSet_of_ne same]

theorem rawGet_rawSet_self (present : id.index < h.tables.size) (k other : Key) (v : Value) :
    (h.rawSet id k v).rawGet id other = if k = other then v else h.rawGet id other := by
  rw [rawGet, table_rawSet_self present, Table.get_set, rawGet]

theorem rawGet_rawSet_of_ne (different : other ≠ id) (k key : Key) (v : Value) :
    (h.rawSet id k v).rawGet other key = h.rawGet other key := by
  rw [rawGet, table_rawSet_of_ne different, rawGet]

theorem rawGet_rawSet_of_key_ne {k key : Key} (different : k ≠ key) (h : Heap)
    (id other : TableId) (v : Value) : (h.rawSet id k v).rawGet other key = h.rawGet other key := by
  by_cases same : other = id
  · subst same
    by_cases present : other.index < h.tables.size
    · rw [rawGet_rawSet_self present, if_neg different]
    · have missing := Nat.not_lt.mp present
      rw [rawGet, rawGet, table_of_le (h := h) missing, table_of_le (by simpa using missing)]
  · exact rawGet_rawSet_of_ne same ..

theorem rawGetText_rawSetText_self (present : id.index < h.tables.size) (name : String)
    (v : Value) : (h.rawSetText id name v).rawGetText id name = v := by
  rw [rawGetText, rawSetText, rawGet_rawSet_self present, if_pos rfl]

theorem rawGetText_rawSetText_of_ne {name field : String} (different : name ≠ field) (h : Heap)
    (id other : TableId) (v : Value) :
    (h.rawSetText id name v).rawGetText other field = h.rawGetText other field :=
  rawGet_rawSet_of_key_ne (Key.ofText_ne different) ..

end Heap

end ScriptHost.Lua
