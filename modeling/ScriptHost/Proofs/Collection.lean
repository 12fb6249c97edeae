import ScriptHost.Lua.Collect
import ScriptHost.Proofs.HeapAccess

/-!
# What a collection leaves alone

A collection changes weak tables only, and of those only entries with an object in them.
-/

set_option autoImplicit false

namespace ScriptHost.Lua

namespace Collect

/-- A table from which a collection takes nothing away: its metatable, if it has one, does not
ask for weak entries. -/
def Strong (h : Heap) (id : TableId) : Prop :=
  ∀ m, (h.table id).metatable? = some m →
    m.index < h.tables.size ∧ h.rawGetText m "__mode" = .nil

theorem strong_of_metatable?_eq_none {h : Heap} {id : TableId}
    (plain : (h.table id).metatable? = none) : Strong h id := by
  simp [Strong, plain]

theorem sweepTable_of_strong {h : Heap} {id : TableId} (strong : Strong h id) (marks : Marks) :
    sweepTable h marks (h.table id) = h.table id := by
  have neither : weakness h (h.table id) = (false, false) := by
    cases linked : (h.table id).metatable? with
    | none => simp [weakness, linked]
    | some m => simp [weakness, linked, (strong m linked).2]
  simp [sweepTable, neither]

/-- Taking entries away one after another changes the entries taken away only. -/
theorem get_foldl_removal {marks : Marks} {k : Key} (weakKeys weakValues : Bool)
    (key : isReached marks k.value = true) (order : List Key) (t : Table)
    (value : isReached marks (t.get k) = true) :
    (order.foldl (fun t k =>
      if (weakKeys && !isReached marks k.value) || (weakValues && !isReached marks (t.get k)) then
        t.set k .nil
      else t) t).get k = t.get k := by
  induction order generalizing t with
  | nil => rfl
  | cons other rest ih =>
      rw [List.foldl_cons]
      split
      · rename_i removed
        have different : other ≠ k := by
          rintro rfl
          simp [key, value] at removed
        have kept := Table.get_set_of_ne t .nil different
        rw [ih _ (by rw [kept]; exact value), kept]
      · exact ih t value

/-- An entry is taken away or stays. -/
theorem get_foldl_removal_or_nil (removed : Table → Key → Bool) (k : Key) (order : List Key)
    (t : Table) :
    (order.foldl (fun t k => if removed t k then t.set k .nil else t) t).get k = t.get k ∨
      (order.foldl (fun t k => if removed t k then t.set k .nil else t) t).get k = .nil := by
  induction order generalizing t with
  | nil => exact .inl rfl
  | cons other rest ih =>
      rw [List.foldl_cons]
      split
      · rcases ih (t.set other .nil) with same | nil
        · rw [same, Table.get_set]
          split
          · exact .inr rfl
          · exact .inl rfl
        · exact .inr nil
      · exact ih t

theorem metatable?_foldl_removal (removed : Table → Key → Bool) (order : List Key) (t : Table) :
    (order.foldl (fun t k => if removed t k then t.set k .nil else t) t).metatable? =
      t.metatable? := by
  induction order generalizing t with
  | nil => rfl
  | cons k rest ih =>
      rw [List.foldl_cons, ih]
      split <;> simp

theorem get_sweepTable {h : Heap} {marks : Marks} {t : Table} {k : Key}
    (key : isReached marks k.value = true) (value : isReached marks (t.get k) = true) :
    (sweepTable h marks t).get k = t.get k := by
  unfold sweepTable
  split
  split
  · exact get_foldl_removal _ _ key _ t value
  · rfl

theorem get_sweepTable_or_nil (h : Heap) (marks : Marks) (t : Table) (k : Key) :
    (sweepTable h marks t).get k = t.get k ∨ (sweepTable h marks t).get k = .nil := by
  unfold sweepTable
  split
  split
  · exact get_foldl_removal_or_nil _ k _ t
  · exact .inl rfl

theorem metatable?_sweepTable (h : Heap) (marks : Marks) (t : Table) :
    (sweepTable h marks t).metatable? = t.metatable? := by
  unfold sweepTable
  split
  split
  · exact metatable?_foldl_removal _ _ t
  · rfl

theorem isMarked_setIfInBounds {marks : Array Bool} {i : Nat} (marked : isMarked marks i = true)
    (j : Nat) : isMarked (marks.setIfInBounds j true) i = true := by
  rw [isMarked, Array.getElem?_setIfInBounds]
  split
  · split <;> rfl
  · exact marked

/-- What has been marked stays so while the marking goes on. -/
theorem isMarked_visit {marks : Marks} {i : Nat} (marked : isMarked marks.tables i = true)
    (h : Heap) (item : Item) : isMarked (visit h marks item).1.tables i = true := by
  unfold visit
  split
  · split <;> exact marked
  · split
    · exact marked
    · exact isMarked_setIfInBounds marked _
  · split <;> exact marked
  · exact marked
  · exact marked

theorem isMarked_markAll {marks : Marks} {i : Nat} (marked : isMarked marks.tables i = true)
    (h : Heap) (items : List Item) (fuel : Nat) :
    isMarked (markAll h marks items fuel).tables i = true := by
  induction fuel generalizing marks items with
  | zero => cases items <;> exact marked
  | succ fuel ih =>
      cases items with
      | nil => exact marked
      | cons item items => exact ih (isMarked_visit marked h item) _

theorem isMarked_settle {marks : Marks} {i : Nat} (marked : isMarked marks.tables i = true)
    (h : Heap) (fuel : Nat) : isMarked (settle h marks fuel).tables i = true := by
  induction fuel generalizing marks with
  | zero => exact marked
  | succ fuel ih =>
      rw [settle]
      split
      · exact marked
      · exact ih (isMarked_markAll marked h _ _)

theorem isMarked_visit_table (h : Heap) (marks : Marks) (id : TableId) :
    isMarked (visit h marks (.value (.table id))).1.tables id.index = true := by
  rw [visit]
  split
  · assumption
  · rw [isMarked, Array.getElem?_setIfInBounds]
    split
    · split <;> rfl
    · contradiction

/-- The table that the host took hold of last is among what has been reached. -/
theorem isReached_reach {h : Heap} {id : TableId} {others : List TableId}
    (held : h.held = id :: others) (running : Bool) :
    isReached (reach h running) (.table id) = true := by
  obtain ⟨rest, first⟩ : ∃ rest, roots h = .value (.table id) :: rest := by
    rw [roots, held]
    exact ⟨_, rfl⟩
  have marked (marks : Marks) (items : List Item) :
      isMarked (markAll h marks (roots h ++ items) (itemCount h)).tables id.index = true := by
    rw [first, show itemCount h = (itemCount h - 1) + 1 by unfold itemCount; omega]
    exact isMarked_markAll (isMarked_visit_table h marks id) h _ _
  unfold reach
  exact isMarked_settle (marked _ _) h _

end Collect

namespace Heap

variable {h : Heap} {id : TableId} (running : Bool)

theorem table_collect (h : Heap) (id : TableId) :
    (h.collect running).table id =
        Collect.sweepTable h (Collect.reach h running) (h.table id) ∨
      (h.collect running).table id = h.table id := by
  by_cases present : id.index < h.tables.size
  · simp only [collect, table, Array.getElem?_mapIdx, Array.getElem?_eq_getElem present,
      Option.map_some, Option.getD_some]
    split
    · exact .inl rfl
    · exact .inr rfl
  · have missing := Nat.not_lt.mp present
    refine .inr ?_
    rw [table_of_le (h := h) missing, table_of_le (by simpa [collect] using missing)]

theorem rawGet_collect_or_nil (h : Heap) (id : TableId) (k : Key) :
    (h.collect running).rawGet id k = h.rawGet id k ∨ (h.collect running).rawGet id k = .nil := by
  rcases table_collect running h id with swept | same
  · rw [rawGet, swept]
    exact Collect.get_sweepTable_or_nil h _ _ k
  · exact .inl (by rw [rawGet, same, rawGet])

theorem table_collect_of_strong (strong : Collect.Strong h id) :
    (h.collect running).table id = h.table id := by
  rcases table_collect running h id with swept | same
  · rw [swept, Collect.sweepTable_of_strong strong]
  · exact same

@[simp] theorem metatable?_collect (h : Heap) (id : TableId) :
    ((h.collect running).table id).metatable? = (h.table id).metatable? := by
  rcases table_collect running h id with swept | same
  · rw [swept, Collect.metatable?_sweepTable]
  · rw [same]

/-- A field without an object in it keeps its value. -/
theorem rawGetText_collect {name : String}
    (reached : ∀ marks, Collect.isReached marks (h.rawGetText id name) = true) :
    (h.collect running).rawGetText id name = h.rawGetText id name := by
  rcases table_collect running h id with swept | same
  · rw [rawGetText, rawGet, swept]
    exact Collect.get_sweepTable rfl (reached _)
  · rw [rawGetText, rawGet, same]
    rfl

/-- A field stays that has the table in it which the host took hold of last. -/
theorem rawGetText_collect_of_held {holder : TableId} {others : List TableId} {name : String}
    (held : h.held = id :: others) (field : h.rawGetText holder name = .table id) :
    (h.collect running).rawGetText holder name = .table id := by
  rcases table_collect running h holder with swept | same
  · have reached := Collect.isReached_reach held running
    rw [← field] at reached
    rw [rawGetText, rawGet, swept, Collect.get_sweepTable rfl reached]
    exact field
  · rw [rawGetText, rawGet, same]
    exact field

@[simp] theorem size_tables_collect (h : Heap) :
    (h.collect running).tables.size = h.tables.size := by
  simp [collect]

end Heap

end ScriptHost.Lua
