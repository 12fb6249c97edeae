import ScriptHost.Lua.Machine
import ScriptHost.Proofs.Collection

/-!
# Heaps that keep what they hold

What stays the same on a heap while tables are added, fields are assigned and garbage is
collected. Fields that may change are named; a weak table may lose objects to a collection, but
never a text.
-/

set_option autoImplicit false

namespace ScriptHost.Lua

/-- A value that no collection takes away, in weak tables neither. -/
def Value.Inert (v : Value) : Prop := ∀ marks, Collect.isReached marks v = true

@[simp] theorem Value.inert_nil : Value.nil.Inert := fun _ => rfl

@[simp] theorem Value.inert_string (s : ByteArray) : (Value.string s).Inert := fun _ => rfl

namespace Heap

theorem metatable?_fits (h : Heap) (bytes : Nat) (id : TableId) :
    ((Machine.fits h bytes).2.table id).metatable? = (h.table id).metatable? := by
  unfold Machine.fits
  split
  · rfl
  · split
    · rfl
    · exact metatable?_collect ..

/-- An entry stays or, if its table is weak, may be gone. -/
theorem rawGet_fits_or_nil (h : Heap) (bytes : Nat) (id : TableId) (k : Key) :
    (Machine.fits h bytes).2.rawGet id k = h.rawGet id k ∨
      (Machine.fits h bytes).2.rawGet id k = .nil := by
  unfold Machine.fits
  split
  · exact .inl rfl
  · split
    · exact .inl rfl
    · exact rawGet_collect_or_nil true h id k

theorem metamethod_fits {h : Heap} {id : TableId} {event : String} (bytes : Nat)
    (absent : h.metamethod (.table id) event = .nil) :
    (Machine.fits h bytes).2.metamethod (.table id) event = .nil := by
  simp only [metamethod, Heap.metatable?, metatable?_fits] at absent ⊢
  cases linked : (h.table id).metatable? with
  | none => rfl
  | some m =>
      rw [linked] at absent
      rcases rawGet_fits_or_nil h bytes m (.ofText event) with same | nil
      · exact same.trans absent
      · exact nil

theorem limit?_fits (h : Heap) (bytes : Nat) : (Machine.fits h bytes).2.limit? = h.limit? := by
  unfold Machine.fits
  split
  · rfl
  · split <;> rfl

theorem limit?_ne_none_of_fits {h after : Heap} {bytes : Nat}
    (full : Machine.fits h bytes = (false, after)) : h.limit? ≠ none := by
  intro unlimited
  simp [Machine.fits, unlimited] at full

/-- A field with a table in it stays while room is made, if the host holds on to that table. -/
theorem rawGetText_fitsHolding {h : Heap} {id holder : TableId} {name : String} (bytes : Nat)
    (field : h.rawGetText holder name = .table id) :
    (Machine.fitsHolding id h bytes).2.rawGetText holder name = .table id := by
  simp only [Machine.fitsHolding, Machine.fits]
  split
  · exact field
  · split
    · exact field
    · exact rawGetText_collect_of_held (h := { h with held := id :: h.held }) true rfl field

/-- Whether a heap stays below its limit with so many more bytes, at the latest after a collection
that spares the table `id`. -/
def HasRoom (h : Heap) (id : TableId) (bytes : Nat) : Prop :=
  ∀ limit, h.limit? = some limit →
    (collect true { h with held := id :: h.held }).used + bytes ≤ limit

theorem hasRoom_of_unlimited {h : Heap} (unlimited : h.limit? = none) (id : TableId)
    (bytes : Nat) : h.HasRoom id bytes := by
  intro limit known
  rw [unlimited] at known
  cases known

theorem fst_fitsHolding_iff (h : Heap) (id : TableId) (bytes : Nat) :
    (Machine.fitsHolding id h bytes).1 = true ↔ h.HasRoom id bytes := by
  simp only [Machine.fitsHolding, Machine.fits, HasRoom]
  cases h.limit? with
  | none => simp
  | some limit =>
      have smaller (g : Heap) : (collect true g).used ≤ g.used := Nat.min_le_left ..
      dsimp only
      split
      · rename_i below
        simp only [Option.some.injEq, forall_eq', true_iff]
        exact Nat.le_trans (Nat.add_le_add_right (smaller _) bytes) below
      · simp

/-- Every field of a table of `h` is the same in `after` unless it is one of those that may have
been `changed`; the fields of weak tables are accounted for as far as there is no object in them.
The metatable of the globals is left open. -/
structure Keeps (changed : TableId → Key → Prop) (h after : Heap) : Prop where
  globals : after.globals = h.globals
  arrayMetatable : after.arrayMetatable = h.arrayMetatable
  grown : h.tables.size ≤ after.tables.size
  metatable? : ∀ id, id.index < h.tables.size → id ≠ h.globals →
    (after.table id).metatable? = (h.table id).metatable?
  strong : ∀ id, id.index < h.tables.size → Collect.Strong h id → Collect.Strong after id
  rawGet : ∀ id k, id.index < h.tables.size → ¬ changed id k → Collect.Strong h id →
    after.rawGet id k = h.rawGet id k
  inert : ∀ id name, id.index < h.tables.size → ¬ changed id (.ofText name) →
    (h.rawGetText id name).Inert → after.rawGetText id name = h.rawGetText id name
  resource? : ∀ id r, h.resource? id = some r → after.resource? id = some r

namespace Keeps

variable {changed more : TableId → Key → Prop} {h middle after : Heap}

theorem refl (changed : TableId → Key → Prop) (h : Heap) : Keeps changed h h :=
  ⟨rfl, rfl, Nat.le_refl _, fun _ _ _ => rfl, fun _ _ strong => strong, fun _ _ _ _ _ => rfl,
    fun _ _ _ _ _ => rfl, fun _ _ found => found⟩

theorem trans (first : Keeps changed h middle) (second : Keeps more middle after)
    (covered : ∀ id k, id.index < h.tables.size → more id k → changed id k) :
    Keeps changed h after where
  globals := second.globals.trans first.globals
  arrayMetatable := second.arrayMetatable.trans first.arrayMetatable
  grown := Nat.le_trans first.grown second.grown
  metatable? id present other := by
    rw [second.metatable? id (Nat.lt_of_lt_of_le present first.grown)
      (by rw [first.globals]; exact other), first.metatable? id present other]
  strong id present strong :=
    second.strong id (Nat.lt_of_lt_of_le present first.grown) (first.strong id present strong)
  rawGet id k present same strong := by
    rw [second.rawGet id k (Nat.lt_of_lt_of_le present first.grown)
      (fun later => same (covered id k present later)) (first.strong id present strong),
      first.rawGet id k present same strong]
  inert id name present same inert := by
    have kept := first.inert id name present same inert
    rw [second.inert id name (Nat.lt_of_lt_of_le present first.grown)
      (fun later => same (covered id _ present later)) (by rw [kept]; exact inert), kept]
  resource? id r found := second.resource? id r (first.resource? id r found)

theorem mono (keeps : Keeps changed h after) (wider : ∀ id k, changed id k → more id k) :
    Keeps more h after :=
  { keeps with
    rawGet := fun id k present same => keeps.rawGet id k present fun old => same (wider id k old)
    inert := fun id name present same =>
      keeps.inert id name present fun old => same (wider id _ old) }

/-- The composition where both parts may change the same fields. -/
theorem andThen (first : Keeps changed h middle) (second : Keeps changed middle after) :
    Keeps changed h after :=
  first.trans second fun _ _ _ later => later

theorem ofTables (tables : after.tables = h.tables) (globals : after.globals = h.globals)
    (arrays : after.arrayMetatable = h.arrayMetatable)
    (resources : ∀ id r, h.resource? id = some r → after.resource? id = some r) :
    Keeps changed h after := by
  have same : ∀ id, after.table id = h.table id := by simp [Heap.table, tables]
  refine ⟨globals, arrays, Nat.le_of_eq (congrArg Array.size tables.symm),
    fun id _ _ => by rw [same], ?_, ?_, ?_, resources⟩
  · intro id _ strong
    simpa [Collect.Strong, Heap.rawGetText, Heap.rawGet, same, tables] using strong
  · intro id k _ _ _
    rw [Heap.rawGet, same, Heap.rawGet]
  · intro id name _ _ _
    rw [Heap.rawGetText, Heap.rawGet, same, Heap.rawGetText, Heap.rawGet]

theorem newTable (changed : TableId → Key → Prop) (h : Heap) (t : Table) :
    Keeps changed h (h.newTable t).2 := by
  have same : ∀ id : TableId, id.index < h.tables.size → (h.newTable t).2.table id = h.table id :=
    fun id present => table_newTable_of_lt present t
  refine ⟨rfl, rfl, by simp, fun id present _ => by rw [same id present], ?_, ?_, ?_,
    fun _ _ found => found⟩
  · intro id present strong m linked
    rw [same id present] at linked
    obtain ⟨below, mode⟩ := strong m linked
    refine ⟨by simp only [size_tables_newTable]; omega, ?_⟩
    rw [Heap.rawGetText, Heap.rawGet, same m below]
    exact mode
  · intro id k present _ _
    rw [Heap.rawGet, same id present, Heap.rawGet]
  · intro id name present _ _
    rw [Heap.rawGetText, Heap.rawGet, same id present, Heap.rawGetText, Heap.rawGet]

theorem newUserdata (changed : TableId → Key → Prop) (h : Heap) (r : Resource) :
    Keeps changed h (h.newUserdata r).2 := by
  refine ofTables rfl rfl rfl ?_
  intro id found present
  have below := (Array.getElem?_eq_some_iff.mp present).1
  rw [Heap.resource?, Heap.newUserdata, Array.getElem?_push, if_neg (Nat.ne_of_lt below)]
  exact present

theorem rawSetText {id : TableId} {name : String} (named : changed id (.ofText name))
    (ordinary : name ≠ "__mode") (h : Heap) (v : Value) :
    Keeps changed h (h.rawSetText id name v) := by
  have other : ∀ t k, ¬ changed t k → (h.rawSetText id name v).rawGet t k = h.rawGet t k := by
    intro t k same
    by_cases here : t = id
    · subst here
      have different : Key.ofText name ≠ k := by
        rintro rfl
        exact same named
      exact rawGet_rawSet_of_key_ne different ..
    · exact rawGet_rawSet_of_ne here ..
  refine ⟨rfl, rfl, Nat.le_of_eq (size_tables_rawSet ..).symm,
    fun t _ _ => metatable?_rawSet .., ?_, fun t k _ same _ => other t k same,
    fun t field _ same _ => other t _ same, fun _ _ found => found⟩
  intro t _ strong m linked
  obtain ⟨below, mode⟩ := strong m (by rwa [Heap.rawSetText, metatable?_rawSet] at linked)
  refine ⟨by rwa [Heap.rawSetText, size_tables_rawSet], ?_⟩
  rw [rawGetText_rawSetText_of_ne ordinary, mode]

theorem collect (changed : TableId → Key → Prop) (running : Bool) (h : Heap) :
    Keeps changed h (h.collect running) := by
  refine ⟨rfl, rfl, by simp, fun id _ _ => metatable?_collect .., ?_, ?_, ?_,
    fun _ _ found => found⟩
  · intro id _ strong m linked
    obtain ⟨below, mode⟩ := strong m (by rwa [metatable?_collect] at linked)
    refine ⟨by rwa [size_tables_collect], ?_⟩
    rw [rawGetText_collect running fun _ => by rw [mode]; rfl, mode]
  · intro id k _ _ strong
    rw [Heap.rawGet, table_collect_of_strong running strong, Heap.rawGet]
  · intro id name _ _ inert
    exact rawGetText_collect running inert

theorem setGlobalsMetatable {m : TableId} (present : m.index < h.tables.size)
    (mode : h.rawGetText m "__mode" = .nil) (changed : TableId → Key → Prop) :
    Keeps changed h (h.modifyTable h.globals fun t => { t with metatable? := some m }) := by
  have fields := rawGet_setMetatable h h.globals (some m)
  refine ⟨rfl, rfl, by simp, fun id _ other => by rw [table_modifyTable_of_ne other], ?_,
    fun id k _ _ _ => fields id k, fun id name _ _ _ => fields id _, fun _ _ found => found⟩
  intro id below strong n linked
  by_cases here : id = h.globals
  · subst here
    rw [table_modifyTable_self below] at linked
    obtain rfl : m = n := Option.some.inj linked
    exact ⟨by simpa using present, (fields m _).trans mode⟩
  · rw [table_modifyTable_of_ne here] at linked
    obtain ⟨positioned, nil⟩ := strong n linked
    exact ⟨by simpa using positioned, (fields n _).trans nil⟩

/-- A field of a table that no collection changes, or with no object in it, stays. -/
theorem rawGetText (keeps : Keeps changed h after) {id : TableId} {name : String}
    (present : id.index < h.tables.size) (same : ¬ changed id (.ofText name))
    (strong : Collect.Strong h id) : after.rawGetText id name = h.rawGetText id name :=
  keeps.rawGet id _ present same strong

end Keeps

/-- The globals have the metatable that they had, too. -/
structure Steady (changed : TableId → Key → Prop) (h after : Heap) : Prop extends
    Keeps changed h after where
  globalsMetatable? : after.globalsMetatable? = h.globalsMetatable?
  link : h.globals.index < h.tables.size →
    (after.table h.globals).metatable? = (h.table h.globals).metatable?

namespace Steady

variable {changed more : TableId → Key → Prop} {h middle after : Heap}

theorem refl (changed : TableId → Key → Prop) (h : Heap) : Steady changed h h :=
  ⟨Keeps.refl changed h, rfl, fun _ => rfl⟩

theorem trans (first : Steady changed h middle) (second : Steady more middle after)
    (covered : ∀ id k, id.index < h.tables.size → more id k → changed id k) :
    Steady changed h after where
  toKeeps := first.toKeeps.trans second.toKeeps covered
  globalsMetatable? := second.globalsMetatable?.trans first.globalsMetatable?
  link present := by
    have later := second.link
      (by rw [first.globals]; exact Nat.lt_of_lt_of_le present first.grown)
    rw [first.globals] at later
    rw [later, first.link present]

theorem mono (steady : Steady changed h after) (wider : ∀ id k, changed id k → more id k) :
    Steady more h after :=
  ⟨steady.toKeeps.mono wider, steady.globalsMetatable?, steady.link⟩

theorem andThen (first : Steady changed h middle) (second : Steady changed middle after) :
    Steady changed h after :=
  first.trans second fun _ _ _ later => later

theorem newTable (changed : TableId → Key → Prop) (h : Heap) (t : Table) :
    Steady changed h (h.newTable t).2 :=
  ⟨Keeps.newTable changed h t, rfl, fun present => by rw [table_newTable_of_lt present]⟩

theorem newUserdata (changed : TableId → Key → Prop) (h : Heap) (r : Resource) :
    Steady changed h (h.newUserdata r).2 :=
  ⟨Keeps.newUserdata changed h r, rfl, fun _ => rfl⟩

theorem rawSetText {id : TableId} {name : String} (named : changed id (.ofText name))
    (ordinary : name ≠ "__mode") (h : Heap) (v : Value) :
    Steady changed h (h.rawSetText id name v) :=
  ⟨Keeps.rawSetText named ordinary h v, rfl, fun _ => metatable?_rawSet ..⟩

theorem collect (changed : TableId → Key → Prop) (running : Bool) (h : Heap) :
    Steady changed h (h.collect running) :=
  ⟨Keeps.collect changed running h, rfl, fun _ => metatable?_collect ..⟩

theorem fits (changed : TableId → Key → Prop) (h : Heap) (bytes : Nat) :
    Steady changed h (Machine.fits h bytes).2 := by
  unfold Machine.fits
  split
  · exact refl changed h
  · split
    · exact refl changed h
    · exact collect changed true h

theorem of_fits {h after : Heap} {bytes : Nat} {enough : Bool} (changed : TableId → Key → Prop)
    (room : Machine.fits h bytes = (enough, after)) : Steady changed h after := by
  have steady := fits changed h bytes
  rwa [room] at steady

/-- What the host holds on to does not show in any table. -/
theorem hold (changed : TableId → Key → Prop) (h : Heap) (held : List TableId) :
    Steady changed h { h with held } :=
  ⟨Keeps.ofTables rfl rfl rfl fun _ _ found => found, rfl, fun _ => rfl⟩

theorem fitsHolding (changed : TableId → Key → Prop) (id : TableId) (h : Heap) (bytes : Nat) :
    Steady changed h (Machine.fitsHolding id h bytes).2 :=
  ((hold changed h _).andThen (fits changed _ bytes)).andThen (hold changed _ _)

theorem of_fitsHolding {h after : Heap} {id : TableId} {bytes : Nat} {enough : Bool}
    (changed : TableId → Key → Prop) (room : Machine.fitsHolding id h bytes = (enough, after)) :
    Steady changed h after := by
  have steady := fitsHolding changed id h bytes
  rwa [room] at steady

end Steady

end Heap

end ScriptHost.Lua
