import ScriptHost.Proofs.JsonValues

/-!
# Scopes with the values of their context

What every binding of an invocation is to read, and that a new scope has these values. A scope
whose bindings have been made absent reads null under every one of them.
-/

set_option autoImplicit false

namespace ScriptHost.Scope

open Lua Heap

/-- A value is a user datum for a resource. -/
def Refers (h : Heap) (v : Value) (r : Resource) : Prop :=
  ∃ id, v = .userdata id ∧ h.resource? id = some r

/-- What a binding is to read in an invocation. -/
def Shows (h : Heap) (own : TableId → Prop) (subject : Subject) (v : Value) : Binding → Prop :=
  let context := subject.context
  let command := context.command
  fun
  | .cachedEngine => v = .boolean subject.cached
  | .engineManager => Refers h v (.manager subject.manager?)
  | .context => Refers h v (.context subject.contextId)
  | .host => Denotes h own context.host v
  | .activeUiDocument =>
      Denotes h own ((context.documents?.map Documents.uiDocument).getD .null) v
  | .activeDocument => Denotes h own ((context.documents?.map Documents.document).getD .null) v
  | .noActiveDocument => v = .boolean !context.hasDocument
  | .commandData => Denotes h own context.commandData v
  | .selectedElements => Denotes h own (.arr context.selectedElements) v
  | .commandPath => v = pathValue command.scriptDirectory?
  | .alternateCommandPath => v = pathValue command.alternateDirectory?
  | .commandName => v = .ofText command.name
  | .commandBundle => v = .ofText command.bundle
  | .commandPackage => v = .ofText command.package
  | .commandUniqueId => v = .ofText command.uniqueId
  | .debugMode => v = .boolean context.debugMode
  | .alternateMode => v = .boolean context.alternateMode
  | .results => Refers h v (.results context.results)

/-- The fields of a scope that have the names of bindings. -/
def bindingFields (scope : TableId) (id : TableId) (k : Key) : Prop :=
  id = scope ∧ ∃ binding : Binding, k = .ofText binding.name

section

variable {h after : Heap} {own larger : TableId → Prop} {changed : TableId → Key → Prop}
  {subject : Subject} {scope : TableId} {v : Value}

theorem Refers.keep {r : Resource} (refers : Refers h v r) (keeps : Keeps changed h after) :
    Refers after v r := by
  obtain ⟨id, same, found⟩ := refers
  exact ⟨id, same, keeps.resource? id r found⟩

theorem Shows.keep {binding : Binding} (orderly : Orderly h) (keeps : Keeps changed h after)
    (untouched : Untouched own changed h) (subset : ∀ id, own id → larger id)
    (shows_ : Shows h own subject v binding) : Shows after larger subject v binding := by
  cases binding with
  | engineManager => exact Refers.keep shows_ keeps
  | context => exact Refers.keep shows_ keeps
  | results => exact Refers.keep shows_ keeps
  | host => exact Denotes.keep orderly keeps untouched subset _ _ shows_
  | activeUiDocument => exact Denotes.keep orderly keeps untouched subset _ _ shows_
  | activeDocument => exact Denotes.keep orderly keeps untouched subset _ _ shows_
  | commandData => exact Denotes.keep orderly keeps untouched subset _ _ shows_
  | selectedElements => exact Denotes.keep orderly keeps untouched subset _ _ shows_
  | _ => exact shows_

/-! ## Names -/

theorem minor_bindingFields (scope : TableId) : Minor (bindingFields scope) := by
  rintro id name reserved ⟨_, binding, same⟩
  rw [Key.eq_of_ofText same] at reserved
  revert reserved
  cases binding <;> decide

theorem not_bindingFields_path (scope id : TableId) : ¬ bindingFields scope id (.ofText "path") := by
  rintro ⟨_, binding, same⟩
  have different : "path" ≠ binding.name := by cases binding <;> decide
  exact Key.ofText_ne different same

theorem name_ne_mode (binding : Binding) : binding.name ≠ "__mode" := by
  cases binding <;> decide

theorem bindingFields_name (scope : TableId) (binding : Binding) :
    bindingFields scope scope (.ofText binding.name) :=
  ⟨rfl, binding, rfl⟩

/-! ## The value of a binding -/

theorem value_shows (orderly : Orderly h) (subject : Subject) (binding : Binding) :
    Steady (fun _ _ => False) h (value subject h binding).2 ∧
      Shows (value subject h binding).2
        (Within h.tables.size (value subject h binding).2.tables.size) subject
        (value subject h binding).1 binding := by
  cases binding with
  | host => exact ofJson_denotes orderly _
  | commandData => exact ofJson_denotes orderly _
  | selectedElements => exact ofJson_denotes orderly _
  | activeUiDocument =>
      simp only [value, Shows]
      cases subject.context.documents? with
      | none => exact ⟨Steady.refl .., rfl⟩
      | some documents => exact ofJson_denotes orderly _
  | activeDocument =>
      simp only [value, Shows]
      cases subject.context.documents? with
      | none => exact ⟨Steady.refl .., rfl⟩
      | some documents => exact ofJson_denotes orderly _
  | engineManager => exact ⟨Steady.newUserdata .., _, rfl, resource?_newUserdata ..⟩
  | context => exact ⟨Steady.newUserdata .., _, rfl, resource?_newUserdata ..⟩
  | results => exact ⟨Steady.newUserdata .., _, rfl, resource?_newUserdata ..⟩
  | _ => exact ⟨Steady.refl .., rfl⟩

/-! ## Building a scope -/

/-- A table that becomes a scope. -/
structure Blueprint (h : Heap) (scope : TableId) : Prop where
  present : scope.index < h.tables.size
  metatable? : (h.table scope).metatable? = none
  other : scope ≠ h.globals

theorem Blueprint.keep (blueprint : Blueprint h scope) (keeps : Keeps changed h after) :
    Blueprint after scope where
  present := Nat.lt_of_lt_of_le blueprint.present keeps.grown
  metatable? := by
    rw [keeps.metatable? scope blueprint.present blueprint.other, blueprint.metatable?]
  other := by rw [keeps.globals]; exact blueprint.other

theorem Blueprint.strong (blueprint : Blueprint h scope) : Collect.Strong h scope :=
  Collect.strong_of_metatable?_eq_none blueprint.metatable?

theorem Orderly.keep_bindingFields (orderly : Orderly h)
    (steady : Steady (bindingFields scope) h after) : Orderly after :=
  orderly.keep steady (minor_bindingFields scope) fun p _ assigned =>
    absurd assigned (not_bindingFields_path scope p)

/-- The tables made since for the values of the scope are no scopes themselves. -/
theorem Blueprint.untouched (blueprint : Blueprint h scope) (orderly : Orderly h)
    (globals : after.globals = h.globals) :
    Untouched (Within h.tables.size after.tables.size) (bindingFields scope) after := by
  refine untouched_within ?_ (Nat.le_refl _) ?_
  · rw [globals]
    exact orderly.globals
  · rintro id k ⟨rfl, _⟩
    exact blueprint.present

theorem bind_shows (orderly : Orderly h) (blueprint : Blueprint h scope) (subject : Subject)
    (binding : Binding) :
    Steady (bindingFields scope) h (bind subject scope h binding) ∧
      Shows (bind subject scope h binding)
        (Within h.tables.size (bind subject scope h binding).tables.size) subject
        ((bind subject scope h binding).rawGetText scope binding.name) binding ∧
      ∀ name, name ≠ binding.name →
        (bind subject scope h binding).rawGetText scope name = h.rawGetText scope name := by
  obtain ⟨steady, shown⟩ := value_shows orderly subject binding
  simp only [bind]
  generalize value subject h binding = made at steady shown
  obtain ⟨v, middle⟩ := made
  have assigned := Steady.rawSetText (bindingFields_name scope binding) (name_ne_mode binding)
    middle v
  have kept := blueprint.keep steady.toKeeps
  refine ⟨?_, ?_, ?_⟩
  · exact (steady.mono fun _ _ => False.elim).andThen assigned
  · dsimp only
    rw [rawGetText_rawSetText_self kept.present]
    exact shown.keep (orderly.keep_all steady) assigned.toKeeps
      (blueprint.untouched orderly steady.globals)
      fun id within => within.mono (Nat.le_refl _) (Nat.le_of_eq (size_tables_rawSet ..).symm)
  · intro name different
    rw [rawGetText_rawSetText_of_ne (Ne.symm different)]
    exact steady.rawGetText blueprint.present id blueprint.strong

theorem foldl_bind_shows (subject : Subject) : ∀ (bindings : List Binding), bindings.Nodup →
    ∀ {h : Heap}, Orderly h → Blueprint h scope →
    Steady (bindingFields scope) h (bindings.foldl (bind subject scope) h) ∧
      (∀ binding ∈ bindings, Shows (bindings.foldl (bind subject scope) h)
        (Within h.tables.size (bindings.foldl (bind subject scope) h).tables.size) subject
        ((bindings.foldl (bind subject scope) h).rawGetText scope binding.name) binding) ∧
      ∀ name, (∀ binding ∈ bindings, name ≠ binding.name) →
        (bindings.foldl (bind subject scope) h).rawGetText scope name = h.rawGetText scope name
  | [], _, h, _, _ => ⟨Steady.refl .., by simp, fun _ _ => rfl⟩
  | binding :: rest, distinct, h, orderly, blueprint => by
      obtain ⟨absent, distinct⟩ := List.nodup_cons.mp distinct
      obtain ⟨steady, shown, others⟩ := bind_shows orderly blueprint subject binding
      rw [List.foldl_cons]
      generalize bind subject scope h binding = middle at steady shown others ⊢
      have kept := orderly.keep_bindingFields steady
      obtain ⟨later, showns, unnamed⟩ :=
        foldl_bind_shows subject rest distinct kept (blueprint.keep steady.toKeeps)
      refine ⟨steady.andThen later, ?_, ?_⟩
      · intro other member
        rcases List.mem_cons.mp member with rfl | member
        · -- No later binding has the same name.
          have same := unnamed other.name fun b later equal =>
            absent (Binding.name_injective equal ▸ later)
          rw [same]
          exact shown.keep kept later.toKeeps (blueprint.untouched orderly steady.globals)
            fun id within => within.mono (Nat.le_refl _) later.grown
        · refine (showns other member).keep (kept.keep_bindingFields later) (Keeps.refl _ _)
            (untouched_within ?_ (Nat.le_refl _) fun _ _ => False.elim)
            fun id within => within.mono steady.grown (Nat.le_refl _)
          rw [later.globals]
          exact kept.globals
      · intro name different
        rw [unnamed name fun b later => different b (List.mem_cons_of_mem _ later),
          others name (different binding List.mem_cons_self)]

theorem build_shows (orderly : Orderly h) (subject : Subject) :
    (build subject h).1 = ⟨h.tables.size⟩ ∧
      Steady (fun _ _ => False) h (build subject h).2 ∧
      Plain (build subject h).2 (build subject h).1 ∧
      ∀ binding, Shows (build subject h).2
        (Within ((build subject h).1.index + 1) (build subject h).2.tables.size) subject
        ((build subject h).2.rawGetText (build subject h).1 binding.name) binding := by
  have made := Steady.newTable (fun _ _ => False) h {}
  have blueprint : Blueprint (h.newTable {}).2 (h.newTable {}).1 := by
    refine ⟨by simp [Heap.newTable], by rw [table_newTable_self], ?_⟩
    intro same
    exact Nat.ne_of_gt orderly.globals (congrArg TableId.index same)
  obtain ⟨steady, showns, unnamed⟩ := foldl_bind_shows subject Binding.all (by decide)
    (orderly.keep_all made) blueprint
  simp only [build]
  refine ⟨rfl, ?_, ?_, ?_⟩
  · refine made.trans steady ?_
    rintro id k present ⟨rfl, _⟩
    exact Nat.lt_irrefl _ present
  · have kept := blueprint.keep steady.toKeeps
    refine ⟨kept.present, kept.metatable?, ?_⟩
    rw [unnamed "package" fun binding _ same =>
      minor_bindingFields ⟨0⟩ ⟨0⟩ "package" (by decide) ⟨rfl, binding, congrArg Key.ofText same⟩]
    rw [rawGetText, Heap.rawGet, table_newTable_self]
    exact Table.get_empty _
  · intro binding
    have shown := showns binding (Binding.mem_all binding)
    rw [size_tables_newTable] at shown
    exact shown

end

end ScriptHost.Scope
