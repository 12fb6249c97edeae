import ScriptHost.Proofs.GlobalAssignment
import ScriptHost.Proofs.ScopeNesting

/-!
# Globals that the host tends

Once the metatable of the globals is installed, what the host does with scopes changes no global and
makes none appear but bindings, whatever scripts have assigned before. This needs nothing of
the package library, and of the function `setmetatable` only at the first injection.
-/

set_option autoImplicit false

namespace ScriptHost.Scope

open Lua Heap

/-- A key that is the name of a binding. -/
def IsBindingName (k : Key) : Prop := ∃ binding : Binding, k = .ofText binding.name

/-- A scope with nothing in it but bindings. -/
structure BindingsOnly (h : Heap) (scope : TableId) : Prop where
  present : scope.index < h.tables.size
  metatable? : (h.table scope).metatable? = none
  others : ∀ k, ¬ IsBindingName k → h.rawGet scope k = .nil

/-- The metatable by which the globals are guarded. -/
structure Watch (h : Heap) (m : TableId) : Prop where
  linked : (h.table h.globals).metatable? = some m
  present : m.index < h.tables.size
  metatable? : (h.table m).metatable? = none
  mode : h.rawGetText m "__mode" = .nil
  newindex : h.rawGetText m "__newindex" = .builtin (.host .guardAssignment)
  index : h.rawGetText m "__index" = .nil ∨ ∃ scope, h.rawGetText m "__index" = .table scope

/-- A table that is the current scope, or that a guard knows of. -/
def HostScope (h : Heap) (guards : List BindingGuard) (id : TableId) : Prop :=
  current? h = some id ∨ ∃ guard ∈ guards, guard.scope = id ∨ guard.previous? = some id

/-- The globals are guarded, and all scopes have nothing but bindings in them. -/
structure Tended (h : Heap) (guards : List BindingGuard) : Prop where
  globals : h.globals.index < h.tables.size
  watch : ∃ m, h.globalsMetatable? = some m ∧ Watch h m
  scopes : ∀ id, HostScope h guards id → BindingsOnly h id

/-- The globals are tended after a change, and have kept their entries. -/
structure Minds (h after : Heap) (guards : List BindingGuard) : Prop where
  tended : Tended after guards
  entries : ∀ k, after.rawGet after.globals k = h.rawGet h.globals k

variable {h middle after : Heap} {changed : TableId → Key → Prop} {guards : List BindingGuard}
  {scope m : TableId}

theorem isBindingName_ofText {name : String} :
    IsBindingName (.ofText name) ↔ name ∈ Binding.names := by
  constructor
  · rintro ⟨binding, same⟩
    rw [Key.eq_of_ofText same]
    exact List.mem_map_of_mem (Binding.mem_all binding)
  · intro member
    obtain ⟨binding, _, rfl⟩ := List.mem_map.mp member
    exact ⟨binding, rfl⟩

theorem not_isBindingName {name : String} (free : name ∉ Binding.names) :
    ¬ IsBindingName (.ofText name) :=
  fun named => free (isBindingName_ofText.mp named)

namespace BindingsOnly

theorem strong (bindingsOnly : BindingsOnly h scope) : Collect.Strong h scope :=
  Collect.strong_of_metatable?_eq_none bindingsOnly.metatable?

theorem keep (bindingsOnly : BindingsOnly h scope) (keeps : Keeps changed h after)
    (other : scope ≠ h.globals) (named : ∀ k, changed scope k → IsBindingName k) :
    BindingsOnly after scope where
  present := Nat.lt_of_lt_of_le bindingsOnly.present keeps.grown
  metatable? := by
    rw [keeps.metatable? scope bindingsOnly.present other, bindingsOnly.metatable?]
  others k free := by
    rw [keeps.rawGet scope k bindingsOnly.present (fun altered => free (named k altered))
      bindingsOnly.strong, bindingsOnly.others k free]

end BindingsOnly

namespace Watch

theorem ne_globals (watch : Watch h m) : m ≠ h.globals := by
  rintro rfl
  have linked := watch.linked
  rw [watch.metatable?] at linked
  cases linked

theorem strong (watch : Watch h m) : Collect.Strong h m :=
  Collect.strong_of_metatable?_eq_none watch.metatable?

theorem strong_globals (watch : Watch h m) : Collect.Strong h h.globals := by
  intro n linked
  obtain rfl := Option.some.inj (watch.linked.symm.trans linked)
  exact ⟨watch.present, watch.mode⟩

/-- Another table may be looked up in. -/
theorem relook (watch : Watch h m) (globals : h.globals.index < h.tables.size)
    (steady : Steady changed h after) (mode : ¬ changed m (.ofText "__mode"))
    (newindex : ¬ changed m (.ofText "__newindex"))
    (index : after.rawGetText m "__index" = .nil ∨
      ∃ scope, after.rawGetText m "__index" = .table scope) : Watch after m where
  linked := by rw [steady.globals, steady.link globals, watch.linked]
  present := Nat.lt_of_lt_of_le watch.present steady.grown
  metatable? := by rw [steady.metatable? m watch.present watch.ne_globals, watch.metatable?]
  mode := by rw [steady.rawGetText watch.present mode watch.strong, watch.mode]
  newindex := by rw [steady.rawGetText watch.present newindex watch.strong, watch.newindex]
  index := index

end Watch

namespace Tended

theorem ne_globals (tended : Tended h guards) (bindingsOnly : BindingsOnly h scope) :
    scope ≠ h.globals := by
  rintro rfl
  obtain ⟨m, _, watch⟩ := tended.watch
  have linked := watch.linked
  rw [bindingsOnly.metatable?] at linked
  cases linked

/-- Fields by which nothing of this is lost. -/
def Harmless (h : Heap) (guards : List BindingGuard) (changed : TableId → Key → Prop) : Prop :=
  ∀ id k, changed id k → id ≠ h.globals ∧
    (IsBindingName k ∨ k = .ofText "path" ∧ ¬ HostScope h guards id)

theorem harmless_false (h : Heap) (guards : List BindingGuard) :
    Harmless h guards fun _ _ => False := fun _ _ => False.elim

theorem not_changed_of_harmless (harmless : Harmless h guards changed) {name : String}
    (free : name ∉ "path" :: Binding.names) (id : TableId) : ¬ changed id (.ofText name) := by
  rw [List.mem_cons, not_or] at free
  intro altered
  rcases (harmless id _ altered).2 with named | ⟨same, _⟩
  · exact not_isBindingName free.2 named
  · exact Key.ofText_ne free.1 same

theorem current?_keep (tended : Tended h guards) (steady : Steady changed h after)
    (harmless : Harmless h guards changed) : current? after = current? h := by
  obtain ⟨m, installed, watch⟩ := tended.watch
  rw [current?_of_link installed, current?_of_link (steady.globalsMetatable?.trans installed),
    steady.rawGetText watch.present (not_changed_of_harmless harmless (by decide) m) watch.strong]

theorem minds_of_steady (tended : Tended h guards) (steady : Steady changed h after)
    (harmless : Harmless h guards changed) : Minds h after guards := by
  obtain ⟨m, installed, watch⟩ := tended.watch
  have current := tended.current?_keep steady harmless
  refine ⟨⟨?_, ⟨m, steady.globalsMetatable?.trans installed, watch.relook tended.globals steady
    (not_changed_of_harmless harmless (by decide) m)
    (not_changed_of_harmless harmless (by decide) m) ?_⟩, fun id known => ?_⟩, fun k => ?_⟩
  · rw [steady.globals]
    exact Nat.lt_of_lt_of_le tended.globals steady.grown
  · rw [steady.rawGetText watch.present (not_changed_of_harmless harmless (by decide) m)
      watch.strong]
    exact watch.index
  · have before : HostScope h guards id := by rwa [HostScope, current] at known
    have only := tended.scopes id before
    refine only.keep steady.toKeeps (tended.ne_globals only) fun k altered => ?_
    exact (harmless id k altered).2.resolve_right fun ⟨_, foreign⟩ => foreign before
  · rw [steady.globals]
    exact steady.rawGet _ k tended.globals (fun altered => (harmless _ k altered).1 rfl)
      watch.strong_globals

theorem minds_of_calm (tended : Tended h guards) (steady : Steady (fun _ _ => False) h after) :
    Minds h after guards :=
  tended.minds_of_steady steady (harmless_false h guards)

/-- Guards may be forgotten. -/
theorem mono {more : List BindingGuard} (tended : Tended h more)
    (fewer : ∀ guard ∈ guards, guard ∈ more) : Tended h guards :=
  ⟨tended.globals, tended.watch, fun id known => tended.scopes id
    (known.imp_right fun ⟨guard, member, named⟩ => ⟨guard, fewer guard member, named⟩)⟩

theorem append (tended : Tended h guards) {guard : BindingGuard}
    (scope : BindingsOnly h guard.scope)
    (previous : ∀ id, guard.previous? = some id → BindingsOnly h id) :
    Tended h (guards ++ [guard]) := by
  refine ⟨tended.globals, tended.watch, ?_⟩
  rintro id (current | ⟨other, member, named⟩)
  · exact tended.scopes id (.inl current)
  · rcases List.mem_append.mp member with old | new
    · exact tended.scopes id (.inr ⟨other, old, named⟩)
    · rw [List.mem_singleton.mp new] at named
      rcases named with rfl | before
      · exact scope
      · exact previous id before

end Tended

namespace Minds

theorem refl (tended : Tended h guards) : Minds h h guards := ⟨tended, fun _ => rfl⟩

theorem trans {others : List BindingGuard} (first : Minds h middle others)
    (second : Minds middle after guards) : Minds h after guards :=
  ⟨second.tended, fun k => (second.entries k).trans (first.entries k)⟩

theorem calm (minds : Minds h middle guards) (steady : Steady (fun _ _ => False) middle after) :
    Minds h after guards :=
  minds.trans (minds.tended.minds_of_calm steady)

end Minds

/-! ## Current scopes -/

theorem Tended.setCurrent (tended : Tended h guards) (only : BindingsOnly h scope) :
    Minds h (setCurrent scope h) guards ∧ Scope.current? (Scope.setCurrent scope h) = some scope ∧
      (∀ id, BindingsOnly h id → BindingsOnly (Scope.setCurrent scope h) id) ∧
      Steady (fun _ k => k = .ofText "__index") h (Scope.setCurrent scope h) := by
  obtain ⟨m, installed, watch⟩ := tended.watch
  have entered : Scope.setCurrent scope h = h.rawSetText m "__index" (.table scope) := by
    simp only [Scope.setCurrent, installed]
  have narrow : Steady (lookupField m) h (h.rawSetText m "__index" (.table scope)) :=
    Steady.rawSetText ⟨rfl, rfl⟩ (by decide) h _
  have found : (h.rawSetText m "__index" (.table scope)).rawGetText m "__index" = .table scope :=
    rawGetText_rawSetText_self watch.present ..
  have current : Scope.current? (h.rawSetText m "__index" (.table scope)) = some scope := by
    rw [current?_of_link (narrow.globalsMetatable?.trans installed), found]
  have kept : ∀ id, BindingsOnly h id →
      BindingsOnly (h.rawSetText m "__index" (.table scope)) id := by
    intro id isScope
    refine isScope.keep narrow.toKeeps (tended.ne_globals isScope) ?_
    -- The metatable of the globals has a handler in it, so it is no scope.
    rintro k ⟨rfl, rfl⟩
    have handler := isScope.others (.ofText "__newindex") (not_isBindingName (by decide))
    rw [show h.rawGet id (.ofText "__newindex") = h.rawGetText id "__newindex" from rfl,
      watch.newindex] at handler
    cases handler
  rw [entered]
  refine ⟨⟨⟨?_, ⟨m, narrow.globalsMetatable?.trans installed, watch.relook tended.globals narrow
    (spares_lookupField m m _ (by decide)) (not_lookupField_newindex m m) (.inr ⟨scope, found⟩)⟩,
    ?_⟩, fun k => ?_⟩, current, kept, narrow.mono fun _ _ => And.right⟩
  · rw [narrow.globals]
    exact Nat.lt_of_lt_of_le tended.globals narrow.grown
  · rintro id (isCurrent | known)
    · rw [current] at isCurrent
      obtain rfl := Option.some.inj isCurrent
      exact kept _ only
    · exact kept id (tended.scopes id (.inr known))
  · exact rawGet_rawSet_of_ne watch.ne_globals.symm ..

/-! ## New scopes -/

mutual

theorem steady_ofJson : ∀ (h : Heap) (json : Json),
    Steady (fun _ _ => False) h (Conversion.ofJson h json).2
  | _, .null | _, .bool _ | _, .int _ | _, .float _ | _, .str _ => Steady.refl ..
  | h, .arr items => (steady_ofItems h items).andThen (Steady.newTable ..)
  | h, .obj entries => (steady_ofEntries h entries).andThen (Steady.newTable ..)

theorem steady_ofItems : ∀ (h : Heap) (items : List Json),
    Steady (fun _ _ => False) h (Conversion.ofItems h items).2
  | _, [] => Steady.refl ..
  | h, item :: items => (steady_ofJson h item).andThen (steady_ofItems _ items)

theorem steady_ofEntries : ∀ (h : Heap) (entries : List (String × Json)),
    Steady (fun _ _ => False) h (Conversion.ofEntries h entries).2
  | _, [] => Steady.refl ..
  | h, (_, json) :: entries => (steady_ofJson h json).andThen (steady_ofEntries _ entries)

end

theorem steady_value (subject : Subject) (h : Heap) (binding : Binding) :
    Steady (fun _ _ => False) h (value subject h binding).2 := by
  cases binding with
  | host | commandData | selectedElements => exact steady_ofJson ..
  | activeUiDocument =>
      simp only [value]
      cases subject.context.documents? with
      | none => exact Steady.refl ..
      | some documents => exact steady_ofJson ..
  | activeDocument =>
      simp only [value]
      cases subject.context.documents? with
      | none => exact Steady.refl ..
      | some documents => exact steady_ofJson ..
  | engineManager | context | results => exact Steady.newUserdata ..
  | _ => exact Steady.refl ..

theorem steady_bind (subject : Subject) (scope : TableId) (h : Heap) (binding : Binding) :
    Steady (bindingFields scope) h (bind subject scope h binding) :=
  ((steady_value subject h binding).mono fun _ _ => False.elim).andThen
    (Steady.rawSetText (bindingFields_name scope binding) (name_ne_mode binding) _ _)

theorem steady_foldl_bind (subject : Subject) (scope : TableId) (bindings : List Binding)
    (h : Heap) : Steady (bindingFields scope) h (bindings.foldl (bind subject scope) h) := by
  induction bindings generalizing h with
  | nil => exact Steady.refl ..
  | cons binding rest ih => exact (steady_bind subject scope h binding).andThen (ih _)

/-- A new scope holds bindings alone, and is no table that was there before. -/
theorem bindingsOnly_build (globals : h.globals.index < h.tables.size) (subject : Subject) :
    Steady (fun _ _ => False) h (build subject h).2 ∧
      BindingsOnly (build subject h).2 (build subject h).1 := by
  have made := Steady.newTable (fun _ _ => False) h {}
  have empty : BindingsOnly (h.newTable {}).2 (h.newTable {}).1 := by
    refine ⟨by simp [Heap.newTable], by rw [table_newTable_self], fun k _ => ?_⟩
    rw [Heap.rawGet, table_newTable_self]
    exact Table.get_empty k
  have other : (h.newTable {}).1 ≠ h.globals := fun same =>
    Nat.ne_of_gt globals (congrArg TableId.index same)
  have filled := steady_foldl_bind subject (h.newTable {}).1 Binding.all (h.newTable {}).2
  refine ⟨made.trans filled ?_, empty.keep filled.toKeeps other fun k named => named.2⟩
  rintro id k present ⟨rfl, _⟩
  exact Nat.lt_irrefl _ present

/-- What an injection does to tended globals: a new scope, which the guard names, is the current
one, and no field has changed but the one that leads to it. -/
structure Entered (h after : Heap) (guards : List BindingGuard) (guard : BindingGuard) : Prop where
  minds : Minds h after (guards ++ [guard])
  keeps : Keeps (fun _ k => k = .ofText "__index") h after
  current : current? after = some guard.scope
  previous : guard.previous? = current? h
  fresh : h.tables.size ≤ guard.scope.index

/-- The scope may have been made for the purpose. -/
theorem Tended.enter (tended : Tended h guards) (made : Steady (fun _ _ => False) h middle)
    (only : BindingsOnly middle scope) (fresh : h.tables.size ≤ scope.index) (engine : EngineId) :
    Entered h (enter scope middle).2 guards ⟨engine, scope, (Scope.enter scope middle).1⟩ := by
  have opened := tended.minds_of_calm made
  obtain ⟨minds, current, kept, steady⟩ := opened.tended.setCurrent only
  have held := Steady.hold (fun _ _ => False) (Scope.setCurrent scope middle)
    (scope :: (Scope.current? middle).toList ++ (Scope.setCurrent scope middle).held)
  have known : Tended (Scope.setCurrent scope middle)
      (guards ++ [⟨engine, scope, (Scope.enter scope middle).1⟩]) :=
    minds.tended.append (kept scope only)
      fun id before => kept id (opened.tended.scopes id (.inl before))
  refine ⟨opened.trans ((Minds.mk known minds.entries).calm held), ?_, ?_, ?_, fresh⟩
  · exact ((made.mono fun _ _ => False.elim).andThen
      (steady.trans held fun _ _ _ => False.elim)).toKeeps
  · exact (minds.tended.current?_keep held (harmless_false _ _)).trans current
  · exact tended.current?_keep made (harmless_false _ _)

/-! ## Scopes that are left -/

theorem Tended.blank (tended : Tended h guards) (known : HostScope h guards scope) :
    Minds h (blank scope h) guards := by
  have only := tended.scopes scope known
  refine tended.minds_of_steady (blank_spec only.present).1 ?_
  rintro id k ⟨rfl, named⟩
  exact ⟨tended.ne_globals only, .inl named⟩

theorem Tended.reenter (tended : Tended h guards) {guard : BindingGuard} (member : guard ∈ guards) :
    Minds h (reenter guard h) guards := by
  unfold Scope.reenter
  split
  · rename_i previous before
    split
    · exact (tended.setCurrent (tended.scopes previous (.inr ⟨guard, member, .inr before⟩))).1
    · exact .refl tended
  · exact .refl tended

theorem Tended.leave (tended : Tended h guards) {guard : BindingGuard} (member : guard ∈ guards) :
    Minds h (leave guard h) guards := by
  have blanked := tended.blank (.inr ⟨guard, member, .inl rfl⟩)
  have reentered := blanked.trans (blanked.tended.reenter member)
  exact reentered.calm (Steady.hold ..)

theorem Tended.blankCurrent (tended : Tended h guards) : Minds h (blankCurrent h) guards := by
  unfold Scope.blankCurrent
  split
  · rename_i scope current
    exact tended.blank (.inl current)
  · exact .refl tended

/-! ## Assignments -/

/-- An entry of the globals may be any: not even one by which other tables become weak matters. -/
theorem Tended.rawSet (tended : Tended h guards) (k : Key) (v : Value) :
    Tended (h.rawSet h.globals k v) guards := by
  obtain ⟨m, installed, watch⟩ := tended.watch
  have fields : ∀ id, id ≠ h.globals → ∀ k',
      (h.rawSet h.globals k v).rawGet id k' = h.rawGet id k' :=
    fun id other k' => rawGet_rawSet_of_ne other ..
  have texts : ∀ name, (h.rawSet h.globals k v).rawGetText m name = h.rawGetText m name :=
    fun name => fields m watch.ne_globals _
  have current : Scope.current? (h.rawSet h.globals k v) = Scope.current? h := by
    rw [current?_of_link installed,
      current?_of_link (h := h.rawSet h.globals k v) (show _ = some m from installed), texts]
  refine ⟨?_, ⟨m, installed, ?_, ?_, ?_, ?_, ?_, ?_⟩, fun id known => ?_⟩
  · rw [size_tables_rawSet]
    exact tended.globals
  · rw [show (h.rawSet h.globals k v).globals = h.globals from rfl, metatable?_rawSet, watch.linked]
  · rw [size_tables_rawSet]
    exact watch.present
  · rw [metatable?_rawSet, watch.metatable?]
  · rw [texts, watch.mode]
  · rw [texts, watch.newindex]
  · rw [texts]
    exact watch.index
  · have only := tended.scopes id (by rwa [HostScope, current] at known)
    refine ⟨?_, ?_, fun k' free => ?_⟩
    · rw [size_tables_rawSet]
      exact only.present
    · rw [metatable?_rawSet, only.metatable?]
    · rw [fields id (tended.ne_globals only), only.others k' free]

end ScriptHost.Scope
