import ScriptHost.Engine.Scope
import ScriptHost.Proofs.FieldAccess
import ScriptHost.Proofs.HeapFrame

/-!
# Engines on which scopes work

What a heap has to look like for globals to be found in scopes without a script function being
called: the globals have no metatable but the one that the host installs, and the host finds the
library functions that it needs. A new engine is like this, and scopes keep it so.
-/

set_option autoImplicit false

namespace ScriptHost.Scope

open Lua Heap

/-- A table that can answer for globals that scripts do not define. -/
structure Plain (h : Heap) (scope : TableId) : Prop where
  present : scope.index < h.tables.size
  metatable? : (h.table scope).metatable? = none
  package : h.rawGetText scope "package" = .nil

/-- A table by which scopes can be looked up. -/
structure Lookup (h : Heap) (m : TableId) : Prop where
  present : m.index < h.tables.size
  metatable? : (h.table m).metatable? = none
  mode : h.rawGetText m "__mode" = .nil
  index : h.rawGetText m "__index" = .nil ∨
    ∃ scope, h.rawGetText m "__index" = .table scope ∧ Plain h scope

/-- A table in which the host can assign the patterns of modules. -/
structure Assignable (h : Heap) (package : TableId) : Prop where
  present : package.index < h.tables.size
  path : (∃ s, h.rawGetText package "path" = .string s) ∨
    (h.table package).metatable? = none ∧ package ≠ h.globals

/-- A value by which the host can install the metatable of the globals, or which is no function,
so that the host cannot call it. -/
def Installer : Value → Prop
  | .builtin f => f = .base .setmetatable
  | .closure _ => False
  | _ => True

/-- Scopes work: no script has put a metatable of its own on the globals, replaced `setmetatable`
before the host needed it, or turned the package library into something that guards its path. -/
structure Orderly (h : Heap) : Prop where
  globals : h.globals.index < h.tables.size
  link : (h.table h.globals).metatable? = h.globalsMetatable?
  arrays : h.arrayMetatable.index < h.tables.size
  mode : h.rawGetText h.arrayMetatable "__mode" = .nil
  lookup : ∀ m, h.globalsMetatable? = some m → Lookup h m
  setmetatable : h.globalsMetatable? = none → Installer (h.rawGetText h.globals "setmetatable")
  package : ∀ p, h.rawGetText h.globals "package" = .table p → Assignable h p

/-- Assignments to globals that are not there go to the function that keeps the names of bindings
free. -/
def Guarded (h : Heap) : Prop :=
  ∀ m, h.globalsMetatable? = some m →
    h.rawGetText m "__newindex" = .builtin (.host .guardAssignment)

/-- A global as scripts see it. -/
def visible (h : Heap) (name : String) : Value :=
  if (h.rawGetText h.globals name).isNil then
    ((current? h).map fun scope => h.rawGetText scope name).getD .nil
  else h.rawGetText h.globals name

variable {h after : Heap} {changed : TableId → Key → Prop}

theorem Lookup.strong {m : TableId} (lookup : Lookup h m) : Collect.Strong h m :=
  Collect.strong_of_metatable?_eq_none lookup.metatable?

theorem Plain.strong {scope : TableId} (plain : Plain h scope) : Collect.Strong h scope :=
  Collect.strong_of_metatable?_eq_none plain.metatable?

theorem current?_of_link {m : TableId} (installed : h.globalsMetatable? = some m) :
    current? h = match h.rawGetText m "__index" with
      | .table scope => some scope
      | _ => none := by
  simp only [current?, installed, Option.map_some]
  cases h.rawGetText m "__index" <;> rfl

namespace Orderly

theorem strong_globals (orderly : Orderly h) : Collect.Strong h h.globals := by
  intro m linked
  have lookup := orderly.lookup m (orderly.link.symm.trans linked)
  exact ⟨lookup.present, lookup.mode⟩

theorem lookup_ne_globals (orderly : Orderly h) {m : TableId}
    (installed : h.globalsMetatable? = some m) : m ≠ h.globals := by
  rintro rfl
  have none := (orderly.lookup _ installed).metatable?
  rw [orderly.link, installed] at none
  cases none

theorem plain_current (orderly : Orderly h) {scope : TableId} (current : current? h = some scope) :
    Plain h scope := by
  cases installed : h.globalsMetatable? with
  | none => simp [current?, installed] at current
  | some m =>
      rw [current?_of_link installed] at current
      rcases (orderly.lookup m installed).index with absent | ⟨found, present, plain⟩
      · simp [absent] at current
      · rw [present] at current
        exact Option.some.inj current ▸ plain

end Orderly

theorem Plain.keep {scope : TableId} (plain : Plain h scope) (keeps : Keeps changed h after)
    (other : scope ≠ h.globals) (same : ¬ changed scope (.ofText "package")) : Plain after scope where
  present := Nat.lt_of_lt_of_le plain.present keeps.grown
  metatable? := by rw [keeps.metatable? scope plain.present other, plain.metatable?]
  package := by rw [keeps.rawGetText plain.present same plain.strong, plain.package]

/-- No field with one of the names changes. -/
def Spares (names : List String) (changed : TableId → Key → Prop) : Prop :=
  ∀ id, ∀ name ∈ names, ¬ changed id (.ofText name)

/-- No field changes by which scopes are found. -/
abbrev Minor (changed : TableId → Key → Prop) : Prop :=
  Spares ["__index", "__mode", "package", "setmetatable"] changed

theorem Minor.spares {changed : TableId → Key → Prop} (minor : Minor changed) :
    Spares ["__mode", "package", "setmetatable"] changed :=
  fun id name member => minor id name (List.mem_cons_of_mem _ member)

/-- The field that is assigned when paths are set. -/
def PathField (package id : TableId) (k : Key) : Prop := id = package ∧ k = .ofText "path"

theorem not_pathField {name : String} (other : name ≠ "path") (package id : TableId) :
    ¬ PathField package id (.ofText name) :=
  fun same => Key.ofText_ne other same.2

theorem not_pathField_name (binding : Binding) (package id : TableId) :
    ¬ PathField package id (.ofText binding.name) :=
  not_pathField (by cases binding <;> decide) package id

theorem minor_pathField (package : TableId) : Minor (PathField package) :=
  fun id name reserved => not_pathField (by
    rintro rfl
    revert reserved
    decide) package id

theorem steady_assignPath (h : Heap) (package : TableId) (patterns : ByteArray) :
    Steady (PathField package) h (h.rawSetText package "path" (.string patterns)) :=
  Steady.rawSetText ⟨rfl, rfl⟩ (by decide) h _

theorem Lookup.keep {m : TableId} (lookup : Lookup h m) (keeps : Keeps changed h after)
    (minor : Minor changed) (other : m ≠ h.globals)
    (link : (h.table h.globals).metatable? = some m) : Lookup after m where
  present := Nat.lt_of_lt_of_le lookup.present keeps.grown
  metatable? := by rw [keeps.metatable? m lookup.present other, lookup.metatable?]
  mode := by
    rw [keeps.rawGetText lookup.present (minor m _ (by decide)) lookup.strong, lookup.mode]
  index := by
    rw [keeps.rawGetText lookup.present (minor m _ (by decide)) lookup.strong]
    rcases lookup.index with absent | ⟨scope, found, plain⟩
    · exact .inl absent
    · refine .inr ⟨scope, found, plain.keep keeps ?_ (minor scope _ (by decide))⟩
      rintro rfl
      rw [plain.metatable?] at link
      cases link

theorem Assignable.keep {p : TableId} (assignable : Assignable h p) (keeps : Keeps changed h after)
    (path : changed p (.ofText "path") → ∃ s, after.rawGetText p "path" = .string s) :
    Assignable after p where
  present := Nat.lt_of_lt_of_le assignable.present keeps.grown
  path := by
    by_cases assigned : changed p (.ofText "path")
    · exact .inl (path assigned)
    · rcases assignable.path with ⟨s, text⟩ | ⟨plain, other⟩
      · refine .inl ⟨s, ?_⟩
        rw [keeps.inert p _ assignable.present assigned (by rw [text]; exact Value.inert_string s),
          text]
      · refine .inr ⟨?_, by rw [keeps.globals]; exact other⟩
        rw [keeps.metatable? p assignable.present other, plain]

namespace Orderly

theorem rawGetText_globals (orderly : Orderly h) (keeps : Keeps changed h after) {name : String}
    (same : ¬ changed h.globals (.ofText name)) :
    after.rawGetText after.globals name = h.rawGetText h.globals name := by
  rw [keeps.globals, keeps.rawGetText orderly.globals same orderly.strong_globals]

/-- Scopes also go on working when others are looked up, if these are fit for it. -/
theorem relook (orderly : Orderly h) (steady : Steady changed h after)
    (spares : Spares ["__mode", "package", "setmetatable"] changed)
    (lookup : ∀ m, h.globalsMetatable? = some m → Lookup after m)
    (path : ∀ p, h.rawGetText h.globals "package" = .table p → changed p (.ofText "path") →
      ∃ s, after.rawGetText p "path" = .string s) : Orderly after where
  globals := by
    rw [steady.globals]
    exact Nat.lt_of_lt_of_le orderly.globals steady.grown
  link := by rw [steady.globals, steady.link orderly.globals, orderly.link, steady.globalsMetatable?]
  arrays := by
    rw [steady.arrayMetatable]
    exact Nat.lt_of_lt_of_le orderly.arrays steady.grown
  mode := by
    rw [steady.arrayMetatable, steady.inert _ _ orderly.arrays (spares _ _ (by decide)) (by
      rw [orderly.mode]
      exact Value.inert_nil), orderly.mode]
  lookup m installed := by
    rw [steady.globalsMetatable?] at installed
    exact lookup m installed
  setmetatable pending := by
    rw [steady.globalsMetatable?] at pending
    rw [orderly.rawGetText_globals steady.toKeeps (spares _ _ (by decide))]
    exact orderly.setmetatable pending
  package p found := by
    rw [orderly.rawGetText_globals steady.toKeeps (spares _ _ (by decide))] at found
    exact (orderly.package p found).keep steady.toKeeps (path p found)

theorem keep (orderly : Orderly h) (steady : Steady changed h after) (minor : Minor changed)
    (path : ∀ p, h.rawGetText h.globals "package" = .table p → changed p (.ofText "path") →
      ∃ s, after.rawGetText p "path" = .string s) : Orderly after :=
  orderly.relook steady minor.spares
    (fun m installed => (orderly.lookup m installed).keep steady.toKeeps minor
      (orderly.lookup_ne_globals installed) (orderly.link.trans installed)) path

/-- Scopes go on working when paths are set. -/
theorem assignPath (orderly : Orderly h) {p : TableId}
    (package : h.rawGetText h.globals "package" = .table p) (patterns : ByteArray) :
    Orderly (h.rawSetText p "path" (.string patterns)) := by
  have present := (orderly.package p package).present
  refine orderly.keep (steady_assignPath h p patterns) (minor_pathField p) ?_
  rintro q _ ⟨rfl, _⟩
  exact ⟨patterns, rawGetText_rawSetText_self present ..⟩

theorem keep_all (orderly : Orderly h) (steady : Steady (fun _ _ => False) h after) :
    Orderly after :=
  orderly.keep steady (fun _ _ _ => id) fun _ _ => False.elim

theorem current?_keep (orderly : Orderly h) (steady : Steady changed h after)
    (minor : Minor changed) : current? after = current? h := by
  cases installed : h.globalsMetatable? with
  | none => simp [current?, installed, steady.globalsMetatable?]
  | some m =>
      have lookup := orderly.lookup m installed
      rw [current?_of_link installed,
        current?_of_link (steady.globalsMetatable?.trans installed),
        steady.rawGetText lookup.present (minor m _ (by decide)) lookup.strong]

theorem guarded_keep (orderly : Orderly h) (keeps : Keeps changed h after)
    (same : after.globalsMetatable? = h.globalsMetatable?)
    (spared : ∀ m, h.globalsMetatable? = some m → ¬ changed m (.ofText "__newindex"))
    (guarded : Guarded h) : Guarded after := by
  intro m installed
  rw [same] at installed
  have lookup := orderly.lookup m installed
  rw [keeps.rawGetText lookup.present (spared m installed) lookup.strong, guarded m installed]

theorem scope_ne_globals (orderly : Orderly h) {m scope : TableId}
    (installed : h.globalsMetatable? = some m) (plain : Plain h scope) : scope ≠ h.globals := by
  rintro rfl
  have link := orderly.link
  rw [plain.metatable?, installed] at link
  cases link

theorem exists_of_current (orderly : Orderly h) {scope : TableId}
    (current : current? h = some scope) :
    ∃ m, h.globalsMetatable? = some m ∧ Plain h scope ∧ scope ≠ h.globals := by
  have plain := orderly.plain_current current
  cases installed : h.globalsMetatable? with
  | none => simp [current?, installed] at current
  | some m => exact ⟨m, rfl, plain, orderly.scope_ne_globals installed plain⟩

end Orderly

/-! ## Bindings that scripts see -/

/-- No global has the name of a binding. -/
def Unshadowed (h : Heap) : Prop :=
  ∀ binding : Binding, h.rawGetText h.globals binding.name = .nil

/-- Scopes work, and scripts see the bindings in them. -/
structure Ready (h : Heap) : Prop where
  orderly : Orderly h
  unshadowed : Unshadowed h

theorem Unshadowed.keep (unshadowed : Unshadowed h) (orderly : Orderly h)
    (keeps : Keeps changed h after)
    (unnamed : ∀ binding : Binding, ¬ changed h.globals (.ofText binding.name)) :
    Unshadowed after := by
  intro binding
  rw [orderly.rawGetText_globals keeps (unnamed binding), unshadowed binding]

theorem Ready.keep (ready : Ready h) (steady : Steady changed h after) (minor : Minor changed)
    (path : ∀ p, h.rawGetText h.globals "package" = .table p → changed p (.ofText "path") →
      ∃ s, after.rawGetText p "path" = .string s)
    (unnamed : ∀ binding : Binding, ¬ changed h.globals (.ofText binding.name)) : Ready after where
  orderly := ready.orderly.keep steady minor path
  unshadowed := ready.unshadowed.keep ready.orderly steady.toKeeps unnamed

theorem Ready.keep_all (ready : Ready h) (steady : Steady (fun _ _ => False) h after) :
    Ready after :=
  ready.keep steady (fun _ _ _ => id) (fun _ _ => False.elim) fun _ => id

end ScriptHost.Scope
