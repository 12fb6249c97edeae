import ScriptHost.Proofs.BindingValues
import ScriptHost.Proofs.Selection

/-!
# Engines that no script has run on

On a new engine scopes work, and no global hides a binding. The engine that a manager selects is
like this if it is made for the purpose and the factory has no scripts to prepare it.
-/

set_option autoImplicit false

namespace ScriptHost

open Lua Heap

namespace Scope

variable {h : Heap}

instance : DecidablePred Installer
  | .builtin f => inferInstanceAs (Decidable (f = .base .setmetatable))
  | .closure _ => isFalse id
  | .nil | .boolean _ | .integer _ | .float _ | .string _ | .null | .table _ | .userdata _
  | .coroutine _ => isTrue trivial

/-! ## The library -/

/-- Whether the package library is a table whose path is a string. -/
def hasPath (h : Heap) : Bool :=
  match h.rawGetText h.globals "package" with
  | .table p =>
    p.index < h.tables.size && match h.rawGetText p "path" with
      | .string _ => true
      | _ => false
  | _ => false

theorem assignable_of_hasPath (path : hasPath h = true) (p : TableId)
    (found : h.rawGetText h.globals "package" = .table p) : Assignable h p := by
  simp only [hasPath, found, Bool.and_eq_true, decide_eq_true_eq] at path
  refine ⟨path.1, .inl ?_⟩
  cases text : h.rawGetText p "path" with
  | string s => exact ⟨s, rfl⟩
  | _ => simp [text] at path

theorem orderly_wholeHeap : Orderly Library.wholeHeap where
  globals := by decide +kernel
  link := by decide +kernel
  arrays := by decide +kernel
  mode := Value.eq_nil_of_isNil (by decide +kernel)
  lookup m installed := by
    have none : Library.wholeHeap.globalsMetatable? = none := by decide +kernel
    rw [none] at installed
    cases installed
  setmetatable _ := by decide +kernel
  package := assignable_of_hasPath (by decide +kernel)

theorem unshadowed_iff_all : Unshadowed h ↔
    Binding.all.all (fun binding => (h.rawGetText h.globals binding.name).isNil) = true := by
  rw [List.all_eq_true]
  constructor
  · intro unshadowed binding _
    rw [unshadowed binding]
    rfl
  · intro absent binding
    exact Value.eq_nil_of_isNil (absent binding (Binding.mem_all binding))

instance : Decidable (Unshadowed h) := decidable_of_iff' _ unshadowed_iff_all

theorem unshadowed_wholeHeap : Unshadowed Library.wholeHeap := by decide +kernel

theorem ready_freshHeap (limit? : Option Nat) : Ready (Library.freshHeap limit?) := by
  have whole : Ready Library.wholeHeap := ⟨orderly_wholeHeap, unshadowed_wholeHeap⟩
  unfold Library.freshHeap
  generalize Library.wholeHeap = h at whole ⊢
  exact whole.keep_all ⟨.ofTables rfl rfl rfl fun _ _ found => found, rfl, fun _ => rfl⟩

/-! ## Helpers -/

/-- The fields that installing the helpers assigns. -/
def helperFields (_ : TableId) (k : Key) : Prop :=
  ∃ name ∈ ["cinder", "print", "write"], k = .ofText name

theorem not_helperFields {name : String} (other : name ∉ ["cinder", "print", "write"])
    (id : TableId) : ¬ helperFields id (.ofText name) := by
  rintro ⟨helper, member, same⟩
  have different : name ≠ helper := by
    rintro rfl
    exact other member
  exact Key.ofText_ne different same

theorem steady_install (id : EngineId) (options : EngineOptions) (h : Heap) :
    Steady helperFields h (Engine.install id options h) := by
  have assign : ∀ (name : String), name ∈ ["cinder", "print", "write"] →
      ∀ (h : Heap) (t : TableId) (v : Value), Steady helperFields h (h.rawSetText t name v) := by
    intro name member h t v
    refine Steady.rawSetText ⟨name, member, rfl⟩ ?_ h v
    rintro rfl
    revert member
    decide
  have made := Steady.newTable helperFields h (.ofEntries (Engine.helpers id options))
  simp only [Engine.install]
  generalize h.newTable (.ofEntries (Engine.helpers id options)) = table at made ⊢
  obtain ⟨t, opened⟩ := table
  have named := made.andThen (assign "cinder" (by decide) opened opened.globals (.table t))
  have printed := named.andThen
    (assign "print" (by decide) _ opened.globals (.builtin (.host .print)))
  split
  · exact printed.andThen (assign "write" (by decide) _ _ _)
  · exact printed

theorem Ready.install (ready : Ready h) (id : EngineId) (options : EngineOptions) :
    Ready (Engine.install id options h) := by
  refine ready.keep (steady_install id options h) ?_
    (fun p _ assigned => absurd assigned (not_helperFields (by decide) p)) ?_
  · intro t name reserved
    refine not_helperFields ?_ t
    intro member
    revert member
    simp only [List.mem_cons, List.not_mem_nil, or_false] at reserved
    rcases reserved with rfl | rfl | rfl | rfl <;> decide
  · intro binding
    exact not_helperFields (by cases binding <;> decide) h.globals

/-- A heap on which only the helpers have been installed. -/
def Unused (h : Heap) : Prop :=
  ∃ id options output engine, Engine.fresh? id options output = some engine ∧
    engine.store.heap = h

theorem Unused.exists_install (unused : Unused h) : ∃ id options,
    h = { Engine.install id options (Library.freshHeap options.heapLimit?) with
      used := Library.freshSize } := by
  obtain ⟨id, options, output, engine, made, rfl⟩ := unused
  exact ⟨id, options, by rw [Host.eq_of_fresh? made]⟩

theorem globalsMetatable?_install (id : EngineId) (options : EngineOptions) (h : Heap) :
    (Engine.install id options h).globalsMetatable? = h.globalsMetatable? :=
  (steady_install id options h).globalsMetatable?

theorem globalsMetatable?_freshHeap (limit? : Option Nat) :
    (Library.freshHeap limit?).globalsMetatable? = none := by
  have none : Library.wholeHeap.globalsMetatable? = none := by decide +kernel
  exact none

theorem Unused.globalsMetatable? (unused : Unused h) : h.globalsMetatable? = none := by
  obtain ⟨id, options, rfl⟩ := unused.exists_install
  have installed := globalsMetatable?_install id options (Library.freshHeap options.heapLimit?)
  rw [globalsMetatable?_freshHeap] at installed
  generalize Engine.install id options (Library.freshHeap options.heapLimit?) = h at installed ⊢
  exact installed

theorem Unused.ready (unused : Unused h) : Ready h := by
  obtain ⟨id, options, rfl⟩ := unused.exists_install
  have installed := (ready_freshHeap options.heapLimit?).install id options
  generalize Engine.install id options (Library.freshHeap options.heapLimit?) = h at installed ⊢
  exact installed.keep_all ⟨.ofTables rfl rfl rfl fun _ _ found => found, rfl, fun _ => rfl⟩

end Scope

/-! ## Engines of a manager -/

namespace Host

open Scope

variable {h after : Host} {engine : EngineId}

theorem unused_newEngine {options : EngineOptions}
    (made : h.newEngine options = (.ok engine, after)) : Unused (after.heap engine) := by
  obtain ⟨_, _, built⟩ := fresh?_of_newEngine made
  exact ⟨_, _, _, _, built, rfl⟩

theorem unused_createEngine {factory : Factory} (bare : factory.initializers = [])
    {options : EngineOptions} (made : h.createEngine factory options = (.ok engine, after)) :
    Unused (after.heap engine) := by
  unfold createEngine at made
  rw [bare] at made
  split at made
  · cases made
  · rename_i created
    cases made
    exact unused_newEngine created

theorem unused_requestEngine {id : ManagerId} (bare : (h.manager id).factory.initializers = [])
    {options : EngineOptions} (made : h.requestEngine id options = (.ok engine, after)) :
    Unused (after.heap engine) := by
  unfold requestEngine at made
  dsimp only at made
  split at made
  · cases made
  · refine unused_createEngine ?_ made
    rw [← bare]
    simp only [manager, modifyManager, Array.getElem?_modify, if_true]
    cases h.managers[id.index]? <;> rfl

theorem heap_alterCache {α : Type} (h : Host) (id : CacheId) (f : EngineCache → α × EngineCache)
    (engine : EngineId) : (h.alterCache id f).2.heap engine = h.heap engine := rfl

/-- An engine that a manager selects comes from the cache, or is new and unused if the factory has
no scripts to prepare it. -/
theorem unused_selectEngine {id : ManagerId} {policy : Policy} {key : CacheKey} {cached : Bool}
    (bare : (h.manager id).factory.initializers = [])
    (selects : h.selectEngine id policy key = (.ok (engine, cached), after)) :
    (h.cacheOf id).get? key = some engine ∨ Unused (after.heap engine) := by
  have requested : ∀ {middle}, h.requestEngine id (.ofPolicy policy) = (.ok engine, middle) →
      Unused (middle.heap engine) := unused_requestEngine bare
  cases policy with
  | reuse =>
      simp only [selectEngine] at selects
      split at selects
      · rename_i found
        cases selects
        exact .inl found
      · generalize h.requestEngine id (.ofPolicy .reuse) = made at requested selects
        obtain ⟨result, middle⟩ := made
        cases result with
        | error e => cases selects
        | ok new =>
            cases selects
            refine .inr ?_
            rw [heap_alterCache]
            exact requested rfl
  | refresh =>
      simp only [selectEngine] at selects
      split at selects
      · cases selects
      · rename_i made
        cases selects
        refine .inr ?_
        rw [heap_alterCache]
        exact requested made
  | clean | fullIsolation =>
      simp only [selectEngine] at selects
      generalize h.requestEngine id _ = made at requested selects
      obtain ⟨result, middle⟩ := made
      cases result with
      | error e => cases selects
      | ok new =>
          cases selects
          exact .inr (requested rfl)

end Host

end ScriptHost
