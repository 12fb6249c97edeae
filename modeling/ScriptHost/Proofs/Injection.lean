import ScriptHost.Proofs.GlobalAccess
import ScriptHost.Proofs.ScopeNesting

/-!
# Injecting and clearing bindings

What an injection and a clearing come to on an engine on which scopes work: the scope of the
invocation is in front of the scope that was current, and taking it away brings that one back.
-/

set_option autoImplicit false

namespace ScriptHost

open Lua Scope

namespace Scope

variable {h middle after : Heap}

theorem Ensured.steady (ensured : Ensured h middle)
    (steady : Heap.Steady (fun _ _ => False) middle after) : Ensured h after :=
  ensured.trans (.ofSteady ensured.orderly steady)

/-- What an injection does to a heap: a new scope with the values of the invocation is current. -/
structure Injected (h after : Heap) (guard : BindingGuard) (subject : Subject) : Prop where
  orderly : Orderly after
  keeps : ∃ m, after.globalsMetatable? = some m ∧ m.index < guard.scope.index ∧
    Heap.Keeps (lookupField m) h after
  installed : ∀ m, h.globalsMetatable? = some m → after.globalsMetatable? = some m
  guarded : Guarded h → Guarded after
  previous : guard.previous? = current? h
  current : current? after = some guard.scope
  fresh : h.tables.size ≤ guard.scope.index
  shown : ∀ binding, Shows after (Within (guard.scope.index + 1) after.tables.size) subject
    (after.rawGetText guard.scope binding.name) binding

theorem Ensured.inject {m : TableId} (ensured : Ensured h middle)
    (installed : middle.globalsMetatable? = some m) (subject : Subject) (engine : EngineId)
    (fitted : Heap.Steady (fun _ _ => False) (build subject middle).2 after) :
    Injected h (enter (build subject middle).1 after).2
      ⟨engine, (build subject middle).1, (enter (build subject middle).1 after).1⟩ subject := by
  obtain ⟨fresh, built, plain, shown⟩ := build_shows ensured.orderly subject
  generalize build subject middle = made at fitted fresh built plain shown ⊢
  obtain ⟨scope, heap⟩ := made
  dsimp only at fitted fresh built plain shown ⊢
  have orderlyBuilt := ensured.orderly.keep_all built
  have installedBuilt := built.globalsMetatable?.trans installed
  have orderly := orderlyBuilt.keep_all fitted
  have installedFitted := fitted.globalsMetatable?.trans installedBuilt
  have other := orderlyBuilt.scope_ne_globals installedBuilt plain
  have plainFitted := plain.keep fitted.toKeeps other id
  obtain ⟨previous, entered, orderlyEntered, current⟩ :=
    enter_spec orderly installedFitted plainFitted
  have whole : Heap.Steady (fun _ _ => False) middle after := built.andThen fitted
  have below : middle.tables.size ≤ scope.index := Nat.le_of_eq (congrArg TableId.index fresh).symm
  refine ⟨orderlyEntered, ⟨m, entered.globalsMetatable?.trans installedFitted, ?_, ?_⟩, ?_, ?_,
    ?_, current, ?_, ?_⟩
  · exact Nat.lt_of_lt_of_le (ensured.orderly.lookup m installed).present below
  · exact ((ensured.keeps.andThen whole.toKeeps).mono fun _ _ => False.elim).andThen
      entered.toKeeps
  · intro n before
    rw [entered.globalsMetatable?, whole.globalsMetatable?, ensured.installed n before]
  · intro guarded
    have kept := ensured.orderly.guarded_keep whole.toKeeps whole.globalsMetatable?
      (fun _ _ => id) (ensured.guarded guarded)
    exact orderly.guarded_keep entered.toKeeps entered.globalsMetatable?
      (fun n _ => not_lookupField_newindex m n) kept
  · rw [previous, ensured.orderly.current?_keep whole fun _ _ _ => id, ensured.current?]
  · rw [fresh]
    exact ensured.keeps.grown
  · intro binding
    have same : (enter scope after).2.rawGetText scope binding.name =
        heap.rawGetText scope binding.name := by
      rw [entered.rawGetText plainFitted.present (not_lookupField_name m scope binding)
        plainFitted.strong, fitted.rawGetText plain.present id plain.strong]
    have later : Heap.Keeps (lookupField m) heap (enter scope after).2 :=
      (fitted.toKeeps.mono fun _ _ => False.elim).andThen entered.toKeeps
    rw [same]
    refine (shown binding).keep orderlyBuilt later (untouched_within ?_ (Nat.le_refl _) ?_)
      fun id within => within.mono (Nat.le_refl _) later.grown
    · rw [built.globals]
      exact Nat.lt_succ_of_lt (Nat.lt_of_lt_of_le ensured.orderly.globals below)
    · rintro id k ⟨rfl, _⟩
      have lookup := ensured.orderly.lookup id installed
      exact Nat.lt_succ_of_lt (Nat.lt_of_lt_of_le lookup.present below)

/-- What an injection has brought about is not undone when garbage is collected. -/
theorem Injected.steady {guard : BindingGuard} {subject : Subject}
    (orderly : Orderly h) (injected : Injected h middle guard subject)
    (steady : Heap.Steady (fun _ _ => False) middle after) : Injected h after guard subject where
  orderly := injected.orderly.keep_all steady
  keeps := by
    obtain ⟨m, installed, below, keeps⟩ := injected.keeps
    exact ⟨m, steady.globalsMetatable?.trans installed, below,
      keeps.andThen (steady.toKeeps.mono fun _ _ => False.elim)⟩
  installed m before := steady.globalsMetatable?.trans (injected.installed m before)
  guarded before := injected.orderly.guarded_keep steady.toKeeps steady.globalsMetatable?
    (fun _ _ => id) (injected.guarded before)
  previous := injected.previous
  current := (injected.orderly.current?_keep steady fun _ _ _ => id).trans injected.current
  fresh := injected.fresh
  shown binding := by
    have plain := injected.orderly.plain_current injected.current
    have above : middle.globals.index < guard.scope.index + 1 := by
      obtain ⟨_, _, _, keeps⟩ := injected.keeps
      rw [keeps.globals]
      exact Nat.lt_succ_of_lt (Nat.lt_of_lt_of_le orderly.globals injected.fresh)
    rw [steady.rawGetText plain.present id plain.strong]
    exact (injected.shown binding).keep injected.orderly steady.toKeeps
      (untouched_within above (Nat.le_refl _) fun _ _ => False.elim)
      fun id within => within.mono (Nat.le_refl _) steady.grown

/-! ## What scripts see -/

/-- The patterns from which scripts load modules. -/
def packagePath (h : Heap) : Value :=
  match h.rawGetText h.globals "package" with
  | .table p => h.rawGetText p "path"
  | _ => .nil

theorem Orderly.packagePath_keep {changed : TableId → Key → Prop} (orderly : Orderly h)
    (keeps : Heap.Keeps changed h after)
    (spares : Spares ["package", "path"] changed) : packagePath after = packagePath h := by
  unfold packagePath
  rw [orderly.rawGetText_globals keeps (spares _ _ (by decide))]
  cases found : h.rawGetText h.globals "package" with
  | table p =>
      have assignable := orderly.package p found
      have same := spares p "path" (by decide)
      rcases assignable.path with ⟨s, text⟩ | ⟨plain, _⟩
      · exact keeps.inert p _ assignable.present same (by rw [text]; exact Value.inert_string s)
      · exact keeps.rawGetText assignable.present same
          (Collect.strong_of_metatable?_eq_none plain)
  | _ => rfl

theorem Orderly.visible_keep {changed : TableId → Key → Prop} (orderly : Orderly h)
    (keeps : Heap.Keeps changed h after) (current : current? after = current? h) {name : String}
    (same : ∀ id, ¬ changed id (.ofText name)) : visible after name = visible h name := by
  unfold visible
  rw [orderly.rawGetText_globals keeps (same _), current]
  cases found : current? h with
  | none => rfl
  | some scope =>
      have plain := orderly.plain_current found
      rw [Option.map_some, Option.map_some, keeps.rawGetText plain.present (same scope) plain.strong]

/-- The field by which the current scope is found. -/
def currentField (h : Heap) (id : TableId) (k : Key) : Prop :=
  h.globalsMetatable? = some id ∧ k = .ofText "__index"

/-- Scripts see what they saw before, but that a binding may be absent where it was nil. -/
structure Rewound (h after : Heap) : Prop where
  orderly : Orderly after
  keeps : Heap.Keeps (currentField after) h after
  installed : ∀ m, h.globalsMetatable? = some m → after.globalsMetatable? = some m
  guarded : Guarded h → Guarded after
  current? : current? after = current? h ∨ current? h = none
  first : Scope.current? h = none → ∀ scope, Scope.current? after = some scope → Blank after scope
  packagePath : packagePath after = packagePath h
  visible : ∀ binding : Binding, visible after binding.name = visible h binding.name ∨
    visible h binding.name = .nil ∧ visible after binding.name = .null

theorem Ensured.rewound (orderly : Orderly h) (ensured : Ensured h after) : Rewound h after where
  orderly := ensured.orderly
  keeps := ensured.keeps.mono fun _ _ => False.elim
  installed := ensured.installed
  guarded := ensured.guarded
  current? := .inl ensured.current?
  first absent scope current := by
    rw [ensured.current?, absent] at current
    cases current
  packagePath := orderly.packagePath_keep ensured.keeps fun _ _ _ => id
  visible _ := .inl (orderly.visible_keep ensured.keeps ensured.current? fun _ => id)

theorem Injected.plain {guard : BindingGuard} {subject : Subject}
    (injected : Injected h after guard subject) : Plain after guard.scope :=
  injected.orderly.plain_current injected.current

/-- Leaving a scope right after it was entered takes the injection back. -/
theorem Injected.rewound {guard : BindingGuard} {subject : Subject} (orderly : Orderly h)
    (injected : Injected h after guard subject) : Rewound h (leave guard after) := by
  obtain ⟨m, installed, _, keeps⟩ := injected.keeps
  have previous : ∀ p, guard.previous? = some p → Plain after p := by
    intro p before
    obtain ⟨_, _, plain, other⟩ := orderly.exists_of_current (injected.previous.symm.trans before)
    exact plain.keep keeps other (spares_lookupField m p _ (by decide))
  obtain ⟨left, orderlyLeft, isBlank, current⟩ :=
    leave_spec injected.orderly installed injected.plain previous
  rw [injected.current, if_pos rfl] at current
  have whole : Heap.Keeps (lookupField m) h (leave guard after) := by
    refine keeps.trans left.toKeeps ?_
    rintro id k present (⟨rfl, _⟩ | looked)
    · exact absurd present (Nat.not_lt_of_ge injected.fresh)
    · exact looked
  have packages := orderly.packagePath_keep whole fun id name member => by
    rw [List.mem_cons, List.mem_singleton] at member
    rcases member with rfl | rfl
    · exact spares_lookupField m id _ (by decide)
    · exact not_lookupField_path m id
  have installedLeft := left.globalsMetatable?.trans installed
  have relooked : Heap.Keeps (currentField (leave guard after)) h (leave guard after) :=
    whole.mono fun id k ⟨same, field⟩ => ⟨by rw [same, installedLeft], field⟩
  refine ⟨orderlyLeft, relooked, fun n before => ?_, ?_, ?_, ?_, packages, fun binding => ?_⟩
  · rw [left.globalsMetatable?, injected.installed n before]
  · intro guarded
    exact injected.orderly.guarded_keep left.toKeeps left.globalsMetatable?
      (fun n _ => not_leavingFields_newindex m guard.scope n) (injected.guarded guarded)
  · rw [current, injected.previous]
    cases current? h with
    | none => exact .inr rfl
    | some scope => exact .inl rfl
  · intro absent scope same
    rw [current, injected.previous, absent] at same
    obtain rfl : guard.scope = scope := Option.some.inj same
    exact isBlank
  cases before : current? h with
  | some scope =>
      rw [injected.previous, before] at current
      exact .inl (orderly.visible_keep whole (current.trans before.symm) fun id =>
        not_lookupField_name m id binding)
  | none =>
      have own := orderly.rawGetText_globals whole (not_lookupField_name m h.globals binding)
      unfold visible
      rw [own, before, current, injected.previous, before]
      cases (h.rawGetText h.globals binding.name).isNil with
      | false => exact .inl rfl
      | true => exact .inr ⟨rfl, isBlank binding⟩

end Scope

namespace Host

variable {h : Host} {engine : EngineId}

/-- An injection either fails and leaves the current scope as it is, or puts a scope with the
values of the invocation in front of it. -/
theorem inject_of_orderly (present : engine.index < h.engines.size)
    (orderly : Orderly (h.heap engine)) (context : Context) (cached : Bool)
    (manager? : Option ManagerId) :
    (∃ e, (h.inject engine context cached manager?).1 = .error e ∧
      Ensured (h.heap engine) ((h.inject engine context cached manager?).2.heap engine)) ∨
    ∃ guard contextId, (h.inject engine context cached manager?).1 = .ok guard ∧
      guard.engine = engine ∧
      (h.inject engine context cached manager?).2.context? contextId = some context ∧
      Injected (h.heap engine) ((h.inject engine context cached manager?).2.heap engine) guard
        { context, contextId, cached, manager? } := by
  obtain ⟨heap, ensures, ensured, installs⟩ := ensureScopes_of_orderly present orderly
  cases done : h.ensureScopes engine with
  | mk result middle =>
      rw [done] at ensures installs
      dsimp only at ensures installs
      subst ensures
      cases result with
      | error e =>
          rw [inject_of_error done]
          refine .inl ⟨e, rfl, ?_⟩
          dsimp only
          rw [heap_modifyHeap present]
          exact ensured
      | ok _ =>
          obtain ⟨m, installed⟩ := Option.isSome_iff_exists.mp (installs rfl)
          have opened : (h.modifyHeap engine fun _ => heap).heap engine = heap :=
            heap_modifyHeap present _
          -- The new record of the context concerns no engine.
          have there : engine.index <
              ((h.modifyHeap engine fun _ => heap).addContext context).2.engines.size := by
            simpa [addContext, modifyHeap] using present
          have found := context?_addContext_self (h.modifyHeap engine fun _ => heap) context
          obtain ⟨full, ends⟩ := inject_cases done context cached manager?
          rw [opened] at ends
          rcases ends with ⟨room, injects⟩ | ⟨room, injects⟩
          · rw [injects]
            refine .inl ⟨_, rfl, ?_⟩
            dsimp only
            rw [heap_modifyHeap there]
            obtain ⟨_, built, _⟩ := build_shows ensured.orderly _
            exact ensured.steady (built.andThen (.of_fits _ room))
          · rw [injects]
            refine .inr ⟨_, _, rfl, rfl, found, ?_⟩
            dsimp only
            rw [heap_modifyHeap there]
            exact ensured.inject installed _ engine (.of_fits (fun _ _ => False) room)

/-- Setting the paths assigns the patterns of modules or fails. Garbage may be collected for it. -/
theorem setSearchPaths_of_orderly (orderly : Orderly (h.heap engine)) (paths : List Path) :
    ∃ heap, Heap.Steady (fun _ _ => False) (h.heap engine) heap ∧
      ((∃ e, h.setSearchPaths engine paths = (.error e, h.modifyHeap engine fun _ => heap)) ∨
      ∃ p, heap.rawGetText heap.globals "package" = .table p ∧
        h.setSearchPaths engine paths =
          (.ok (), (h.modifyHeap engine fun _ => heap.rawSetText p "path"
            (.string (SearchPath.render paths).toByteArray)).modifyEngine engine fun e =>
              { e with searchPaths := paths })) := by
  unfold setSearchPaths
  split
  · exact ⟨_, .refl .., .inl ⟨_, by rw [modifyHeap_heap]⟩⟩
  · obtain ⟨heap, steady, ⟨p, found, assigned⟩ | ⟨e, refused⟩⟩ :=
      setPackagePath_of_orderly orderly (SearchPath.render paths)
    · exact ⟨heap, steady, .inr ⟨p, found, by rw [assigned]⟩⟩
    · exact ⟨heap, steady, .inl ⟨e, by rw [refused]⟩⟩

end Host

end ScriptHost
