import ScriptHost.Proofs.FreshEngines
import ScriptHost.Proofs.SealedCreation
import ScriptHost.ScriptRun

/-!
# Engines in the hands of any script

A script may do to the globals whatever it likes, and to their metatable as well. All the same,
every table that anything on its engine leads to is there, no table goes, and the host finds the
globals and the table by which it looks scopes up where they were.
-/

set_option autoImplicit false

namespace ScriptHost

open Lua Scope

namespace Lua.Vault

variable {h after : Heap} {id : TableId} {touched : TableId → Prop} {manages : ManagerId → Prop}

/-- The vault of a heap of which no table is kept from scripts. They may have handles of the given
managers. -/
def lending (manages : ManagerId → Prop) (h : Heap) : Vault :=
  ⟨h.globals, none, fun _ => False, h.tables.size, False, manages⟩

/-- The vault of a heap of which nothing is kept from scripts. -/
def common (h : Heap) : Vault := lending (fun _ => True) h

theorem not_secret_lending : ¬ (lending manages h).Secret id := by
  rintro (linked | known)
  · cases linked
  · exact known

theorem open_lending_iff : (lending manages h).Open id ↔ id.index < h.tables.size :=
  ⟨And.left, fun present => ⟨present, not_secret_lending⟩⟩

theorem not_secret_common (h : Heap) (id : TableId) : ¬ (common h).Secret id := not_secret_lending

theorem open_common_iff : (common h).Open id ↔ id.index < h.tables.size := open_lending_iff

theorem holds_common (present : id.index < h.tables.size) : (common h).Holds id :=
  .inr ⟨rfl, open_common_iff.mpr present⟩

theorem Touches.passes {V : Vault} (touches : V.Touches touched h after)
    (bare : ∀ id, ¬ V.Secret id) : V.Passes h after :=
  ⟨touches.grown, touches.guards, touches.globalsMetatable?,
    fun id secret => absurd secret (bare id)⟩

theorem on_lending (globals : after.globals = h.globals) :
    (lending manages h).on after = lending manages after := by
  rw [lending, lending, globals]
  rfl

theorem on_common (globals : after.globals = h.globals) : (common h).on after = common after :=
  on_lending globals

theorem Passes.lends (passes : (lending manages h).Passes h after) :
    (lending manages after).Guards after :=
  on_lending passes.guards.globals ▸ passes.guards

theorem Passes.whole (passes : (common h).Passes h after) : (common after).Guards after :=
  passes.lends

theorem Passes.andThen {middle : Heap} (first : (common h).Passes h middle)
    (second : (common middle).Passes middle after) : (common h).Passes h after :=
  first.trans (on_common first.guards.globals ▸ second)

/-- What is no secret to begin with needs no guard. -/
theorem Guards.shareAll {V : Vault} (guards : V.Guards h) (bare : ∀ id, ¬ V.Secret id) :
    (lending V.manages h).Guards h := by
  have unlinked : V.lookup? = none := by
    cases linked : V.lookup? with
    | none => rfl
    | some m => exact absurd (.inl linked) (bare m)
  have wider : V.Wider (lending V.manages h) := by
    refine ⟨fun id isOpen => ?_, fun _ => id⟩
    rw [open_lending_iff, guards.size]
    exact isOpen.1
  have globals : (lending V.manages h).Open h.globals :=
    guards.globals ▸ wider.opens _ guards.open_globals
  refine .ofSuits rfl rfl globals (fun id secret => absurd secret not_secret_lending)
    (fun linked => absurd rfl linked) (fun _ linked => by cases linked)
    (fun _ known => known.elim) (guards.rests.mono wider) fun id => ?_
  have suits := guards.suits id
  exact {
    plain := fun secret => absurd secret not_secret_lending
    link := False.elim
    lookup := fun linked => by cases linked
    scope := False.elim
    shows := fun _ => (suits.shows (bare id)).mono wider
    metatable := fun _ _ m linked => by
      by_cases here : V.tended ∧ id = V.globals
      · rw [suits.link here.1 here.2, unlinked] at linked
        cases linked
      · exact wider.opens m (suits.metatable (bare id) (not_and.mp here) m linked)
    unshadowed := fun _ linked => absurd rfl linked }

/-! ## Scopes as tables like all others -/

section

variable (guards : (common h).Guards h)

include guards

theorem Guards.marked (m? : Option TableId) :
    (common { h with globalsMetatable? := m? }).Guards { h with globalsMetatable? := m? } :=
  { guards with
    marker := fun _ linked => by cases linked
    lookup := fun _ linked => by cases linked
    rests := { guards.rests with } }

theorem Guards.setCurrent {scope : TableId}
    (marker : ∀ m, h.globalsMetatable? = some m → m.index < h.tables.size)
    (present : scope.index < h.tables.size) : (common h).Passes h (Scope.setCurrent scope h) := by
  unfold Scope.setCurrent
  split
  · rename_i m marked
    have shared : (common h).Shares (Value.table scope) := open_common_iff.mpr present
    exact (guards.touches_assign (holds_common (marker m marked)) shared "__index").passes
      (not_secret_common h)
  · exact .refl guards

theorem Guards.present_current {scope : TableId}
    (marker : ∀ m, h.globalsMetatable? = some m → m.index < h.tables.size)
    (current : current? h = some scope) : scope.index < h.tables.size := by
  cases marked : h.globalsMetatable? with
  | none => simp [current?, marked] at current
  | some m =>
      have isOpen : (common h).Open m := open_common_iff.mpr (marker m marked)
      have shared := guards.shares_rawGet isOpen.2 (.ofText "__index")
      rw [current?_of_link marked, Heap.rawGetText] at current
      split at current
      · rename_i found
        cases current
        rw [found] at shared
        exact open_common_iff.mp shared
      · cases current

theorem Guards.build (subject : Subject) :
    (common h).Passes h (build subject h).2 ∧
      (build subject h).1.index < (build subject h).2.tables.size := by
  have made : (common h).Passes h (h.newTable {}).2 :=
    guards.newTable (shows_empty _) fun m linked => by cases linked
  have holds : ((common h).on (h.newTable {}).2).Holds (h.newTable {}).1 :=
    .inr ⟨rfl, guards.open_new {}⟩
  have filled := (made.guards.touches_binds holds subject (fun _ _ => trivial) Binding.all).passes
    (not_secret_common h)
  have present : (h.newTable {}).1.index < (h.newTable {}).2.tables.size := by simp [Heap.newTable]
  exact ⟨made.trans filled, Nat.lt_of_lt_of_le present filled.grown⟩

variable (marker : ∀ m, h.globalsMetatable? = some m → m.index < h.tables.size)

include marker

theorem Guards.enter {scope : TableId} (present : scope.index < h.tables.size) :
    (common h).Passes h (enter scope h).2 := by
  have entered := guards.setCurrent marker present
  exact entered.andThen (entered.whole.passes_hold _)

theorem Guards.leave {guard : BindingGuard} (scope : guard.scope.index < h.tables.size)
    (previous : ∀ p, guard.previous? = some p → p.index < h.tables.size) :
    (common h).Passes h (leave guard h) := by
  have blanked := (guards.touches_blank (holds_common scope)).passes (not_secret_common h)
  have reentered : (common h).Passes h (reenter guard (blank guard.scope h)) := by
    unfold reenter
    split
    · rename_i p before
      split
      · refine blanked.andThen (blanked.whole.setCurrent (fun m marked => ?_)
          (Nat.lt_of_lt_of_le (previous p before) blanked.grown))
        rw [blanked.globalsMetatable?] at marked
        exact Nat.lt_of_lt_of_le (marker m marked) blanked.grown
      · exact blanked
    · exact blanked
  exact reentered.andThen (reentered.whole.passes_hold _)

end

end Lua.Vault

open Vault

/-! ## Stores -/

/-- Everything in a store leads to tables that are there. -/
abbrev Lua.Store.Whole (store : Store) : Prop := Host.SafeStore (common store.heap) store

/-- From `h` to `after`, no table has gone, and the host finds what it goes by. -/
structure Retains (h after : Heap) : Prop where
  globals : after.globals = h.globals
  marker : ∀ m, h.globalsMetatable? = some m → after.globalsMetatable? = some m
  grown : h.tables.size ≤ after.tables.size

namespace Retains

variable {h middle after : Heap}

theorem refl (h : Heap) : Retains h h := ⟨rfl, fun _ => id, Nat.le_refl _⟩

theorem trans (first : Retains h middle) (second : Retains middle after) : Retains h after :=
  ⟨second.globals.trans first.globals, fun m marked => second.marker m (first.marker m marked),
    Nat.le_trans first.grown second.grown⟩

theorem ofPasses (passes : (common h).Passes h after) : Retains h after :=
  ⟨passes.guards.globals, fun _ marked => passes.globalsMetatable?.trans marked, passes.grown⟩

/-- The table by which scopes are looked up is still one of those that are there. -/
theorem marker_mem (retains : Retains h after)
    (same : after.globalsMetatable? = h.globalsMetatable?)
    (marker : ∀ m, h.globalsMetatable? = some m → m.index < h.tables.size ∧ m ≠ h.globals) :
    ∀ m, after.globalsMetatable? = some m →
      m.index < after.tables.size ∧ m ≠ after.globals := by
  intro m marked
  obtain ⟨present, other⟩ := marker m (same ▸ marked)
  exact ⟨Nat.lt_of_lt_of_le present retains.grown, retains.globals ▸ other⟩

end Retains

/-- Scopes can be looked up, the tables of a guard are there, and its scope is one of its own. -/
structure Names (h : Heap) (guard : BindingGuard) : Prop where
  marked : ∃ m, h.globalsMetatable? = some m
  scope : guard.scope.index < h.tables.size
  other : guard.scope ≠ h.globals
  previous : ∀ p, guard.previous? = some p → p.index < h.tables.size

theorem Names.keep {h after : Heap} {guard : BindingGuard} (names : Names h guard)
    (retains : Retains h after) : Names after guard :=
  ⟨names.marked.imp fun m => retains.marker m,
    Nat.lt_of_lt_of_le names.scope retains.grown, retains.globals ▸ names.other,
    fun p before => Nat.lt_of_lt_of_le (names.previous p before) retains.grown⟩

/-- A scope that is built and entered is that of a guard whose tables are there. -/
theorem names_of_enter {h built full : Heap} {subject : Subject} {scope : TableId} {enough : Bool}
    (guards : (common h).Guards h)
    (marked : ∃ m, h.globalsMetatable? = some m ∧ m.index < h.tables.size)
    (builds : build subject h = (scope, built)) (counts : Machine.fits built 0 = (enough, full)) :
    (common h).Passes h full ∧ (common h).Passes h (enter scope full).2 ∧
      ∀ engine, Names (enter scope full).2 ⟨engine, scope, (enter scope full).1⟩ := by
  obtain ⟨passes, present⟩ := guards.build subject
  have other : (build subject h).1 ≠ h.globals := fun same =>
    Nat.ne_of_gt (open_common_iff.mp guards.open_globals) (congrArg TableId.index same)
  rw [builds] at passes present other
  have fits := passes.whole.fits 0
  rw [counts] at fits
  have fitted := passes.andThen fits
  obtain ⟨m, marked, there⟩ := marked
  have marker : ∀ m, full.globalsMetatable? = some m → m.index < full.tables.size := by
    rw [fitted.globalsMetatable?, marked]
    rintro _ ⟨⟩
    exact Nat.lt_of_lt_of_le there fitted.grown
  have entered := fitted.whole.enter marker (Nat.lt_of_lt_of_le present fits.grown)
  have retains := Retains.ofPasses (fitted.andThen entered)
  exact ⟨fitted, fitted.andThen entered, fun engine => {
    marked := ⟨m, retains.marker m marked⟩
    scope := Nat.lt_of_lt_of_le present (Nat.le_trans fits.grown entered.grown)
    other := retains.globals ▸ other
    previous := fun p before =>
      Nat.lt_of_lt_of_le (fitted.whole.present_current marker before) entered.grown }⟩

namespace Host

variable {h middle after : Host} {engine : EngineId} {guard : BindingGuard}

/-! ## Engines -/

/-- Everything on an engine leads to tables that are there, and the table by which the host looks
scopes up is one of its own. -/
structure Intact (engine : EngineId) (h : Host) : Prop where
  present : engine.index < h.engines.size
  whole : (h.engine engine).store.Whole
  marker : ∀ m, (h.heap engine).globalsMetatable? = some m →
    m.index < (h.heap engine).tables.size ∧ m ≠ (h.heap engine).globals

/-- An engine stays intact, and the host finds what it goes by. -/
structure Maintains (engine : EngineId) (h after : Host) : Prop where
  intact : Intact engine after
  retains : Retains (h.heap engine) (after.heap engine)

theorem Intact.guards (intact : Intact engine h) :
    (common (h.heap engine)).Guards (h.heap engine) :=
  intact.whole.guards

theorem Intact.globals (intact : Intact engine h) :
    (h.heap engine).globals.index < (h.heap engine).tables.size :=
  open_common_iff.mp intact.guards.open_globals

/-- The heap of an engine may change to any that leads nowhere else. -/
theorem Intact.modifyHeap (intact : Intact engine h) {f : Heap → Heap}
    (guards : (common (f (h.heap engine))).Guards (f (h.heap engine)))
    (globals : (f (h.heap engine)).globals = (h.heap engine).globals)
    (grown : (h.heap engine).tables.size ≤ (f (h.heap engine)).tables.size)
    (marker : ∀ m, (f (h.heap engine)).globalsMetatable? = some m →
      m.index < (f (h.heap engine)).tables.size ∧ m ≠ (f (h.heap engine)).globals) :
    Intact engine (h.modifyHeap engine f) := by
  have later : (common (h.heap engine)).Later (common (f (h.heap engine))) :=
    on_common globals ▸ later_on grown
  have stored : ((h.modifyHeap engine f).engine engine).store =
      { (h.engine engine).store with heap := f (h.heap engine) } := by
    rw [Host.modifyHeap, engine_modifyEngine_self intact.present]
    rfl
  refine ⟨(size_engines_modifyEngine ..).symm ▸ intact.present, ?_, ?_⟩
  · rw [stored]
    exact ⟨guards, intact.whole.paused.mono later⟩
  · rw [heap_modifyHeap intact.present]
    exact marker

namespace Maintains

theorem refl (intact : Intact engine h) : Maintains engine h h := ⟨intact, .refl _⟩

theorem trans (first : Maintains engine h middle) (second : Maintains engine middle after) :
    Maintains engine h after :=
  ⟨second.intact, first.retains.trans second.retains⟩

theorem ofConfines (intact : Intact engine h)
    (confines : ConfinesOn (common (h.heap engine)) engine h after) : Maintains engine h after := by
  have passes := confines.confines.passes
  have retains : Retains (h.heap engine) (after.heap engine) := .ofPasses passes
  have safe := confines.safe
  rw [on_common retains.globals] at safe
  refine ⟨⟨?_, safe, retains.marker_mem passes.globalsMetatable? intact.marker⟩, retains⟩
  rw [confines.runsOn.size]
  exact intact.present

theorem ofPasses (intact : Intact engine h) {f : Heap → Heap}
    (passes : (common (h.heap engine)).Passes (h.heap engine) (f (h.heap engine))) :
    Maintains engine h (h.modifyHeap engine f) := by
  have retains := Retains.ofPasses passes
  refine ⟨intact.modifyHeap passes.whole retains.globals retains.grown
    (retains.marker_mem passes.globalsMetatable? intact.marker), ?_⟩
  rw [heap_modifyHeap intact.present]
  exact retains

/-- What is done beside the store of an engine does not concern it. -/
theorem ofStore (intact : Intact engine h) (size : h.engines.size ≤ after.engines.size)
    (store : (after.engine engine).store = (h.engine engine).store) : Maintains engine h after := by
  have heap : after.heap engine = h.heap engine := congrArg Store.heap store
  refine ⟨⟨Nat.lt_of_lt_of_le intact.present size, store ▸ intact.whole, heap ▸ intact.marker⟩, ?_⟩
  rw [heap]
  exact .refl _

end Maintains

/-! ## Scripts -/

theorem Intact.perform (intact : Intact engine h) {script : Eval (List Value)}
    (yields : (common (h.heap engine)).Yields script) :
    Maintains engine h (h.perform engine script).2 ∧
      ∀ values, (h.perform engine script).1 = .ok values →
        (common ((h.perform engine script).2.heap engine)).Shares values := by
  obtain ⟨confines, shared⟩ := confines_perform intact.present intact.whole yields False.elim
  have maintains := Maintains.ofConfines intact confines
  refine ⟨maintains, fun values performed => ?_⟩
  rw [← on_common maintains.retains.globals]
  exact shared values performed

theorem Intact.callFunction (intact : Intact engine h) {f : Value} {arguments : List Value}
    (function : (common (h.heap engine)).Shares f)
    (shared : (common (h.heap engine)).Shares arguments) :
    Maintains engine h (h.callFunction engine f arguments).2 :=
  (intact.perform (Vault.yields_hostCall function shared)).1

theorem Intact.performOperation (intact : Intact engine h) {operation : Eval (List Value)}
    (yields : (common (h.heap engine)).Yields operation) :
    Maintains engine h (h.performOperation engine operation).2 ∧
      ∀ values, (h.performOperation engine operation).1 = .ok values →
        (common ((h.performOperation engine operation).2.heap engine)).Shares values :=
  intact.perform (yields_reporting yields)

theorem Intact.global (intact : Intact engine h) (name : String) :
    Maintains engine h (h.global engine name).2 ∧
      ∀ v, (h.global engine name).1 = .ok v →
        (common ((h.global engine name).2.heap engine)).Shares v := by
  have key : (common (h.heap engine)).Shares (Value.ofText name) := trivial
  have yields : (common (h.heap engine)).Yields (do
      return [← Operation.index {} none (.table (h.heap engine).globals) (.ofText name)]) :=
    (Vault.yields_index intact.guards.shares_table key).bind fun _ _ _ shared =>
      .pure (Vault.shares_singleton shared)
  obtain ⟨maintains, shared⟩ := intact.performOperation yields
  unfold Host.global field
  dsimp only
  generalize h.performOperation engine _ = performed at maintains shared ⊢
  obtain ⟨result, after⟩ := performed
  refine ⟨maintains, fun v found => ?_⟩
  cases result with
  | error e => cases found
  | ok values =>
      cases found
      exact Vault.shares_firstOf (shared values rfl)

theorem Intact.setField (intact : Intact engine h) {object value : Value} (name : String)
    (shared : (common (h.heap engine)).Shares object)
    (sharedValue : (common (h.heap engine)).Shares value) :
    Maintains engine h (h.setField engine object name value).2 := by
  have key : (common (h.heap engine)).Shares (Value.ofText name) := trivial
  exact (intact.performOperation ((Vault.yields_assign shared key sharedValue).bind
    fun _ _ _ _ => .pure Vault.shares_nil)).1

theorem Intact.load (intact : Intact engine h) (name text : List UInt8) :
    Maintains engine h (h.load engine name text).2 ∧
      ∀ f, (h.load engine name text).1 = .ok f →
        (common ((h.load engine name text).2.heap engine)).Shares f := by
  obtain ⟨confines, shared⟩ := confines_load intact.present intact.whole name text
  have maintains := Maintains.ofConfines intact confines
  exact ⟨maintains, on_common maintains.retains.globals ▸ shared⟩

theorem Intact.execFile (intact : Intact engine h) (path : Path) :
    Maintains engine h (h.execFile engine path).2 := by
  cases found : h.files.read path with
  | error fault =>
      rw [execFile_of_error found]
      exact .refl intact
  | ok text =>
      rw [execFile_of_ok found]
      obtain ⟨loads, shared⟩ :=
        intact.load (64 :: Utf8.bytes path.display) text.data.toList
      unfold Host.exec
      cases loaded : h.load engine (64 :: Utf8.bytes path.display) text.data.toList with
      | mk result middle =>
          rw [loaded] at loads shared
          cases result with
          | error e => exact loads
          | ok f => exact loads.trans (loads.intact.callFunction (shared f rfl) Vault.shares_nil)

/-! ## Search paths -/

theorem Intact.setPackagePath (intact : Intact engine h) (patterns : List UInt8) :
    Maintains engine h (h.setPackagePath engine patterns).2 := by
  obtain ⟨reads, shared⟩ := intact.global "package"
  obtain ⟨middle, ⟨e, found, ends⟩ | ⟨v, found, ⟨_, _, ends⟩ | ⟨p, heap, rfl, assigns⟩⟩⟩ :=
    h.setPackagePath_cases engine patterns
  · rw [found] at reads
    rw [ends]
    exact reads
  · rw [found] at reads
    rw [ends]
    exact reads
  · rw [found] at reads shared
    have library := shared _ rfl
    have passes := reads.intact.guards.fitsHolding p
      (Heap.sizeOf (.string patterns.toByteArray))
    rcases assigns with ⟨room, ends⟩ | ⟨room, ends⟩
    · rw [room] at passes
      rw [ends]
      exact reads.trans (.ofPasses (f := fun _ => _) reads.intact passes)
    · rw [room] at passes
      have roomy : Maintains engine middle (middle.modifyHeap engine fun _ => heap) :=
        .ofPasses (f := fun _ => _) reads.intact passes
      have later : (common (middle.heap engine)).Later (common heap) :=
        on_common passes.guards.globals ▸ later_on passes.grown
      have kept : (common ((middle.modifyHeap engine fun _ => heap).heap engine)).Shares
          (Value.table p) := by
        rw [heap_modifyHeap reads.intact.present]
        exact later.shares library
      rw [ends]
      exact reads.trans (roomy.trans (roomy.intact.setField "path" kept trivial))

theorem Intact.setSearchPaths (intact : Intact engine h) (paths : List Path) :
    Maintains engine h (h.setSearchPaths engine paths).2 := by
  have assigns := intact.setPackagePath (SearchPath.render paths)
  obtain ⟨_, _, _, refused⟩ | ⟨_, middle, ⟨e, assigned, sets⟩ | ⟨assigned, sets⟩⟩ :=
    h.setSearchPaths_cases engine paths
  · rw [refused]
    exact .refl intact
  · rw [assigned] at assigns
    rw [sets]
    exact assigns
  · rw [assigned] at assigns
    rw [sets]
    refine assigns.trans (.ofStore assigns.intact (by simp) ?_)
    rw [engine_modifyEngine_self assigns.intact.present]

/-! ## Bindings -/

/-- The table by which scopes are to be looked up is a new one. -/
theorem Intact.openLookup (intact : Intact engine h) {m : TableId} {heap : Heap}
    (makes : (h.heap engine).newTable lookupTable = (m, heap)) :
    Maintains engine h (h.modifyHeap engine fun _ => heap) ∧
      m.index < ((h.modifyHeap engine fun _ => heap).heap engine).tables.size ∧
      m ≠ (h.heap engine).globals := by
  obtain ⟨rfl, rfl⟩ := Prod.mk.inj makes
  have made := intact.guards.newTable (shows_lookupTable _) fun m linked => by
    rw [Table.metatable?_ofEntries] at linked
    cases linked
  refine ⟨.ofPasses (f := fun _ => _) intact made, ?_, fun same => ?_⟩
  · rw [heap_modifyHeap intact.present]
    simp
  · exact Nat.ne_of_gt intact.globals (congrArg TableId.index same)

/-- The host may take any table but the globals for the one by which it looks scopes up. -/
theorem Maintains.mark (maintains : Maintains engine h after) {m : TableId}
    (unmarked : (h.heap engine).globalsMetatable? = none)
    (there : m.index < (after.heap engine).tables.size) (apart : m ≠ (after.heap engine).globals) :
    Maintains engine h
      (after.modifyHeap engine fun heap => { heap with globalsMetatable? := some m }) := by
  refine ⟨maintains.intact.modifyHeap (maintains.intact.guards.marked _) rfl (Nat.le_refl _) ?_, ?_⟩
  · rintro _ ⟨⟩
    exact ⟨there, apart⟩
  · rw [heap_modifyHeap maintains.intact.present]
    refine ⟨maintains.retains.globals, fun n marked => ?_, maintains.retains.grown⟩
    rw [unmarked] at marked
    cases marked

theorem Intact.installScopes (intact : Intact engine h)
    (unmarked : (h.heap engine).globalsMetatable? = none) :
    Maintains engine h (h.installScopes engine).2 := by
  cases makes : (h.heap engine).newTable lookupTable with
  | mk m heap =>
      obtain ⟨opened, fresh, other⟩ := intact.openLookup makes
      unfold Host.installScopes
      rw [show Table.ofEntries [("__newindex", .builtin (.host .guardAssignment))] = lookupTable
        from rfl, makes]
      dsimp only
      generalize h.modifyHeap engine (fun _ => heap) = start at opened fresh ⊢
      obtain ⟨reads, shared⟩ := opened.intact.global "setmetatable"
      cases read : start.global engine "setmetatable" with
      | mk result middle =>
          rw [read] at reads shared
          have found := opened.trans reads
          cases result with
          | error e => exact found
          | ok v =>
              dsimp only at shared found ⊢
              cases function : asFunction v with
              | error e => exact found
              | ok f =>
                  have present := Nat.lt_of_lt_of_le fresh reads.retains.grown
                  have globals := Nat.lt_of_lt_of_le intact.globals found.retains.grown
                  have calls := found.intact.callFunction
                    (shares_asFunction (shared v rfl) function)
                    (shares_pair (v := .table (h.heap engine).globals) (w := .table m)
                      (open_common_iff.mpr globals) (open_common_iff.mpr present))
                  have whole := found.trans calls
                  dsimp only
                  cases called : middle.callFunction engine f
                      [.table (h.heap engine).globals, .table m] with
                  | mk result last =>
                      rw [called] at calls whole
                      cases result with
                      | error e => exact whole
                      | ok _ =>
                          exact whole.mark unmarked
                            (Nat.lt_of_lt_of_le present calls.retains.grown)
                            (whole.retains.globals ▸ other)

theorem Intact.ensureScopes (intact : Intact engine h) :
    Maintains engine h (h.ensureScopes engine).2 := by
  unfold Host.ensureScopes
  cases marked : (h.heap engine).globalsMetatable? with
  | none => exact intact.installScopes marked
  | some m => exact .refl intact

/-- Once scopes are ensured, the host knows the table by which it looks them up. -/
theorem Intact.marked_of_ensureScopes (intact : Intact engine h)
    (ensures : h.ensureScopes engine = (.ok (), after)) :
    ∃ m, (after.heap engine).globalsMetatable? = some m := by
  unfold Host.ensureScopes at ensures
  cases marked : (h.heap engine).globalsMetatable? with
  | some m =>
      rw [marked] at ensures
      cases ensures
      exact ⟨m, marked⟩
  | none =>
      rw [marked] at ensures
      have present := (intact.installScopes marked).intact.present
      have installs : h.installScopes engine = (.ok (), after) := ensures
      rw [installs] at present
      unfold Host.installScopes at installs
      dsimp only at installs
      split at installs
      · cases installs
      · split at installs
        · cases installs
        · split at installs
          · cases installs
          · cases installs
            rw [Host.modifyHeap, size_engines_modifyEngine] at present
            exact ⟨_, congrArg Heap.globalsMetatable? (heap_modifyHeap present _)⟩

theorem Intact.inject (intact : Intact engine h) (context : Context) (cached : Bool)
    (manager? : Option ManagerId) :
    Maintains engine h (h.inject engine context cached manager?).2 ∧
      ∀ guard, (h.inject engine context cached manager?).1 = .ok guard → guard.engine = engine ∧
        Names ((h.inject engine context cached manager?).2.heap engine) guard := by
  have ensures := intact.ensureScopes
  cases ensured : h.ensureScopes engine with
  | mk result middle =>
      rw [ensured] at ensures
      cases result with
      | error e =>
          rw [inject_of_error ensured]
          exact ⟨ensures, fun _ given => by cases given⟩
      | ok _ =>
          have added : Maintains engine h (middle.addContext context).2 :=
            ensures.trans (.ofStore ensures.intact (Nat.le_refl _) rfl)
          obtain ⟨m, marked⟩ := intact.marked_of_ensureScopes ensured
          have inside := (added.intact.marker m marked).1
          obtain ⟨full, ⟨fits, injects⟩ | ⟨fits, injects⟩⟩ :=
            inject_cases ensured context cached manager?
          · obtain ⟨fitted, _⟩ := names_of_enter added.intact.guards ⟨m, marked, inside⟩ rfl fits
            rw [injects]
            exact ⟨added.trans (.ofPasses (f := fun _ => _) added.intact fitted),
              fun _ given => by cases given⟩
          · obtain ⟨_, entered, names⟩ :=
              names_of_enter added.intact.guards ⟨m, marked, inside⟩ rfl fits
            rw [injects]
            refine ⟨added.trans (.ofPasses (f := fun _ => _) added.intact entered), ?_⟩
            rintro _ ⟨⟩
            refine ⟨rfl, ?_⟩
            dsimp only
            rw [heap_modifyHeap added.intact.present]
            exact names engine

theorem Intact.clear (intact : Intact engine h) {guard : BindingGuard} (own : guard.engine = engine)
    (names : Names (h.heap engine) guard) : Maintains engine h (h.clear engine guard).2 := by
  rw [Host.clear, if_pos own]
  exact .ofPasses intact (intact.guards.leave (fun m marked => (intact.marker m marked).1)
    names.scope names.previous)

theorem Intact.collectGarbage (intact : Intact engine h) :
    Maintains engine h (h.collectGarbage engine) := by
  have same : h.collectGarbage engine = h.modifyHeap engine fun _ =>
      (h.heap engine).collect ((h.engine engine).suspended != 0) := modifyEngine_congr rfl
  rw [same]
  exact .ofPasses (f := fun _ => _) intact (intact.guards.collect _)

/-! ## Invocations -/

theorem Intact.detach (intact : Intact engine h) (guard : StreamGuard) :
    Maintains engine h (h.detach engine guard).2 := by
  obtain ⟨routing, changed⟩ := engine_detach h engine engine guard
  exact .ofStore intact (by simp) (by rw [changed])

theorem Intact.attach (intact : Intact engine h) (sink : Stream) :
    Maintains engine h (h.attach engine sink).2 := by
  obtain ⟨routing, changed⟩ := engine_attach h engine engine sink
  exact .ofStore intact (by simp) (by rw [changed])

/-- The engine of an invocation is intact, and the host may clear the bindings of the invocation. -/
structure Hosted (invocation : Invocation) (h : Host) : Prop where
  intact : Intact invocation.engine h
  own : invocation.bindings.engine = invocation.engine
  names : Names (h.heap invocation.engine) invocation.bindings

variable {id : ManagerId} {context : Context} {invocation : Invocation}

theorem Hosted.maintains (hosted : Hosted invocation h)
    (maintains : Maintains invocation.engine h after) : Hosted invocation after :=
  ⟨maintains.intact, hosted.own, hosted.names.keep maintains.retains⟩

/-- An engine that was intact when it was selected still is when it is ready for its invocation. -/
theorem hosted_of_acquire {selected : Host} {cached : Bool}
    (selects : h.selectEngine id context.policy context.cacheKey = (.ok (engine, cached), selected))
    (intact : Intact engine selected) (acquires : h.acquire id context = (.ok invocation, after)) :
    invocation.engine = engine ∧ Hosted invocation after ∧ Maintains engine selected after := by
  obtain ⟨chosen, injected, same, injects, sets, _⟩ := steps_of_acquire acquires
  rw [selects] at same
  cases same
  have attached := intact.attach context.output
  obtain ⟨enters, guarded⟩ := attached.intact.inject context invocation.cached (some id)
  rw [injects] at enters guarded
  obtain ⟨own, names⟩ := guarded _ rfl
  have assigns := enters.intact.setSearchPaths (injected.effectivePaths id context)
  rw [sets] at assigns
  have whole := attached.trans (enters.trans assigns)
  exact ⟨rfl, ⟨whole.intact, own, names.keep assigns.retains⟩, whole⟩

theorem Hosted.runInvocation (hosted : Hosted invocation h) :
    Maintains invocation.engine h (h.runInvocation invocation).2 :=
  hosted.intact.execFile invocation.context.scriptPath

theorem Hosted.release (hosted : Hosted invocation h) :
    Maintains invocation.engine h (h.release invocation).2 := by
  have clears := hosted.intact.clear hosted.own hosted.names
  have left := clears.trans (clears.intact.detach invocation.stream)
  obtain ⟨_, last | last⟩ := release_eq h invocation
  · rw [last]
    exact left
  · rw [last]
    exact left.trans left.intact.collectGarbage

/-! ## New engines -/

/-- On a new engine there are no handles of the host, of whatever manager. -/
theorem safe_fresh? {id : EngineId} {options : EngineOptions} {output : Stream} {made : Engine}
    (manages : ManagerId → Prop) (built : Engine.fresh? id options output = some made) :
    SafeStore (lending manages made.store.heap) made.store := by
  obtain rfl := eq_of_fresh? built
  have whole : (lending manages Library.wholeHeap).Guards Library.wholeHeap :=
    (guards_wholeHeap manages).shareAll fun _ => not_secret_bare
  have limited : (lending manages (Library.freshHeap options.heapLimit?)).Guards
      (Library.freshHeap options.heapLimit?) := by
    unfold Library.freshHeap
    generalize Library.wholeHeap = h at whole ⊢
    have passes : (lending manages h).Passes h { h with limit? := options.heapLimit? } :=
      whole.rest rfl rfl rfl { whole.rests with }
    exact passes.lends
  have installed := (limited.install rfl id options).lends
  generalize Engine.install id options (Library.freshHeap options.heapLimit?) = heap
    at installed ⊢
  have sized : (lending manages heap).Passes heap { heap with used := Library.freshSize } :=
    installed.rest rfl rfl rfl { installed.rests with }
  refine ⟨sized.lends, fun id pause found => ?_⟩
  simp at found

theorem whole_fresh? {id : EngineId} {options : EngineOptions} {output : Stream} {made : Engine}
    (built : Engine.fresh? id options output = some made) :
    made.store.Whole ∧ made.store.heap.globalsMetatable? = none :=
  ⟨safe_fresh? (fun _ => True) built,
    Unused.globalsMetatable? ⟨id, options, output, made, built, rfl⟩⟩

theorem intact_newEngine {options : EngineOptions}
    (made : h.newEngine options = (.ok engine, after)) : Intact engine after := by
  obtain ⟨rfl, size, built⟩ := fresh?_of_newEngine made
  obtain ⟨whole, unmarked⟩ := whole_fresh? built
  refine ⟨by simp [size], whole, fun m marked => ?_⟩
  rw [Host.heap, unmarked] at marked
  cases marked

/-- Without scripts of the factory, a manager that makes an engine does no more than that. -/
theorem newEngine_of_requestEngine (bare : (h.manager id).factory.initializers = [])
    {options : EngineOptions} (made : h.requestEngine id options = (.ok engine, after)) :
    ∃ start options, Host.newEngine start options = (.ok engine, after) := by
  unfold requestEngine at made
  dsimp only at made
  split at made
  · cases made
  · generalize asked : h.modifyManager id
      (fun m => { m with requested := m.requested ++ [options] }) = start at made
    have bareStart : (start.manager id).factory.initializers = [] := by
      rw [← bare, ← asked]
      simp only [manager, modifyManager, Array.getElem?_modify, if_true]
      cases h.managers[id.index]? <;> rfl
    unfold createEngine at made
    rw [bareStart] at made
    split at made
    · cases made
    · rename_i created
      cases made
      exact ⟨start, _, created⟩

/-- A manager without scripts of its own selects the engine that it has cached, or a new one. -/
theorem cached_or_new {policy : Policy} {key : CacheKey} {cached : Bool} {selected : Host}
    (present : (h.manager id).cache.index < h.caches.size)
    (bare : (h.manager id).factory.initializers = [])
    (selects : h.selectEngine id policy key = (.ok (engine, cached), selected)) :
    policy = .reuse ∧ (h.cacheOf id).get? key = some engine ∧ selected = h ∨
      (policy = .reuse → (h.cacheOf id).get? key = none) ∧ h.engines.size ≤ engine.index ∧
        Scope.Unused (selected.heap engine) ∧ Intact engine selected := by
  obtain reused | ⟨missing, requested, made, stores⟩ := reused_or_requested present selects
  · exact .inl reused
  · have engines := stores.engines
    have same : selected.engine engine = requested.engine engine := by
      rw [Host.engine, engines, Host.engine]
    obtain ⟨_, _, created⟩ := newEngine_of_requestEngine bare made
    have intact := intact_newEngine created
    refine .inr ⟨missing, (new_requestEngine made).1, ?_, ?_⟩
    · rw [Host.heap, same]
      exact unused_newEngine created
    · exact (Maintains.ofStore intact (Nat.le_of_eq (congrArg Array.size engines.symm))
        (congrArg Engine.store same)).intact

theorem setup_selectEngine (policy : Policy) (key : CacheKey)
    (present : (h.manager id).cache.index < h.caches.size) :
    ((h.selectEngine id policy key).2.manager id).setup = (h.manager id).setup ∧
      (h.selectEngine id policy key).2.caches.size = h.caches.size := by
  rcases selectEngine_cases h id policy key present with ⟨_, _, _, _, chosen⟩ | ⟨_, _, _, stores⟩
  · rw [chosen]
    exact ⟨rfl, rfl⟩
  · have serves := serves_requestEngine h id (.ofPolicy policy)
    refine ⟨?_, stores.caches.trans serves.caches⟩
    rw [Host.manager, stores.managers]
    exact setup_manager serves.managers id

/-- With engines reused, the one that was selected is the one that is cached from then on. -/
theorem get?_of_reuse {key : CacheKey} {cached : Bool} {selected : Host}
    (present : (h.manager id).cache.index < h.caches.size)
    (selects : h.selectEngine id .reuse key = (.ok (engine, cached), selected)) :
    (selected.cacheOf id).get? key = some engine := by
  have kept := cache_of_setup (setup_selectEngine .reuse key present).1
  obtain ⟨_, found, rfl⟩ | ⟨_, requested, _, stores⟩ := reused_or_requested present selects
  · exact found
  · rw [selects] at kept
    rw [cacheOf, kept, stores.get?]
    exact if_pos ⟨rfl, rfl, rfl⟩

end Host

end ScriptHost
