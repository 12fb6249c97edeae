import ScriptHost.Proofs.CacheEffects
import ScriptHost.Proofs.SealedEngines
import ScriptHost.Proofs.TableContents

/-!
# New engines keep their secrets

A new engine has no secrets, and the scripts that prepare it come to none. Of all engines that
are there when a manager has selected one, only a new one is not as it was.
-/

set_option autoImplicit false

namespace ScriptHost

open Lua Scope

/-! ## Heaps without secrets -/

namespace Lua

namespace Vault

/-- No table of a heap is secret, and scripts may have handles of the given managers. -/
def bare (manages : ManagerId → Prop) (h : Heap) : Vault :=
  ⟨h.globals, none, fun _ => False, h.tables.size, True, manages⟩

variable {manages : ManagerId → Prop} {h after : Heap}

/-- Whether a value is none of the tables that are not there. -/
def isWithin (size : Nat) : Value → Bool
  | .table id => id.index < size
  | _ => true

/-- Whether nothing in a heap leads beyond its tables, the globals have no metatable, and there are
no handles of the host yet. -/
def isClosed (h : Heap) : Bool :=
  let within := isWithin h.tables.size
  let has (id : TableId) : Bool := id.index < h.tables.size
  (h.table h.globals).metatable?.isNone && has h.globals && h.stringMetatable?.all has &&
    has h.arrayMetatable && has h.loaded && h.cells.all within &&
    (h.closures.all fun
      | .native _ captured => captured.all within
      | .script .. => true) &&
    (h.coroutines.all fun c => within c.body) && h.userdata.isEmpty &&
    h.tables.all fun t => t.metatable?.all has &&
      t.liveOrder.all fun k => within k.value && within (t.get k)

theorem not_secret_bare {id : TableId} : ¬ (bare manages h).Secret id := by
  rintro (linked | known)
  · cases linked
  · exact known

theorem open_bare {id : TableId} (present : id.index < h.tables.size) : (bare manages h).Open id :=
  ⟨present, not_secret_bare⟩

theorem shares_bare {v : Value} (within : isWithin h.tables.size v = true) :
    (bare manages h).Shares v := by
  cases v with
  | table id => exact open_bare (by simpa [isWithin] using within)
  | _ => trivial

theorem guards_bare (closed : isClosed h = true) (manages : ManagerId → Prop) :
    (bare manages h).Guards h := by
  simp only [isClosed, Bool.and_eq_true, decide_eq_true_eq, Option.isNone_iff_eq_none] at closed
  obtain ⟨⟨⟨⟨⟨⟨⟨⟨⟨plain, globals⟩, strings⟩, arrays⟩, loaded⟩, cells⟩, closures⟩, bodies⟩, handles⟩,
    tables⟩ := closed
  have table : ∀ id : TableId, (∀ m, (h.table id).metatable? = some m → (bare manages h).Open m) ∧
      (bare manages h).Shows (h.table id) := by
    intro id
    unfold Heap.table
    cases found : h.tables[id.index]? with
    | none =>
        refine ⟨fun m linked => ?_, shows_empty _⟩
        cases linked
    | some t =>
        have checked := Array.all_eq_true'.mp tables t (Array.mem_of_getElem? found)
        simp only [Bool.and_eq_true, List.all_eq_true] at checked
        obtain ⟨metatable, fields⟩ := checked
        refine ⟨fun m linked => ?_, fun k live => ?_⟩
        · rw [Option.getD_some] at linked
          rw [linked, Option.all_some, decide_eq_true_eq] at metatable
          exact open_bare metatable
        · obtain ⟨key, value⟩ := fields k (Table.mem_liveOrder_of_live live)
          exact ⟨shares_bare key, shares_bare value⟩
  refine {
    globals := rfl
    size := rfl
    open_globals := open_bare globals
    present := fun id secret => absurd secret not_secret_bare
    plain := fun id secret => absurd secret not_secret_bare
    tends := fun linked => absurd rfl linked
    link := fun _ => plain
    marker := fun m linked => by cases linked
    lookup := fun m linked => by cases linked
    scope := fun _ known => known.elim
    shows := fun id _ => (table id).2
    metatable := fun id m _ _ linked => (table id).1 m linked
    unshadowed := fun linked => absurd rfl linked
    rests := ⟨fun m linked => ?_, open_bare arrays, open_bare loaded, fun v member => ?_,
      fun c member => ?_, fun c member => ?_, fun r member => ?_⟩ }
  · rw [linked, Option.all_some, decide_eq_true_eq] at strings
    exact open_bare strings
  · exact shares_bare (Array.all_eq_true'.mp cells v member)
  · have checked := Array.all_eq_true'.mp closures c member
    cases c with
    | script chunk proto captured => trivial
    | native f captured =>
        exact fun v member => shares_bare (List.all_eq_true.mp checked v member)
  · exact shares_bare (Array.all_eq_true'.mp bodies c member)
  · rw [Array.isEmpty_iff.mp handles] at member
    exact absurd member (Array.not_mem_empty r)

theorem guards_wholeHeap (manages : ManagerId → Prop) :
    (bare manages Library.wholeHeap).Guards Library.wholeHeap :=
  guards_bare (by decide +kernel) manages

theorem seals_wholeHeap : (bare (fun _ => True) Library.wholeHeap).Seals Library.wholeHeap := by
  refine ⟨guards_wholeHeap _, trivial, fun _ => trivial, fun m marked => ?_⟩
  have unmarked : Library.wholeHeap.globalsMetatable? = none := by decide +kernel
  rw [unmarked] at marked
  cases marked

theorem seals_freshHeap (limit? : Option Nat) :
    ∃ V : Vault, V.Seals (Library.freshHeap limit?) ∧ V.lookup? = none := by
  have whole := seals_wholeHeap
  unfold Library.freshHeap
  generalize Library.wholeHeap = h at whole ⊢
  have passes : (bare _ h).Passes h { h with limit? } :=
    whole.toGuards.rest rfl rfl rfl { whole.rests with }
  exact ⟨_, whole.passes passes, rfl⟩

variable {V : Vault}

theorem shares_helpers (id : EngineId) (options : EngineOptions) :
    ∀ entry ∈ Engine.helpers id options, V.Shares entry.2 := by
  intro entry member
  simp only [Engine.helpers, List.mem_cons, List.not_mem_nil, or_false] at member
  rcases member with rfl | rfl | rfl | rfl | rfl <;> trivial

theorem Guards.install (guards : V.Guards h) (unlinked : V.lookup? = none) (id : EngineId)
    (options : EngineOptions) : V.Passes h (Engine.install id options h) := by
  have assign : ∀ {W : Vault} {h : Heap} {t : TableId} {v : Value} (name : String),
      W.lookup? = none → W.Guards h → W.Open t → W.Shares v →
        W.Passes h (h.rawSetText t name v) := by
    intro W h t v name unlinked guards isOpen shared
    have key : W.Shares (Key.ofText name).value := trivial
    exact guards.rawSet isOpen key shared fun _ linked => absurd unlinked linked
  obtain ⟨made, isOpen⟩ := guards.shares_newTable (shows_ofEntries (shares_helpers id options))
    fun m linked => by
      rw [Table.metatable?_ofEntries] at linked
      cases linked
  simp only [Engine.install]
  generalize h.newTable (.ofEntries (Engine.helpers id options)) = table at made isOpen ⊢
  obtain ⟨t, opened⟩ := table
  dsimp only at made isOpen ⊢
  have value : (V.on opened).Shares (Value.table t) := isOpen
  have named := made.trans (assign "cinder" unlinked made.guards made.guards.shares_table value)
  have print : ∀ W : Vault, W.Shares (Value.builtin (.host .print)) := fun _ => trivial
  have printed := named.trans
    (assign "print" unlinked named.guards named.guards.shares_table (print _))
  generalize (opened.rawSetText opened.globals "cinder" (.table t)) = h₁ at printed ⊢
  generalize h₁.rawSetText h₁.globals "print" (.builtin (.host .print)) = h₂ at printed ⊢
  split
  · rename_i io found
    have globals : ¬ (V.on h₂).Secret h₂.globals := by
      rw [printed.guards.globals]
      exact printed.guards.open_globals.2
    have shared := printed.guards.shares_rawGet globals (.ofText "io")
    rw [← Heap.rawGetText, found] at shared
    have write : (V.on h₂).Shares (Value.builtin (.host .write)) := trivial
    exact printed.trans (assign "write" unlinked printed.guards shared write)
  · exact printed

end Vault

end Lua

namespace Host

variable {V W : Vault} {engine : EngineId} {h middle after : Host}

theorem seals_fresh? {id : EngineId} {options : EngineOptions} {output : Stream} {made : Engine}
    (built : Engine.fresh? id options output = some made) :
    made.routing = { output } ∧ ∃ V : Vault, V.Seals made.store.heap ∧ V.lookup? = none ∧
      V.SafePaused made.store.paused := by
  obtain rfl := eq_of_fresh? built
  obtain ⟨V, seals, unlinked⟩ := Vault.seals_freshHeap options.heapLimit?
  have passes := seals.toGuards.install unlinked id options
  generalize Engine.install id options (Library.freshHeap options.heapLimit?) = heap at passes ⊢
  have sized : (V.on heap).Passes heap { heap with used := Library.freshSize } :=
    passes.guards.rest rfl rfl rfl { passes.guards.rests with }
  refine ⟨rfl, _, (seals.passes passes).passes sized, unlinked, fun id pause found => ?_⟩
  simp at found

theorem sealed_newEngine {options : EngineOptions}
    (made : h.newEngine options = (.ok engine, after)) :
    engine = ⟨h.engines.size⟩ ∧ after.engines.size = h.engines.size + 1 ∧
      after.routing engine = { output := ⟨"stdout", ⟨h.writers.size⟩⟩ } ∧
      ∃ V, Sealed V engine after ∧ V.lookup? = none := by
  obtain ⟨rfl, size, built⟩ := fresh?_of_newEngine made
  obtain ⟨routing, V, seals, unlinked, paused⟩ := seals_fresh? built
  exact ⟨rfl, size, routing, V, ⟨by simp [size], seals, paused⟩, unlinked⟩

/-! ## Scripts that prepare engines -/

/-- The scripts that prepare an engine use the globals in the ordinary way. -/
def OrdinaryPrepare (h : Host) (engine : EngineId) (index : Nat) : List String → Prop
  | [] => True
  | script :: scripts =>
    h.OrdinaryExec engine (Utf8.bytes s!"init{index}") (Utf8.bytes script) ∧
      ∀ values after, h.exec engine (Utf8.bytes s!"init{index}") (Utf8.bytes script) =
        (.ok values, after) → after.OrdinaryPrepare engine (index + 1) scripts

def OrdinaryCreate (h : Host) (factory : Factory) (options : EngineOptions) : Prop :=
  ∀ engine made, h.newEngine (factory.effective options) = (.ok engine, made) →
    made.OrdinaryPrepare engine 0 factory.initializers

def OrdinaryRequest (h : Host) (id : ManagerId) (options : EngineOptions) : Prop :=
  let h := h.modifyManager id fun m => { m with requested := m.requested ++ [options] }
  h.OrdinaryCreate (h.manager id).factory options

/-- The scripts that prepare an engine for a manager, if it has one made, use the globals in the
ordinary way. -/
def OrdinarySelect (h : Host) (id : ManagerId) (policy : Policy) (key : CacheKey) : Prop :=
  (policy = .reuse → (h.cacheOf id).get? key = none) → h.OrdinaryRequest id (.ofPolicy policy)

theorem Sealed.prepare (sealed : Sealed V engine h) {index : Nat} {scripts : List String}
    (ordinary : h.OrdinaryPrepare engine index scripts) :
    ∃ W, Bides V W engine h (h.prepare engine index scripts).2 := by
  induction scripts generalizing V h index with
  | nil => exact ⟨V, .refl sealed⟩
  | cons script scripts ih =>
      obtain ⟨first, rest⟩ := ordinary
      obtain ⟨W, runs⟩ := sealed.exec first
      unfold Host.prepare
      cases ran : h.exec engine (Utf8.bytes s!"init{index}") (Utf8.bytes script) with
      | mk result middle =>
          rw [ran] at runs
          cases result with
          | error e => exact ⟨W, runs⟩
          | ok values =>
              obtain ⟨X, others⟩ := ih runs.sealed (rest values middle ran)
              exact ⟨X, runs.trans others⟩

/-- What a selection does to engines: there may be a new one, which has no scopes in front, and
the standard output. -/
structure Makes (h after : Host) : Prop where
  grows : Grows h after
  output : ∀ engine, h.engines.size ≤ engine.index → engine.index < after.engines.size →
    after.output engine = ⟨"stdout", ⟨h.writers.size⟩⟩
  bare : ∀ engine, h.engines.size ≤ engine.index → engine.index < after.engines.size →
    ∃ V, Sealed V engine after ∧ V.front? (after.heap engine) = none

theorem Makes.ofEngines (engines : after.engines = h.engines) (contexts : after.contexts = h.contexts) :
    Makes h after where
  grows := .ofEngines engines contexts
  output engine missing present := by
    rw [engines] at present
    exact absurd present (Nat.not_lt_of_ge missing)
  bare engine missing present := by
    rw [engines] at present
    exact absurd present (Nat.not_lt_of_ge missing)

/-- What happens beside the engines after a selection, or before it, makes none. -/
theorem Makes.andThen (makes : Makes h middle) (engines : after.engines = middle.engines)
    (contexts : after.contexts = middle.contexts) : Makes h after where
  grows := makes.grows.trans (.ofEngines engines contexts)
  output engine missing present := by
    rw [engines] at present
    rw [Host.output, Host.routing, Host.engine, engines]
    exact makes.output engine missing present
  bare engine missing present := by
    rw [engines] at present
    obtain ⟨V, sealed, none⟩ := makes.bare engine missing present
    have same : after.engine engine = middle.engine engine := by rw [Host.engine, engines]; rfl
    refine ⟨V, ⟨engines ▸ sealed.present, ?_, ?_⟩, ?_⟩
    · rw [heap, same]
      exact sealed.seals
    · rw [same]
      exact sealed.paused
    · rw [heap, same]
      exact none

theorem newEngine_of_error {options : EngineOptions} {e : EngineError}
    (failed : h.newEngine options = (.error e, after)) :
    after.engines = h.engines ∧ after.contexts = h.contexts := by
  unfold newEngine at failed
  dsimp only at failed
  split at failed
  · cases failed
  · cases failed
    exact ⟨rfl, rfl⟩

theorem makes_createEngine {factory : Factory} {options : EngineOptions}
    (ordinary : h.OrdinaryCreate factory options) :
    Makes h (h.createEngine factory options).2 := by
  have grows := grows_createEngine h factory options
  have created : ∀ new start, h.newEngine (factory.effective options) = (.ok new, start) →
      (h.createEngine factory options).2 = (start.prepare new 0 factory.initializers).2 := by
    intro new start opened
    unfold createEngine
    rw [opened]
    dsimp only
    cases start.prepare new 0 factory.initializers with
    | mk result last => cases result <;> rfl
  cases opened : h.newEngine (factory.effective options) with
  | mk result start =>
      cases result with
      | error e =>
          obtain ⟨engines, contexts⟩ := newEngine_of_error opened
          rw [createEngine, opened]
          exact .ofEngines engines contexts
      | ok new =>
          rw [created new start opened] at grows ⊢
          obtain ⟨rfl, size, routing, V, sealed, unlinked⟩ := sealed_newEngine opened
          obtain ⟨W, prepares⟩ := sealed.prepare (ordinary _ _ opened)
          have runs := runsOn_prepare start ⟨h.engines.size⟩ factory.initializers 0
          have only : ∀ engine : EngineId, h.engines.size ≤ engine.index →
              engine.index < (start.prepare ⟨h.engines.size⟩ 0 factory.initializers).2.engines.size →
              engine = ⟨h.engines.size⟩ := by
            intro engine missing present
            rw [runs.size, size] at present
            have same : engine.index = h.engines.size := by omega
            cases engine
            exact congrArg EngineId.mk same
          refine ⟨grows, fun engine missing present => ?_, fun engine missing present => ?_⟩
          · rw [only engine missing present, output, runs.routing, routing]
          · rw [only engine missing present]
            refine ⟨W, prepares.sealed, ?_⟩
            rw [prepares.stays.front, Vault.front?_of_unlinked unlinked]

theorem makes_requestEngine {id : ManagerId} {options : EngineOptions}
    (ordinary : h.OrdinaryRequest id options) : Makes h (h.requestEngine id options).2 := by
  unfold requestEngine
  dsimp only
  split
  · exact .ofEngines rfl rfl
  · have counted : Grows h
        (h.modifyManager id fun m => { m with requested := m.requested ++ [options] }) :=
      .ofEngines rfl rfl
    have makes := makes_createEngine ordinary
    exact ⟨counted.trans makes.grows, makes.output, makes.bare⟩

theorem makes_selectEngine {id : ManagerId} {policy : Policy} {key : CacheKey}
    (ordinary : h.OrdinarySelect id policy key) : Makes h (h.selectEngine id policy key).2 := by
  have requests : (policy = .reuse → (h.cacheOf id).get? key = none) →
      Makes h (h.requestEngine id (.ofPolicy policy)).2 :=
    fun missing => makes_requestEngine (ordinary missing)
  unfold selectEngine
  dsimp only
  cases policy with
  | reuse =>
      cases found : (h.cache (h.manager id).cache).get? key with
      | some engine => exact .ofEngines rfl rfl
      | none => exact (requests fun _ => found).andThen rfl rfl
  | refresh =>
      have makes := requests fun same => by cases same
      cases made : h.requestEngine id (.ofPolicy .refresh) with
      | mk result middle =>
          rw [made] at makes
          cases result with
          | error e => exact makes
          | ok engine => exact makes.andThen rfl rfl
  | clean => exact requests fun same => by cases same
  | fullIsolation => exact requests fun same => by cases same

end Host

end ScriptHost
