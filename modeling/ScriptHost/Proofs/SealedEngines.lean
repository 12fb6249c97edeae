import ScriptHost.Host.Invocation
import ScriptHost.Proofs.GlobalAccess
import ScriptHost.Proofs.SafeRuns
import ScriptHost.Proofs.SecretScopes

/-!
# Engines that keep their secrets

What a host does on one engine, with scripts that use the globals in the ordinary way: the scopes
that the engine had stay out of their reach, and only an injection and its clearing change which
of them is in front.
-/

set_option autoImplicit false

namespace ScriptHost

open Lua Scope

/-! ## Globals as scripts see them -/

namespace Lua.Vault

variable {V W : Vault} {h after : Heap} {setting : Library.Setting} {calls : Nat} {place : Place}
  {label? : Option Label}

/-- A global as scripts see it. -/
def seen (V : Vault) (h : Heap) (name : String) : Value :=
  if (h.rawGetText h.globals name).isNil then
    ((V.front? h).map fun scope => h.rawGetText scope name).getD .nil
  else h.rawGetText h.globals name

theorem Seals.evaluates_index (seals : V.Seals h) (name : String) :
    ∃ steps ≤ 2, Evaluates setting calls steps h
      (Operation.index place label? (.table h.globals) (.ofText name)) (.ok (V.seen h name)) h := by
  unfold seen
  cases absent : (h.rawGetText h.globals name).isNil with
  | false => exact ⟨1, by decide, Evaluates.index_found (lookUp_table_of_value absent)⟩
  | true =>
      have looked := lookUp_table_of_nil (Value.eq_nil_of_isNil absent)
      have link := seals.link seals.tended
      rw [← seals.globals] at link
      rw [if_pos rfl]
      cases linked : V.lookup? with
      | none =>
          rw [linked] at link
          rw [metamethod_of_metatable?_eq_none link] at looked
          rw [front?_of_unlinked linked]
          exact ⟨1, by decide, Evaluates.index_found looked⟩
      | some m =>
          rw [linked] at link
          rw [metamethod_of_metatable?_eq_some link] at looked
          rw [front?_of_lookup? linked, current?_of_link (seals.marker m linked)]
          rcases (seals.lookup m linked).index with none | ⟨scope, found, known⟩
          · rw [none] at looked ⊢
            exact ⟨1, by decide, Evaluates.index_found looked⟩
          · rw [found] at looked ⊢
            exact ⟨1 + 1, by decide, Evaluates.index_forward looked
              (Evaluates.index_found (lookUp_table_of_plain (seals.plain scope (.inr known)) name))⟩

theorem Seals.shares_seen (seals : V.Seals h) (name : String) : V.Shares (V.seen h name) := by
  unfold seen
  split
  · cases front : V.front? h with
    | none => trivial
    | some scope => exact (seals.scope scope (seals.scope_of_front? front)).2 (.ofText name)
  · refine seals.shares_rawGet ?_ (.ofText name)
    rw [seals.globals]
    exact seals.open_globals.2

/-- When a new scope has gone again, scripts see what they saw before, but that a binding may be
absent where it was nil. -/
theorem Closes.seen (closes : V.Closes W h after) (seals : V.Seals h) (binding : Binding)
    (before : h.rawGetText h.globals binding.name = .nil)
    (now : after.rawGetText after.globals binding.name = .nil) :
    W.seen after binding.name = V.seen h binding.name ∨
      V.seen h binding.name = .nil ∧ W.seen after binding.name = .null := by
  have same : ∀ {scope : TableId}, V.front? h = some scope →
      after.rawGetText scope binding.name = h.rawGetText scope binding.name := by
    intro scope front
    rw [Heap.rawGetText, Heap.rawGet, closes.scopes scope (seals.scope_of_front? front)]
    rfl
  rw [Vault.seen, Vault.seen, before, now]
  rcases closes.front with front | ⟨none, isBlank⟩
  · rw [front]
    cases found : V.front? h with
    | none => exact .inl rfl
    | some scope => exact .inl (same found)
  · rw [none]
    cases found : W.front? after with
    | none => exact .inl rfl
    | some scope => exact .inr ⟨rfl, isBlank scope found binding⟩

end Lua.Vault

namespace Host

variable {V W X : Vault} {engine : EngineId} {h middle after : Host}

/-! ## Programs -/

theorem ConfinesOn.refl (safe : SafeStore V (h.engine engine).store) : ConfinesOn V engine h h :=
  ⟨.refl engine h, .refl safe⟩

theorem ConfinesOn.trans (first : ConfinesOn V engine h middle)
    (second : ConfinesOn (V.on (middle.heap engine)) engine middle after) :
    ConfinesOn V engine h after :=
  ⟨first.runsOn.trans second.runsOn, first.confines.trans second.confines⟩

theorem ConfinesOn.present (confines : ConfinesOn V engine h after)
    (present : engine.index < h.engines.size) : engine.index < after.engines.size := by
  rw [confines.runsOn.size]
  exact present

theorem confines_modifyHeap (present : engine.index < h.engines.size)
    (safe : SafeStore V (h.engine engine).store) {heap : Heap}
    (passes : V.Passes (h.heap engine) heap) :
    ConfinesOn V engine h (h.modifyHeap engine fun _ => heap) := by
  refine ⟨.modifyHeap engine h _, ?_⟩
  rw [Host.modifyHeap, engine_modifyEngine_self present]
  exact ⟨passes, safe.paused.mono (safe.guards.later passes)⟩

/-- A text is made a function that holds nothing secret. -/
theorem confines_load (present : engine.index < h.engines.size)
    (safe : SafeStore V (h.engine engine).store) (name text : List UInt8) :
    ConfinesOn V engine h (h.load engine name text).2 ∧
      ∀ f, (h.load engine name text).1 = .ok f →
        (V.on ((h.load engine name text).2.heap engine)).Shares f := by
  have guards : V.Guards (h.heap engine) := safe.guards
  obtain ⟨passes, shared⟩ := guards.loadText name text guards.shares_table
  have confines := confines_modifyHeap present safe passes
  have reached := heap_modifyHeap present fun _ =>
    (Library.loadText name text (.table (h.heap engine).globals) (h.heap engine)).2
  unfold Host.load
  split
  · exact ⟨.refl safe, fun f loaded => by cases loaded⟩
  · dsimp only
    split
    · rename_i loaded
      rw [loaded] at confines shared reached
      refine ⟨confines, fun f same => ?_⟩
      dsimp only at reached ⊢
      rw [reached]
      exact Except.ok.inj same ▸ shared
    · rename_i failed
      rw [failed] at confines
      exact ⟨confines, fun f same => by cases same⟩

/-- The scripts of a text, if it is one, use the globals in the ordinary way. -/
def OrdinaryExec (h : Host) (engine : EngineId) (name text : List UInt8) : Prop :=
  ∀ f after, h.load engine name text = (.ok f, after) →
    after.Ordinary engine (Library.hostCall f [])

/-- A program keeps secrets, and asks for nothing that it has no handle of. -/
theorem confines_exec (present : engine.index < h.engines.size)
    (safe : SafeStore V (h.engine engine).store) (name text : List UInt8)
    (ordinary : V.tended → h.OrdinaryExec engine name text) :
    ConfinesOn V engine h (h.exec engine name text).2 ∧
      ∀ request ∈ h.execRequests engine name text, V.Grants request := by
  obtain ⟨loads, shared⟩ := confines_load present safe name text
  unfold Host.exec execRequests
  cases loaded : h.load engine name text with
  | mk result middle =>
      rw [loaded] at loads shared
      cases result with
      | error e => exact ⟨loads, fun _ member => nomatch member⟩
      | ok f =>
          have yields : (V.on (middle.heap engine)).Yields (Library.hostCall f []) :=
            Vault.yields_hostCall (shared f rfl) Vault.shares_nil
          have uses : (V.on (middle.heap engine)).tended →
              middle.Ordinary engine (Library.hostCall f []) :=
            fun tended => ordinary tended f middle loaded
          obtain ⟨calls, _⟩ := confines_perform (loads.present present) loads.safe yields uses
          refine ⟨loads.trans calls, fun request asked => ?_⟩
          have granted := grants_perform loads.safe yields uses request asked
          exact granted.of_on

/-! ## Sealed engines -/

/-- The store of an engine keeps secrets. -/
structure Sealed (V : Vault) (engine : EngineId) (h : Host) : Prop where
  present : engine.index < h.engines.size
  seals : V.Seals (h.heap engine)
  paused : V.SafePaused (h.engine engine).store.paused

theorem Sealed.store (sealed : Sealed V engine h) : SafeStore V (h.engine engine).store :=
  ⟨sealed.seals.toGuards, sealed.paused⟩

/-- An engine goes on to keep its secrets. Whether globals are looked up in scopes is settled once
the host has installed its metatable. -/
structure Onward (V W : Vault) (engine : EngineId) (h after : Host) : Prop where
  later : V.Later W
  sealed : Sealed W engine after
  settled : ∀ m, (h.heap engine).globalsMetatable? = some m →
    (after.heap engine).globalsMetatable? = some m ∧ W.lookup? = V.lookup?

/-- An engine goes on to keep its secrets, and the scope in front stays. -/
structure Bides (V W : Vault) (engine : EngineId) (h after : Host) : Prop extends
    Onward V W engine h after where
  stays : V.Stays W (h.heap engine) (after.heap engine)

theorem Onward.trans (first : Onward V W engine h middle) (second : Onward W X engine middle after) :
    Onward V X engine h after where
  later := first.later.trans second.later
  sealed := second.sealed
  settled m marked := by
    obtain ⟨between, same⟩ := first.settled m marked
    obtain ⟨last, further⟩ := second.settled m between
    exact ⟨last, further.trans same⟩

namespace Bides

theorem refl (sealed : Sealed V engine h) : Bides V V engine h h :=
  ⟨⟨.refl V, sealed, fun _ marked => ⟨marked, rfl⟩⟩, fun _ _ => rfl, rfl⟩

theorem trans (first : Bides V W engine h middle) (second : Bides W X engine middle after) :
    Bides V X engine h after :=
  ⟨first.toOnward.trans second.toOnward, first.stays.trans second.stays first.later⟩

theorem ofConfines (sealed : Sealed V engine h) (confines : ConfinesOn V engine h after) :
    Bides V (V.on (after.heap engine)) engine h after := by
  have passes := confines.confines.passes
  have guards := sealed.seals.toGuards
  refine ⟨⟨guards.later passes, ⟨?_, sealed.seals.passes passes, confines.confines.paused⟩,
    fun m marked => ⟨passes.globalsMetatable?.trans marked, rfl⟩⟩, passes.stays guards⟩
  rw [confines.runsOn.size]
  exact sealed.present

end Bides

theorem Sealed.modifyHeap (sealed : Sealed V engine h) {f : Heap → Heap} (later : V.Later W)
    (seals : W.Seals (f (h.heap engine))) : Sealed W engine (h.modifyHeap engine f) := by
  refine ⟨(size_engines_modifyEngine ..).symm ▸ sealed.present, ?_, ?_⟩
  · rw [heap_modifyHeap sealed.present]
    exact seals
  · rw [Host.modifyHeap, engine_modifyEngine_self sealed.present]
    exact sealed.paused.mono later

/-- What is done beside the store of an engine does not concern its secrets. -/
theorem Bides.ofStore (sealed : Sealed V engine h) (size : h.engines.size ≤ after.engines.size)
    (store : (after.engine engine).store = (h.engine engine).store) : Bides V V engine h after := by
  have heap : after.heap engine = h.heap engine := congrArg Store.heap store
  refine ⟨⟨.refl V, ⟨Nat.lt_of_lt_of_le sealed.present size, ?_, ?_⟩, fun m marked => ?_⟩, ?_⟩
  · rw [heap]
    exact sealed.seals
  · rw [store]
    exact sealed.paused
  · rw [heap]
    exact ⟨marked, rfl⟩
  · rw [heap]
    exact ⟨fun _ _ => rfl, rfl⟩

theorem Bides.ofPasses (sealed : Sealed V engine h) {heap : Heap}
    (passes : V.Passes (h.heap engine) heap) :
    Bides V (V.on heap) engine h (h.modifyHeap engine fun _ => heap) := by
  have guards := sealed.seals.toGuards
  have later := guards.later passes
  have reached := heap_modifyHeap sealed.present fun _ => heap
  refine ⟨⟨later, sealed.modifyHeap later (sealed.seals.passes passes), fun m marked => ?_⟩, ?_⟩
  · rw [reached]
    exact ⟨passes.globalsMetatable?.trans marked, rfl⟩
  · rw [reached]
    exact passes.stays guards

/-! ## Scripts -/

theorem Sealed.global (sealed : Sealed V engine h) (name : String) :
    h.global engine name = (.ok (V.seen (h.heap engine) name), h) := by
  obtain ⟨steps, few, settles⟩ :=
    @Vault.Seals.evaluates_index V _ setting 0 {} none sealed.seals name
  have whole : Evaluates setting 0 (steps + 0) (h.heap engine)
      (do return [← Operation.index {} none (.table (h.heap engine).globals) (.ofText name)])
      (.ok [V.seen (h.heap engine) name]) (h.heap engine) := settles.bind (Evaluates.pure _)
  rw [Host.global, field, performOperation_of_evaluates whole (by decide) (by omega),
    modifyHeap_heap]
  rfl

def OrdinaryFile (h : Host) (engine : EngineId) (path : Path) : Prop :=
  ∀ text, h.files.read path = .ok text →
    h.OrdinaryExec engine (64 :: Utf8.bytes path.display) text.data.toList

theorem Sealed.callFunction (sealed : Sealed V engine h) {f : Value} {arguments : List Value}
    (function : V.Shares f) (shared : V.Shares arguments)
    (ordinary : h.Ordinary engine (Library.hostCall f arguments)) :
    Bides V (V.on ((h.callFunction engine f arguments).2.heap engine)) engine h
      (h.callFunction engine f arguments).2 :=
  .ofConfines sealed (confines_perform sealed.present sealed.store
    (Vault.yields_hostCall function shared) fun _ => ordinary).1

theorem Sealed.load (sealed : Sealed V engine h) (name text : List UInt8) :
    ∃ W, Bides V W engine h (h.load engine name text).2 ∧
      ∀ f, (h.load engine name text).1 = .ok f → W.Shares f := by
  obtain ⟨confines, shared⟩ := confines_load sealed.present sealed.store name text
  exact ⟨_, .ofConfines sealed confines, shared⟩

theorem Sealed.exec (sealed : Sealed V engine h) {name text : List UInt8}
    (ordinary : h.OrdinaryExec engine name text) :
    ∃ W, Bides V W engine h (h.exec engine name text).2 :=
  ⟨_, .ofConfines sealed (confines_exec sealed.present sealed.store name text fun _ => ordinary).1⟩

theorem execFile_of_error {path : Path} {fault : ReadFault} (unread : h.files.read path = .error fault) :
    h.execFile engine path = (.error (.ofReadFault path fault), h) := by
  rw [execFile, loadFile, unread]

theorem execFile_of_ok {path : Path} {text : ByteArray} (found : h.files.read path = .ok text) :
    h.execFile engine path =
      h.exec engine (64 :: Utf8.bytes path.display) text.data.toList := by
  rw [execFile, loadFile, found]
  rfl

theorem Sealed.execFile (sealed : Sealed V engine h) {path : Path}
    (ordinary : h.OrdinaryFile engine path) :
    ∃ W, Bides V W engine h (h.execFile engine path).2 := by
  cases found : h.files.read path with
  | error fault =>
      rw [execFile_of_error found]
      exact ⟨V, .refl sealed⟩
  | ok text =>
      rw [execFile_of_ok found]
      exact sealed.exec (ordinary text found)

/-! ## Search paths -/

/-- The library that a host assigns the patterns of modules in, when there is room for them. -/
def OrdinaryPaths (h : Host) (engine : EngineId) (paths : List Path) : Prop :=
  let text : Value := .string (SearchPath.render paths).toByteArray
  ∀ package after v heap, h.global engine "package" = (.ok v, after) → asTable v = .ok package →
    Machine.fitsHolding package (after.heap engine) (Heap.sizeOf text) = (true, heap) →
    (after.modifyHeap engine fun _ => heap).Ordinary engine (reporting do
      Operation.assign {} none (.table package) (.ofText "path") text
      return [])

theorem yields_reporting {operation : Eval (List Value)} (yields : V.Yields operation) :
    V.Yields (reporting operation) := by
  refine yields.protect.bind fun W result _ shared => ?_
  cases result with
  | ok values => exact .pure shared
  | error thrown => exact (Vault.yields_failureOf shared).bind fun _ _ _ _ => .failure _

theorem Sealed.setPackagePath (sealed : Sealed V engine h) {paths : List Path}
    (ordinary : h.OrdinaryPaths engine paths) :
    ∃ W, Bides V W engine h (h.setPackagePath engine (SearchPath.render paths)).2 := by
  have read := sealed.global "package"
  have shared := sealed.seals.shares_seen "package"
  obtain ⟨middle, ⟨e, fails, _⟩ | ⟨v, reads, ⟨_, _, refused⟩ | ⟨p, heap, rfl, assigns⟩⟩⟩ :=
    h.setPackagePath_cases engine (SearchPath.render paths)
  · rw [read] at fails
    cases fails
  · rw [read] at reads
    cases reads
    rw [refused]
    exact ⟨V, .refl sealed⟩
  · rw [read] at reads
    obtain ⟨found, rfl⟩ := Prod.mk.inj reads
    rw [Except.ok.inj found] at shared
    rcases assigns with ⟨room, failed⟩ | ⟨room, assigned⟩
    · have made := sealed.seals.fitsHolding p (Heap.sizeOf (.string
        (SearchPath.render paths).toByteArray))
      rw [room] at made
      rw [failed]
      exact ⟨_, .ofPasses sealed made⟩
    · have made := sealed.seals.fitsHolding p (Heap.sizeOf (.string
        (SearchPath.render paths).toByteArray))
      rw [room] at made
      have roomy : Bides V _ engine h (h.modifyHeap engine fun _ => heap) := .ofPasses sealed made
      have key : V.Shares (Value.ofText "path") := trivial
      have patterns : V.Shares (Value.string (SearchPath.render paths).toByteArray) := trivial
      have assigns : V.Yields (do
          Operation.assign {} none (.table p) (.ofText "path")
            (.string (SearchPath.render paths).toByteArray)
          return [] : Eval (List Value)) :=
        (Vault.yields_assign shared key patterns).bind fun _ _ _ _ => .pure Vault.shares_nil
      rw [assigned]
      exact ⟨_, roomy.trans (.ofConfines roomy.sealed (confines_perform roomy.sealed.present
        roomy.sealed.store (yields_reporting (assigns.mono roomy.later)) fun _ =>
          ordinary _ _ _ _ read (congrArg asTable (Except.ok.inj found)) room).1)⟩

theorem Sealed.setSearchPaths (sealed : Sealed V engine h) {paths : List Path}
    (ordinary : h.OrdinaryPaths engine paths) :
    ∃ W, Bides V W engine h (h.setSearchPaths engine paths).2 := by
  obtain ⟨W, assigns⟩ := sealed.setPackagePath ordinary
  obtain ⟨_, _, _, refused⟩ | ⟨_, middle, ⟨_, assigned, sets⟩ | ⟨assigned, sets⟩⟩ :=
    h.setSearchPaths_cases engine paths
  · rw [refused]
    exact ⟨V, .refl sealed⟩
  · rw [assigned] at assigns
    rw [sets]
    exact ⟨W, assigns⟩
  · rw [assigned] at assigns
    rw [sets]
    refine ⟨W, assigns.trans (.ofStore assigns.sealed (by simp) ?_)⟩
    rw [engine_modifyEngine_self assigns.sealed.present]

/-! ## The metatable of the globals -/

/-- If a script has replaced `setmetatable` before the host needs it, then what stands in its place
uses globals in the ordinary way as well. -/
def OrdinaryInstall (h : Host) (engine : EngineId) : Prop :=
  let (metatable, heap) := (h.heap engine).newTable Vault.lookupTable
  ∀ f after v, (h.modifyHeap engine fun _ => heap).global engine "setmetatable" = (.ok v, after) →
    asFunction v = .ok f → f ≠ .builtin (.base .setmetatable) →
    after.Ordinary engine (Library.hostCall f [.table (h.heap engine).globals, .table metatable])

theorem rawGetText_fits {heap : Heap} {id : TableId} {name : String}
    (absent : heap.rawGetText id name = .nil) (bytes : Nat) :
    (Machine.fits heap bytes).2.rawGetText id name = .nil := by
  unfold Machine.fits
  split
  · exact absent
  · split
    · exact absent
    · rw [Heap.rawGetText_collect true fun _ => by rw [absent]; rfl, absent]

theorem shares_asFunction {v f : Value} (shared : V.Shares v) (function : asFunction v = .ok f) :
    V.Shares f := by
  cases v with
  | builtin b =>
      obtain rfl := Except.ok.inj function
      exact shared
  | closure id =>
      obtain rfl := Except.ok.inj function
      exact shared
  | _ => cases function

theorem unshadowed_fits {heap middle : Heap} (unshadowed : Unshadowed heap)
    (present : heap.globals.index < heap.tables.size)
    (fitted : (Machine.fits (heap.newTable Vault.lookupTable).2 0).2 = middle) :
    Unshadowed middle := by
  intro binding
  have globals : middle.globals = heap.globals := by
    rw [← fitted]
    exact (Heap.Steady.fits (fun _ _ => False) (heap.newTable Vault.lookupTable).2 0).globals
  rw [globals, ← fitted]
  refine rawGetText_fits ?_ 0
  rw [Heap.rawGetText, Heap.rawGet, Heap.table_newTable_of_lt present]
  exact unshadowed binding

/-- By the function `setmetatable` itself, the globals get a metatable that scripts do not see. -/
theorem Sealed.linkScopes (sealed : Sealed V engine h) (unlinked : V.lookup? = none)
    (unmarked : (h.heap engine).globalsMetatable? = none)
    (unshadowed : Unshadowed (h.heap engine)) {heap : Heap}
    (fitted : (Machine.fits ((h.heap engine).newTable Vault.lookupTable).2 0).2 = heap) :
    ∃ W, Bides V W engine h (h.modifyHeap engine fun _ =>
      heap.linkGlobals ((h.heap engine).newTable Vault.lookupTable).1) := by
  have seals := sealed.seals
  obtain ⟨_, hidden⟩ :=
    seals.hideTable (Vault.shows_lookupTable V) (Table.metatable?_ofEntries _)
  have passes := hidden.fits 0
  rw [fitted] at passes
  have globals : (h.heap engine).globals.index < (h.heap engine).tables.size := by
    rw [seals.size, seals.globals]
    exact seals.open_globals.1
  obtain ⟨W, later, linked, stays⟩ :=
    seals.install unlinked passes (unshadowed_fits unshadowed globals fitted)
  have reached := heap_modifyHeap sealed.present
    fun _ => heap.linkGlobals ((h.heap engine).newTable Vault.lookupTable).1
  refine ⟨W, ⟨later, sealed.modifyHeap later linked, fun m marked => ?_⟩, ?_⟩
  · rw [unmarked] at marked
    cases marked
  · rw [reached]
    exact stays

/-- By another function, the globals get no metatable, but the host takes a table for theirs. -/
theorem Bides.markScopes {m : TableId} (bides : Bides V W engine h middle)
    (unmarked : (h.heap engine).globalsMetatable? = none) (unlinked : W.lookup? = none)
    (isOpen : W.Open m) :
    Bides V W engine h (middle.modifyHeap engine fun heap =>
      { heap with globalsMetatable? := some m }) := by
  have reached := heap_modifyHeap bides.sealed.present fun heap =>
    { heap with globalsMetatable? := some m }
  refine ⟨⟨bides.later, bides.sealed.modifyHeap (.refl W)
    (bides.sealed.seals.mark unlinked isOpen), fun n marked => ?_⟩, ?_⟩
  · rw [unmarked] at marked
    cases marked
  · rw [reached]
    refine ⟨bides.stays.scopes, ?_⟩
    rw [← bides.stays.front, Vault.front?_of_unlinked unlinked, Vault.front?_of_unlinked unlinked]

/-- What the host makes of a call that should give the globals a metatable. -/
def Installs (V : Vault) (engine : EngineId) (h : Host) (m : TableId) :
    Except EngineError (List Value) × Host → Prop
  | (.error _, last) => ∃ W, Bides V W engine h last
  | (.ok _, last) => ∃ W, Bides V W engine h
      (last.modifyHeap engine fun heap => { heap with globalsMetatable? := some m })

theorem Sealed.bides_lookupTable (sealed : Sealed V engine h) :
    Bides V (V.on ((h.heap engine).newTable Vault.lookupTable).2) engine h
      (h.modifyHeap engine fun _ => ((h.heap engine).newTable Vault.lookupTable).2) := by
  refine .ofPasses sealed (sealed.seals.newTable (Vault.shows_lookupTable V) fun m linked => ?_)
  rw [Table.metatable?_ofEntries] at linked
  cases linked

theorem Sealed.installs_setmetatable (sealed : Sealed V engine h)
    (unmarked : (h.heap engine).globalsMetatable? = none)
    (unshadowed : Unshadowed (h.heap engine)) :
    let (m, heap) := (h.heap engine).newTable Vault.lookupTable
    Installs V engine h m ((h.modifyHeap engine fun _ => heap).callFunction engine
      (.builtin (.base .setmetatable)) [.table (h.heap engine).globals, .table m]) := by
  have unlinked := sealed.seals.unlinked unmarked
  have made := sealed.bides_lookupTable
  obtain ⟨W, linked⟩ := sealed.linkScopes unlinked unmarked unshadowed rfl
  have globals : ((h.heap engine).newTable Vault.lookupTable).2.globals = (h.heap engine).globals :=
    rfl
  dsimp only
  generalize ((h.heap engine).newTable Vault.lookupTable).1 = m at linked ⊢
  generalize ((h.heap engine).newTable Vault.lookupTable).2 = heap at made linked globals ⊢
  have opened : (h.modifyHeap engine fun _ => heap).heap engine = heap :=
    heap_modifyHeap sealed.present _
  have plain : (((h.modifyHeap engine fun _ => heap).heap engine).table
      (h.heap engine).globals).metatable? = none := by
    have link := made.sealed.seals.link made.sealed.seals.tended
    rw [← made.sealed.seals.globals, opened, globals] at link
    rw [opened, link]
    exact unlinked
  rcases callFunction_setmetatable_fits (m := m)
      (metamethod_of_metatable?_eq_none plain _) with called | ⟨e, failed⟩
  · have kept : (Machine.fits heap 0).2.globals = (h.heap engine).globals :=
      (Heap.Steady.fits (fun _ _ => False) heap 0).globals.trans globals
    rw [called, opened]
    refine ⟨W, ?_⟩
    rw [modifyHeap_modifyHeap, modifyHeap_modifyHeap]
    rw [Heap.linkGlobals, kept] at linked
    exact linked
  · rw [failed]
    exact ⟨_, made.trans (.ofPasses made.sealed (made.sealed.seals.fits 0))⟩

theorem Bides.installs_call {m : TableId} {f : Value} {arguments : List Value}
    (made : Bides V W engine h middle) (unmarked : (h.heap engine).globalsMetatable? = none)
    (unlinked : W.lookup? = none) (isOpen : W.Open m) (function : W.Shares f)
    (shared : W.Shares arguments) (ordinary : middle.Ordinary engine (Library.hostCall f arguments)) :
    Installs V engine h m (middle.callFunction engine f arguments) := by
  have calls := made.sealed.callFunction function shared ordinary
  cases called : middle.callFunction engine f arguments with
  | mk result last =>
      rw [called] at calls
      cases result with
      | error e => exact ⟨_, made.trans calls⟩
      | ok values =>
          exact ⟨_, (made.trans calls).markScopes unmarked unlinked (calls.later.open isOpen)⟩

theorem Sealed.installScopes (sealed : Sealed V engine h)
    (unmarked : (h.heap engine).globalsMetatable? = none)
    (unshadowed : Unshadowed (h.heap engine)) (ordinary : h.OrdinaryInstall engine) :
    ∃ W, Bides V W engine h (h.installScopes engine).2 ∧
      ((h.installScopes engine).1 = .ok () →
        ((h.installScopes engine).2.heap engine).globalsMetatable? ≠ none) := by
  have made := sealed.bides_lookupTable
  have plainly := sealed.installs_setmetatable unmarked unshadowed
  have isOpen := sealed.seals.open_new Vault.lookupTable
  have globals := made.later.wider.shares sealed.seals.shares_table
  have read := made.sealed.global "setmetatable"
  have shared := made.sealed.seals.shares_seen "setmetatable"
  unfold Host.OrdinaryInstall at ordinary
  unfold Host.installScopes
  generalize (h.heap engine).newTable Vault.lookupTable = table at *
  obtain ⟨m, heap⟩ := table
  dsimp only at *
  rw [read]
  dsimp only
  cases function : asFunction ((V.on heap).seen ((h.modifyHeap engine fun _ => heap).heap engine)
      "setmetatable") with
  | error e => exact ⟨_, made, fun done => by cases done⟩
  | ok f =>
      have installs : Installs V engine h m ((h.modifyHeap engine fun _ => heap).callFunction engine
          f [.table (h.heap engine).globals, .table m]) := by
        by_cases builtin : f = .builtin (.base .setmetatable)
        · rw [builtin]
          exact plainly
        · exact made.installs_call unmarked (sealed.seals.unlinked unmarked) isOpen
            (shares_asFunction shared function) (Vault.shares_pair globals isOpen)
            (ordinary f _ _ read function builtin)
      dsimp only
      cases called : (h.modifyHeap engine fun _ => heap).callFunction engine f
          [.table (h.heap engine).globals, .table m] with
      | mk result last =>
          rw [called] at installs
          cases result with
          | error e =>
              obtain ⟨W, bides⟩ := installs
              exact ⟨W, bides, fun done => by cases done⟩
          | ok values =>
              obtain ⟨W, bides⟩ := installs
              have present : engine.index < last.engines.size := by
                have there := bides.sealed.present
                rwa [Host.modifyHeap, size_engines_modifyEngine] at there
              refine ⟨W, bides, fun _ => ?_⟩
              dsimp only
              rw [heap_modifyHeap present]
              exact Option.some_ne_none m

theorem Sealed.ensureScopes (sealed : Sealed V engine h)
    (unshadowed : Unshadowed (h.heap engine))
    (ordinary : (h.heap engine).globalsMetatable? = none → h.OrdinaryInstall engine) :
    ∃ W, Bides V W engine h (h.ensureScopes engine).2 ∧
      ((h.ensureScopes engine).1 = .ok () →
        ((h.ensureScopes engine).2.heap engine).globalsMetatable? ≠ none) := by
  unfold Host.ensureScopes
  cases marked : (h.heap engine).globalsMetatable? with
  | none => exact sealed.installScopes marked unshadowed (ordinary marked)
  | some m => exact ⟨V, .refl sealed, fun _ => by simp [marked]⟩

/-! ## Bindings -/

/-- What an injection does to an engine: a new scope is in front, and the host holds it. -/
structure Shields (V W : Vault) (engine : EngineId) (h after : Host) (guard : BindingGuard) : Prop
    extends Onward V W engine h after where
  own : guard.engine = engine
  covers : W.Covers guard
  opens : V.Opens W (h.heap engine) (after.heap engine) guard
  marked : (after.heap engine).globalsMetatable? ≠ none

/-- An engine goes on to keep its secrets, and a scope in front has gone again. -/
structure Unwinds (V W : Vault) (engine : EngineId) (h after : Host) : Prop extends
    Onward V W engine h after where
  closes : V.Closes W (h.heap engine) (after.heap engine)

theorem Bides.unwinds (bides : Bides V W engine h after) : Unwinds V W engine h after :=
  ⟨bides.toOnward, bides.stays.closes⟩

theorem Bides.shields (first : Bides V W engine h middle) {guard : BindingGuard}
    (second : Shields W X engine middle after guard) : Shields V X engine h after guard where
  toOnward := first.toOnward.trans second.toOnward
  own := second.own
  covers := second.covers
  opens := {
    scopes := fun id known => (second.opens.scopes id (first.later.scope id known)).trans
      (first.stays.scopes id known)
    fresh := fun known => second.opens.fresh (first.later.scope _ known)
    front := second.opens.front
    previous := fun linked => (second.opens.previous linked).trans first.stays.front }
  marked := second.marked

/-- Until the scope in front is left, scripts may run. -/
theorem Shields.bides {guard : BindingGuard} (first : Shields V W engine h middle guard)
    (second : Bides W X engine middle after) : Shields V X engine h after guard := by
  obtain ⟨m, marked⟩ := Option.ne_none_iff_exists'.mp first.marked
  obtain ⟨kept, same⟩ := second.settled m marked
  refine ⟨first.toOnward.trans second.toOnward, first.own, first.covers.mono second.later same,
    ⟨fun id known => ?_, first.opens.fresh, fun linked => ?_, fun linked => ?_⟩, by simp [kept]⟩
  · exact (second.stays.scopes id (first.later.scope id known)).trans (first.opens.scopes id known)
  · exact second.stays.front.trans (first.opens.front (same ▸ linked))
  · exact first.opens.previous (same ▸ linked)

/-- A new scope is built out of sight, and if there is room for it, it is entered. -/
theorem Sealed.enterScope (sealed : Sealed V engine h)
    (marked : (h.heap engine).globalsMetatable? ≠ none) (subject : Subject) {full : Heap}
    {enough : Bool}
    (fitted : Machine.fits (build subject (h.heap engine)).2 0 = (enough, full)) :
    (∃ W, Bides V W engine h (h.modifyHeap engine fun _ => full)) ∧
    ∃ W, Shields V W engine h
      (h.modifyHeap engine fun _ => (enter (build subject (h.heap engine)).1 full).2)
      ⟨engine, (build subject (h.heap engine)).1,
        (enter (build subject (h.heap engine)).1 full).1⟩ := by
  obtain ⟨X, built⟩ := sealed.seals.build subject
  have adds := built.passes (built.seals.fits 0)
  rw [fitted] at adds
  have enters := adds.enter engine
  generalize (build subject (h.heap engine)).1 = scope at adds enters ⊢
  refine ⟨⟨_, ⟨adds.later, sealed.modifyHeap adds.later adds.seals, fun m marked => ?_⟩, ?_⟩,
    _, ⟨enters.later, sealed.modifyHeap enters.later enters.seals, fun m marked => ?_⟩, rfl,
    enters.covers, ?_, ?_⟩
  · rw [heap_modifyHeap sealed.present]
    exact ⟨adds.globalsMetatable?.trans marked, adds.lookup?⟩
  · rw [heap_modifyHeap sealed.present]
    exact adds.stays
  · rw [heap_modifyHeap sealed.present]
    exact ⟨enters.globalsMetatable?.trans marked, enters.lookup?⟩
  · rw [heap_modifyHeap sealed.present]
    exact enters.opens
  · rw [heap_modifyHeap sealed.present, enters.globalsMetatable?]
    exact marked

/-- Bindings are shown in a scope of their own, or not at all. -/
theorem Sealed.inject (sealed : Sealed V engine h) (unshadowed : Unshadowed (h.heap engine))
    (ordinary : (h.heap engine).globalsMetatable? = none → h.OrdinaryInstall engine)
    (context : Context) (cached : Bool) (manager? : Option ManagerId) :
    (∃ e W, (h.inject engine context cached manager?).1 = .error e ∧
      Bides V W engine h (h.inject engine context cached manager?).2) ∨
    ∃ guard W, (h.inject engine context cached manager?).1 = .ok guard ∧
      Shields V W engine h (h.inject engine context cached manager?).2 guard := by
  obtain ⟨W, ensures, marks⟩ := sealed.ensureScopes unshadowed ordinary
  cases ensured : h.ensureScopes engine with
  | mk result middle =>
      rw [ensured] at ensures marks
      cases result with
      | error e =>
          rw [inject_of_error ensured]
          exact .inl ⟨e, W, rfl, ensures⟩
      | ok _ =>
          have marked := marks rfl
          have added : Bides V W engine h (middle.addContext context).2 :=
            ensures.trans (.ofStore ensures.sealed (Nat.le_refl _) rfl)
          obtain ⟨full, ⟨fitted, injects⟩ | ⟨fitted, injects⟩⟩ :=
            inject_cases ensured context cached manager?
          · obtain ⟨⟨X, bides⟩, _⟩ := added.sealed.enterScope marked _ fitted
            rw [injects]
            exact .inl ⟨_, X, rfl, added.trans bides⟩
          · obtain ⟨_, Y, shields⟩ := added.sealed.enterScope marked _ fitted
            rw [injects]
            exact .inr ⟨_, Y, rfl, added.shields shields⟩

/-- Clearing bindings goes on to keep secrets, and takes a scope in front away again. -/
theorem Sealed.clear (sealed : Sealed W engine h) {guard : BindingGuard} (own : guard.engine = engine)
    (covers : W.Covers guard) :
    ∃ X, Onward W X engine h (h.clear engine guard).2 ∧ X.lookup? = W.lookup? ∧
      ∀ {V : Vault} {before : Host}, Shields V W engine before h guard →
        Unwinds V X engine before (h.clear engine guard).2 := by
  obtain ⟨seals, later, marker, closes⟩ := sealed.seals.leave covers
  have reached := heap_modifyHeap sealed.present (leave guard)
  rw [Host.clear, if_pos own]
  dsimp only
  have onward : Onward W (W.on (leave guard (h.heap engine))) engine h
      (h.modifyHeap engine (leave guard)) := by
    refine ⟨later, sealed.modifyHeap later seals, fun m marked => ?_⟩
    rw [reached]
    exact ⟨marker.trans marked, rfl⟩
  refine ⟨_, onward, rfl, fun shields => ⟨shields.toOnward.trans onward, ?_⟩⟩
  rw [reached]
  exact closes shields.opens shields.later

theorem Sealed.collectGarbage (sealed : Sealed V engine h) :
    ∃ W, Bides V W engine h (h.collectGarbage engine) := by
  have same : h.collectGarbage engine = h.modifyHeap engine fun _ =>
      (h.heap engine).collect ((h.engine engine).suspended != 0) := modifyEngine_congr rfl
  rw [same]
  exact ⟨_, .ofPasses sealed (sealed.seals.toGuards.collect _)⟩

theorem Unwinds.bides (first : Unwinds V W engine h middle) (second : Bides W X engine middle after) :
    Unwinds V X engine h after := by
  refine ⟨first.toOnward.trans second.toOnward, fun id known => ?_, ?_⟩
  · exact (second.stays.scopes id (first.later.scope id known)).trans
      (first.closes.scopes id known)
  · rw [second.stays.front]
    rcases first.closes.front with same | ⟨none, isBlank⟩
    · exact .inl same
    · refine .inr ⟨none, fun s front binding => ?_⟩
      have known := first.sealed.seals.scope_of_front? front
      rw [Heap.rawGetText, Heap.rawGet, second.stays.scopes s known]
      exact isBlank s front binding

theorem Unwinds.binding (unwinds : Unwinds V W engine h after) (sealed : Sealed V engine h)
    (before : Unshadowed (h.heap engine)) (now : Unshadowed (after.heap engine))
    (binding : Binding) :
    (after.binding engine binding).1 = (h.binding engine binding).1 ∨
      (h.binding engine binding).1 = .ok .nil ∧ (after.binding engine binding).1 = .ok .null := by
  rw [Host.binding, unwinds.sealed.global, Host.binding, sealed.global]
  rcases unwinds.closes.seen sealed.seals binding (before binding) (now binding) with
    same | ⟨absent, null⟩
  · exact .inl (congrArg Except.ok same)
  · exact .inr ⟨congrArg Except.ok absent, congrArg Except.ok null⟩

end Host

end ScriptHost
