import ScriptHost.Proofs.Acquisitions
import ScriptHost.Proofs.GuardedEntries
import ScriptHost.Proofs.Separation

/-!
# Engines whose globals the host tends

Injecting and clearing, acquiring and releasing keep the globals of an engine as they are and go on
tending them. An acquisition also assigns a field of the package library; it must not be one that
scripts, or the host itself, look globals up in.
-/

set_option autoImplicit false

namespace ScriptHost

open Lua Heap Scope

namespace Scope

variable {h after : Heap} {guards : List BindingGuard} {guard : BindingGuard}

/-- The global `package`, if it is a table, is none in which globals are looked up, and its path is
assigned without metamethods. -/
def PackageApart (h : Heap) (guards : List BindingGuard) : Prop :=
  ∀ p, h.rawGetText h.globals "package" = .table p →
    Assignable h p ∧ p ≠ h.globals ∧ ¬ HostScope h guards p

/-- An engine on which no scope can be looked up yet. The function `setmetatable`, by which that
will change, is that of the library, and nothing keeps the globals from getting a metatable. -/
structure Pending (h : Heap) : Prop where
  globals : h.globals.index < h.tables.size
  globalsMetatable? : h.globalsMetatable? = none
  setter : h.rawGetText h.globals "setmetatable" = .builtin (.base .setmetatable)
  unprotected : ∀ m, (h.table h.globals).metatable? = some m →
    m.index < h.tables.size ∧ h.rawGetText m "__metatable" = .nil

theorem Pending.unprotected_globals (pending : Pending h) :
    h.metamethod (.table h.globals) "__metatable" = .nil := by
  cases linked : (h.table h.globals).metatable? with
  | none => exact metamethod_of_metatable?_eq_none linked _
  | some m =>
      rw [metamethod_of_metatable?_eq_some linked]
      exact (pending.unprotected m linked).2

theorem Pending.newTable (pending : Pending h) (t : Table) : Pending (h.newTable t).2 := by
  have same : ∀ id : TableId, id.index < h.tables.size →
      (h.newTable t).2.table id = h.table id := fun id inside => table_newTable_of_lt inside t
  refine ⟨?_, pending.globalsMetatable?, ?_, fun m linked => ?_⟩
  · rw [size_tables_newTable]
    exact Nat.lt_succ_of_lt pending.globals
  · exact (congrArg (Table.get · _) (same _ pending.globals)).trans pending.setter
  · rw [show (h.newTable t).2.globals = h.globals from rfl, same _ pending.globals] at linked
    obtain ⟨inside, absent⟩ := pending.unprotected m linked
    rw [size_tables_newTable]
    exact ⟨Nat.lt_succ_of_lt inside, (congrArg (Table.get · _) (same m inside)).trans absent⟩

theorem eq_setmetatable_of_installer {v : Value} (installer : Installer v)
    (callable : v.typeName = "function") : v = .builtin (.base .setmetatable) := by
  cases v with
  | builtin f => exact congrArg Value.builtin installer
  | closure id => exact installer.elim
  | _ => simp [Value.typeName] at callable

theorem typeName_setmetatable_freshHeap (limit? : Option Nat) :
    ((Library.freshHeap limit?).rawGetText (Library.freshHeap limit?).globals
      "setmetatable").typeName = "function" := by
  have whole : (Library.wholeHeap.rawGetText Library.wholeHeap.globals "setmetatable").typeName =
      "function" := by decide +kernel
  unfold Library.freshHeap
  generalize Library.wholeHeap = h at whole ⊢
  exact whole

/-- An engine that no script has run on is like this. -/
theorem Unused.pending (unused : Unused h) : Pending h := by
  have ready := unused.ready
  have none := unused.globalsMetatable?
  refine ⟨ready.orderly.globals, none,
    eq_setmetatable_of_installer (ready.orderly.setmetatable none) ?_, fun m linked => ?_⟩
  · obtain ⟨id, options, rfl⟩ := unused.exists_install
    have fresh := (ready_freshHeap options.heapLimit?).orderly
    have kept := fresh.rawGetText_globals
      (steady_install id options (Library.freshHeap options.heapLimit?)).toKeeps
      (not_helperFields (show "setmetatable" ∉ ["cinder", "print", "write"] by decide) _)
    have callable := typeName_setmetatable_freshHeap options.heapLimit?
    rw [← kept] at callable
    generalize Engine.install id options (Library.freshHeap options.heapLimit?) = h at callable ⊢
    exact callable
  · rw [ready.orderly.link, none] at linked
    cases linked

/-- The globals have become tended. An entry may be gone if a script had made them weak. -/
structure Opened (h after : Heap) : Prop where
  tended : Tended after []
  current : current? after = none
  keeps : Keeps (fun _ _ => False) h after
  entries : ∀ k, after.rawGet after.globals k = h.rawGet h.globals k ∨
    after.rawGet after.globals k = .nil

/-- A new metatable is given to the globals, by which no scope can be looked up yet. -/
theorem opened_of_link {middle : Heap} {m : TableId} (globals : h.globals.index < h.tables.size)
    (keeps : Keeps (fun _ _ => False) h middle)
    (entries : ∀ k, middle.rawGet middle.globals k = h.rawGet h.globals k ∨
      middle.rawGet middle.globals k = .nil)
    (candidate : Candidate middle m) (other : m ≠ middle.globals) :
    Opened h { middle.modifyTable middle.globals fun t => { t with metatable? := some m } with
      globalsMetatable? := some m } := by
  have linked := Keeps.setGlobalsMetatable candidate.present candidate.mode fun _ _ => False
  have whole : Keeps (fun _ _ => False) h
      { middle.modifyTable middle.globals fun t => { t with metatable? := some m } with
        globalsMetatable? := some m } :=
    (keeps.andThen linked).andThen (.ofTables rfl rfl rfl fun _ _ found => found)
  have fields := rawGet_setMetatable middle middle.globals (some m)
  have present : middle.globals.index < middle.tables.size := by
    rw [keeps.globals]
    exact Nat.lt_of_lt_of_le globals keeps.grown
  have current : current? { middle.modifyTable middle.globals
      fun t => { t with metatable? := some m } with globalsMetatable? := some m } = none := by
    have index : Heap.rawGetText { middle.modifyTable middle.globals
        fun t => { t with metatable? := some m } with globalsMetatable? := some m } m "__index" =
          .nil := (fields m _).trans candidate.index
    rw [current?_of_link (m := m) rfl, index]
  refine ⟨⟨Nat.lt_of_lt_of_le present linked.grown, ⟨m, rfl, ?_⟩, ?_⟩, current, whole, fun k => ?_⟩
  · refine ⟨congrArg Table.metatable? (table_modifyTable_self present _),
      Nat.lt_of_lt_of_le candidate.present linked.grown, ?_, ?_, ?_, .inl ?_⟩
    · exact (congrArg Table.metatable? (table_modifyTable_of_ne other _)).trans candidate.metatable?
    · exact (fields m _).trans candidate.mode
    · exact (fields m _).trans candidate.newindex
    · exact (fields m _).trans candidate.index
  · rintro id (entered | ⟨guard, member, _⟩)
    · rw [current] at entered
      cases entered
    · cases member
  · rcases entries k with same | nil
    · exact .inl ((fields middle.globals k).trans same)
    · exact .inr ((fields middle.globals k).trans nil)

theorem Opened.packageApart (opened : Opened h after) (apart : PackageApart h []) :
    PackageApart after [] := by
  intro p found
  have before : h.rawGetText h.globals "package" = .table p := by
    rcases opened.entries (.ofText "package") with same | nil
    · exact same.symm.trans found
    · rw [show after.rawGet after.globals (.ofText "package") =
        after.rawGetText after.globals "package" from rfl, found] at nil
      cases nil
  obtain ⟨assignable, noGlobals, _⟩ := apart p before
  refine ⟨assignable.keep opened.keeps False.elim, ?_, ?_⟩
  · rw [opened.keeps.globals]
    exact noGlobals
  · rintro (entered | ⟨guard, member, _⟩)
    · rw [opened.current] at entered
      cases entered
    · cases member

/-- A new scope is not the package library, which was there before. -/
theorem Entered.packageApart (entered : Entered h after guards guard)
    (apart : PackageApart h guards) : PackageApart after (guards ++ [guard]) := by
  intro p found
  have before : h.rawGetText h.globals "package" = .table p :=
    (entered.minds.entries (.ofText "package")).symm.trans found
  obtain ⟨assignable, noGlobals, noScope⟩ := apart p before
  have old : guard.scope ≠ p := by
    rintro rfl
    exact Nat.not_lt_of_ge entered.fresh assignable.present
  refine ⟨assignable.keep entered.keeps fun same => absurd same (Key.ofText_ne (by decide)), ?_, ?_⟩
  · rw [entered.keeps.globals]
    exact noGlobals
  · rintro (current | ⟨other, member, named⟩)
    · rw [entered.current] at current
      exact old (Option.some.inj current)
    · rcases List.mem_append.mp member with earlier | new
      · exact noScope (.inr ⟨other, earlier, named⟩)
      · rw [List.mem_singleton.mp new, entered.previous] at named
        exact named.elim old fun current => noScope (.inl current)

end Scope

namespace Host

variable {h after : Host} {engine : EngineId} {guards : List BindingGuard}

/-! ## Injections -/

theorem global_setmetatable_of_pending (pending : Pending (h.heap engine)) :
    h.global engine "setmetatable" = (.ok (.builtin (.base .setmetatable)), h) := by
  rw [global_of_value (by rw [pending.setter]; rfl), pending.setter]

/-- Either scopes can be looked up from then on, or the attempt has failed. -/
theorem ensureScopes_of_pending (pending : Pending (h.heap engine)) :
    (∃ after, h.ensureScopes engine = (.ok (), after) ∧
      Opened (h.heap engine) (after.heap engine)) ∨
    ∃ e, (h.ensureScopes engine).1 = .error e ∧
      ((h.ensureScopes engine).2.heap engine).globalsMetatable? = none := by
  have present := present_of_globals pending.globals
  rw [ensureScopes, pending.globalsMetatable?]
  simp only [installScopes]
  have candidate := candidate_new (h.heap engine)
  have ready := pending.newTable (.ofEntries [("__newindex", .builtin (.host .guardAssignment))])
  have steady := Steady.newTable (fun _ _ => False) (h.heap engine)
    (.ofEntries [("__newindex", .builtin (.host .guardAssignment))])
  have same := table_newTable_of_lt pending.globals
    (.ofEntries [("__newindex", .builtin (.host .guardAssignment))])
  have other : ((h.heap engine).newTable
      (.ofEntries [("__newindex", .builtin (.host .guardAssignment))])).1 ≠
      (h.heap engine).globals := fun equal =>
    Nat.ne_of_gt pending.globals (congrArg TableId.index equal)
  generalize (h.heap engine).newTable
    (.ofEntries [("__newindex", .builtin (.host .guardAssignment))]) = made at *
  obtain ⟨m, heap⟩ := made
  dsimp only at candidate ready steady same other ⊢
  have opened : (h.modifyHeap engine fun _ => heap).heap engine = heap :=
    heap_modifyHeap present _
  have read := global_setmetatable_of_pending (h := h.modifyHeap engine fun _ => heap)
    (by rwa [opened])
  have called := callFunction_setmetatable_fits (h := h.modifyHeap engine fun _ => heap)
    (m := m) (by rw [opened]; exact ready.unprotected_globals)
  rw [read, ← steady.globals]
  rw [opened] at called
  have fitted := Steady.fits (fun _ _ => False) heap 0
  rcases called with called | ⟨e, failed⟩
  · refine .inl ⟨_, by simp only [asFunction, called, modifyHeap_modifyHeap]; rfl, ?_⟩
    rw [heap_modifyHeap present, ← fitted.globals]
    refine opened_of_link pending.globals (steady.andThen fitted).toKeeps (fun k => ?_)
      (candidate.keep fitted.toKeeps (by rwa [steady.globals]))
      (by rwa [fitted.globals, steady.globals])
    have before : heap.rawGet heap.globals k = (h.heap engine).rawGet (h.heap engine).globals k := by
      rw [steady.globals]
      exact congrArg (Table.get · k) same
    rw [fitted.globals, ← before]
    exact rawGet_fits_or_nil heap 0 _ k
  · refine .inr ⟨e, by simp only [asFunction, failed], ?_⟩
    simp only [asFunction, failed, modifyHeap_modifyHeap]
    rw [heap_modifyHeap present, fitted.globalsMetatable?, ready.globalsMetatable?]

/-- An injection fails and leaves the globals alone, or it enters a new scope. -/
theorem inject_of_ensured {middle : Host} (ensures : h.ensureScopes engine = (.ok (), middle))
    (tended : Tended (middle.heap engine) guards) (context : Context) (cached : Bool)
    (manager? : Option ManagerId) :
    (∃ e, (h.inject engine context cached manager?).1 = .error e ∧
      Minds (middle.heap engine) ((h.inject engine context cached manager?).2.heap engine) guards) ∨
    ∃ guard, (h.inject engine context cached manager?).1 = .ok guard ∧ guard.engine = engine ∧
      Entered (middle.heap engine) ((h.inject engine context cached manager?).2.heap engine) guards
        guard := by
  have present := present_of_globals tended.globals
  obtain ⟨full, ends⟩ := inject_cases ensures context cached manager?
  obtain ⟨built, only⟩ := bindingsOnly_build tended.globals
    { context, contextId := (middle.addContext context).1, cached, manager? }
  have fresh : (middle.heap engine).tables.size ≤ (build
      { context, contextId := (middle.addContext context).1, cached, manager? }
      (middle.heap engine)).1.index := Nat.le_refl _
  -- The new record of the context concerns no engine.
  have there : engine.index < (middle.addContext context).2.engines.size := present
  generalize build { context, contextId := (middle.addContext context).1, cached, manager? }
    (middle.heap engine) = made at *
  rcases ends with ⟨room, injects⟩ | ⟨room, injects⟩
  · rw [injects]
    refine .inl ⟨_, rfl, ?_⟩
    dsimp only
    rw [heap_modifyHeap there]
    exact tended.minds_of_calm (built.andThen (.of_fits _ room))
  · have fitted := Steady.of_fits (fun _ _ => False) room
    rw [injects]
    refine .inr ⟨_, rfl, rfl, ?_⟩
    dsimp only
    rw [heap_modifyHeap there]
    have other : made.1 ≠ made.2.globals := by
      rw [built.globals]
      exact fun same => Nat.not_le_of_gt tended.globals (same ▸ fresh)
    exact tended.enter (built.andThen fitted)
      (only.keep fitted.toKeeps other fun _ => False.elim) fresh engine

theorem ensureScopes_of_tended (tended : Tended (h.heap engine) guards) :
    h.ensureScopes engine = (.ok (), h) := by
  obtain ⟨m, installed, _⟩ := tended.watch
  exact ensureScopes_of_marked installed

/-! ## Search paths -/

theorem setSearchPaths_of_tended (tended : Tended (h.heap engine) guards)
    (apart : PackageApart (h.heap engine) guards) (paths : List Path) :
    Minds (h.heap engine) ((h.setSearchPaths engine paths).2.heap engine) guards := by
  have present := present_of_globals tended.globals
  have assigned : Minds (h.heap engine)
      ((h.setPackagePath engine (SearchPath.render paths)).2.heap engine) guards := by
    have read : h.global engine "package" =
        (.ok ((h.heap engine).rawGetText (h.heap engine).globals "package"), h) :=
      readGlobal_of_tended tended (Value.key?_ofText "package") (not_isBindingName (by decide))
    cases found : (h.heap engine).rawGetText (h.heap engine).globals "package" with
    | table p =>
        rw [found] at read
        obtain ⟨assignable, noGlobals, noScope⟩ := apart p found
        have assigns := setPackagePath_of_table present read (SearchPath.render paths)
          fun heap steady => by
            rcases assignable.path with ⟨s, text⟩ | ⟨plain, _⟩
            · have kept := steady.inert p "path" assignable.present id
                (by rw [text]; exact Value.inert_string s)
              exact .inl (by rw [kept, text]; rfl)
            · exact .inr (metamethod_of_metatable?_eq_none
                ((steady.metatable? p assignable.present noGlobals).trans plain) _)
        cases room : Machine.fitsHolding p (h.heap engine)
            (Heap.sizeOf (.string (SearchPath.render paths).toByteArray)) with
        | mk enough heap =>
            have fitted := Steady.of_fitsHolding (fun _ _ => False) room
            rw [room] at assigns
            cases enough with
            | false =>
                rw [assigns]
                dsimp only
                rw [heap_modifyHeap present]
                exact tended.minds_of_calm fitted
            | true =>
                rw [assigns]
                dsimp only
                rw [heap_modifyHeap present]
                have narrow : Steady (fun id k => id = p ∧ k = .ofText "path") (h.heap engine)
                    (heap.rawSetText p "path" (.string (SearchPath.render paths).toByteArray)) :=
                  (fitted.mono fun _ _ => False.elim).andThen
                    (.rawSetText ⟨rfl, rfl⟩ (by decide) _ _)
                refine tended.minds_of_steady narrow ?_
                rintro id k ⟨rfl, rfl⟩
                exact ⟨noGlobals, .inr ⟨rfl, noScope⟩⟩
    | _ =>
        rw [found] at read
        rw [setPackagePath, read]
        exact .refl tended
  obtain ⟨_, _, _, refused⟩ | ⟨_, middle, ⟨_, assigns, sets⟩ | ⟨assigns, sets⟩⟩ :=
    h.setSearchPaths_cases engine paths
  · rw [refused]
    exact .refl tended
  · rw [assigns] at assigned
    rw [sets]
    exact assigned
  · rw [assigns] at assigned
    rw [sets]
    dsimp only
    rw [heap_withSearchPaths]
    exact assigned

/-! ## Clearing -/

theorem clear_of_tended (tended : Tended (h.heap engine) guards) {guard : BindingGuard}
    (member : guard ∈ guards) :
    Minds (h.heap engine) ((h.clear engine guard).2.heap engine) guards := by
  unfold clear
  split
  · rw [heap_modifyHeap (present_of_globals tended.globals)]
    exact tended.leave member
  · exact .refl tended

theorem clearAll_of_tended (tended : Tended (h.heap engine) guards) :
    Minds (h.heap engine) ((h.clearAll engine).heap engine) guards := by
  rw [clearAll, heap_modifyHeap (present_of_globals tended.globals)]
  exact tended.blankCurrent

theorem release_of_tended (tended : Tended (h.heap engine) guards) {invocation : Invocation}
    (here : invocation.engine = engine) (own : invocation.bindings.engine = engine)
    (member : invocation.bindings ∈ guards) :
    Minds (h.heap engine) ((h.release invocation).2.heap engine) guards := by
  subst here
  have released := released_of_release own (present_of_globals tended.globals)
  have left := tended.leave member
  rcases released.scope with same | ⟨running, collected⟩
  · rw [same]
    exact left
  · rw [collected]
    exact left.calm (Steady.collect ..)

/-! ## Acquisitions -/

section

variable {id : ManagerId} {context : Context} {cached : Bool} {selected : Host}
  (selects : h.selectEngine id context.policy context.cacheKey = (.ok (engine, cached), selected))

include selects

/-- An acquisition that makes sure of scopes goes on tending the globals. -/
theorem acquire_of_ensured {middle : Host}
    (ensures : (selected.attach engine context.output).2.ensureScopes engine = (.ok (), middle))
    (tended : Tended (middle.heap engine) guards)
    (apart : PackageApart (middle.heap engine) guards) :
    (∃ e, (h.acquire id context).1 = .error e ∧
      Minds (middle.heap engine) ((h.acquire id context).2.heap engine) guards) ∨
    ∃ invocation, (h.acquire id context).1 = .ok invocation ∧ invocation.engine = engine ∧
      invocation.bindings.engine = engine ∧
      Minds (middle.heap engine) ((h.acquire id context).2.heap engine)
        (guards ++ [invocation.bindings]) := by
  have injects := inject_of_ensured ensures tended context cached (some id)
  obtain ⟨later, ⟨e, refused, acquired⟩ | ⟨guard, enters, last, ends⟩⟩ := acquire_cases selects
  · rw [refused] at injects
    obtain ⟨_, _, minds⟩ | ⟨_, given, _⟩ := injects
    · rw [acquired]
      exact .inl ⟨e, rfl, by simpa using minds⟩
    · cases given
  · rw [enters] at injects
    obtain ⟨_, failed, _⟩ | ⟨_, given, own, entered⟩ := injects
    · cases failed
    · cases given
      have sets := setSearchPaths_of_tended entered.minds.tended (entered.packageApart apart)
        (later.effectivePaths id context)
      rcases ends with ⟨e, refused, acquired⟩ | ⟨assigned, acquired⟩
      · rw [refused] at sets
        rw [acquired]
        have whole := entered.minds.trans sets
        have cleared := whole.trans (clear_of_tended (h := last) whole.tended
          (show guard ∈ guards ++ [guard] by simp))
        refine .inl ⟨e, rfl, ?_⟩
        dsimp only
        rw [heap_detach]
        exact ⟨cleared.tended.mono fun _ old => List.mem_append_left _ old, cleared.entries⟩
      · rw [assigned] at sets
        rw [acquired]
        exact .inr ⟨_, rfl, rfl, own, entered.minds.trans sets⟩

end

end Host

end ScriptHost
