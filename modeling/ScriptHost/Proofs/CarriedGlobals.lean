import ScriptHost.Proofs.GuardedEntries
import ScriptHost.Proofs.IntactEngines
import ScriptHost.Proofs.TendedEngines

/-!
# Globals that one invocation leaves to the next

Between two scripts on one engine, the host releases an invocation and acquires another one. It
changes bindings of scopes, the table by which it looks them up and the path of the package library;
whatever a script has done, the globals stay as the script left them if these are not among them.
-/

set_option autoImplicit false

namespace ScriptHost

open Lua Heap

namespace Scope

variable {h middle after : Heap} {scope m : TableId}

/-! ## What the host changes -/

/-- Fields that change when scopes are entered or left. None of them is a global. -/
def ScopeField (globals id : TableId) (k : Key) : Prop :=
  id ≠ globals ∧ (IsBindingName k ∨ k = .ofText "__index")

/-- From `h` to `after`, at most scopes have been entered or left. -/
abbrev Rescopes (h after : Heap) : Prop := Steady (ScopeField h.globals) h after

theorem not_scopeField {name : String} (free : name ∉ "__index" :: Binding.names)
    (globals id : TableId) : ¬ ScopeField globals id (.ofText name) := by
  rw [List.mem_cons, not_or] at free
  rintro ⟨_, named | same⟩
  · exact not_isBindingName free.2 named
  · exact Key.ofText_ne free.1 same

namespace Rescopes

theorem trans (first : Rescopes h middle) (second : Rescopes middle after) : Rescopes h after := by
  rw [Rescopes, first.globals] at second
  exact first.andThen second

theorem calm (steady : Steady (fun _ _ => False) h after) : Rescopes h after :=
  steady.mono fun _ _ => False.elim

/-- The globals are as they were. -/
theorem globalEntries (rescopes : Rescopes h after) (present : h.globals.index < h.tables.size)
    (strong : Collect.Strong h h.globals) (k : Key) :
    after.rawGet after.globals k = h.rawGet h.globals k := by
  rw [rescopes.globals]
  exact rescopes.rawGet _ k present (fun altered => altered.1 rfl) strong

theorem setCurrent (marker : ∀ m, h.globalsMetatable? = some m → m ≠ h.globals)
    (scope : TableId) : Rescopes h (setCurrent scope h) := by
  unfold Scope.setCurrent
  split
  · rename_i m marked
    exact Steady.rawSetText ⟨marker m marked, .inr rfl⟩ (by decide) h _
  · exact .refl ..

theorem blank (present : scope.index < h.tables.size) (other : scope ≠ h.globals) :
    Rescopes h (blank scope h) := by
  refine (blank_spec present).1.mono ?_
  rintro id k ⟨rfl, named⟩
  exact ⟨other, .inl named⟩

theorem leave {guard : BindingGuard} (names : Names h guard)
    (marker : ∀ m, h.globalsMetatable? = some m → m ≠ h.globals) : Rescopes h (leave guard h) := by
  have blanked := blank names.scope names.other
  have reentered : Rescopes h (reenter guard (Scope.blank guard.scope h)) := by
    unfold reenter
    split
    · split
      · refine blanked.trans (setCurrent (fun m marked => ?_) _)
        rw [blanked.globalsMetatable?] at marked
        rw [blanked.globals]
        exact marker m marked
      · exact blanked
    · exact blanked
  exact reentered.trans (.calm (Steady.hold ..))

end Rescopes

/-- The table by which scopes are looked up leads to a scope with nothing in it but bindings. -/
def Fronted (h : Heap) : Prop :=
  ∀ m, h.globalsMetatable? = some m →
    ∃ scope, h.rawGetText m "__index" = .table scope ∧ BindingsOnly h scope

/-- A new scope comes in front. -/
theorem fronted_enter (only : BindingsOnly h scope) (other : scope ≠ h.globals)
    (marker : ∀ m, h.globalsMetatable? = some m →
      m.index < h.tables.size ∧ m ≠ h.globals ∧ m ≠ scope) :
    Rescopes h (enter scope h).2 ∧ Fronted (enter scope h).2 := by
  refine ⟨(Rescopes.setCurrent (fun m marked => (marker m marked).2.1) scope).trans
    (.calm (Steady.hold ..)), fun m marked => ?_⟩
  have installed : h.globalsMetatable? = some m := by
    have kept := Rescopes.setCurrent (fun m marked => (marker m marked).2.1) scope
    exact kept.globalsMetatable?.symm.trans marked
  obtain ⟨present, _, distinct⟩ := marker m installed
  have entered : setCurrent scope h = h.rawSetText m "__index" (.table scope) := by
    simp only [setCurrent, installed]
  have narrow : Steady (lookupField m) h (h.rawSetText m "__index" (.table scope)) :=
    Steady.rawSetText ⟨rfl, rfl⟩ (by decide) h _
  have kept := only.keep narrow.toKeeps other fun k altered => absurd altered.1 distinct.symm
  refine ⟨scope, ?_, ?_⟩
  · have found := rawGetText_rawSetText_self present "__index" (.table scope)
    rw [← entered] at found
    exact found
  · rw [← entered] at kept
    exact kept.keep (Steady.hold (fun _ _ => False) _ _).toKeeps
      (by rwa [entered]) fun _ => False.elim

/-! ## Globals that stay -/

/-- A field is assigned in the table itself, now and after a collection: it has a value that no
collection takes away, or no metamethod stands for it. -/
def Direct (h : Heap) (id : TableId) (name : String) : Prop :=
  (h.rawGetText id name).isNil = false ∧
      ((h.rawGetText id name).Inert ∨ Collect.Strong h id) ∨
    h.metamethod (.table id) "__newindex" = .nil

theorem Direct.own {id : TableId} {name : String} (direct : Direct h id name) :
    (h.rawGetText id name).isNil = false ∨ h.metamethod (.table id) "__newindex" = .nil :=
  direct.imp_left And.left

theorem Direct.keep {changed : TableId → Key → Prop} {id : TableId} {name : String}
    (direct : Direct h id name) (steady : Steady changed h after)
    (present : id.index < h.tables.size) (other : id ≠ h.globals)
    (metatable : ∀ m, (h.table id).metatable? = some m → m.index < h.tables.size)
    (same : ¬ changed id (.ofText name))
    (newindex : ∀ m, ¬ changed m (.ofText "__newindex")) : Direct after id name := by
  rcases direct with ⟨value, kept⟩ | absent
  · have stays : after.rawGetText id name = h.rawGetText id name :=
      kept.elim (steady.inert id name present same) (steady.rawGetText present same)
    refine .inl ⟨by rw [stays]; exact value, ?_⟩
    rw [stays]
    exact kept.imp_right (steady.strong id present)
  · refine .inr ?_
    have linked := steady.metatable? id present other
    cases link : (h.table id).metatable? with
    | none => exact metamethod_of_metatable?_eq_none (linked.trans link) _
    | some m =>
        rw [metamethod_of_metatable?_eq_some link] at absent
        rw [metamethod_of_metatable?_eq_some (linked.trans link),
          steady.inert m _ (metatable m link) (newindex m) (by rw [absent]; exact Value.inert_nil),
          absent]

/-- Nothing hidden comes of it when the host assigns where modules are found: the globals are not
weak, and the global `package` leads to a table other than the globals whose path is assigned in it,
or it is missing where no metatable but that of the host stands for it. -/
structure PathApart (h : Heap) : Prop where
  strong : Collect.Strong h h.globals
  missing : h.rawGetText h.globals "package" = .nil →
    ∀ m, (h.table h.globals).metatable? = some m → h.globalsMetatable? = some m
  package : ∀ p, h.rawGetText h.globals "package" = .table p → p ≠ h.globals ∧ Direct h p "path"

def isStrong (h : Heap) (id : TableId) : Bool :=
  (h.table id).metatable?.all fun m =>
    m.index < h.tables.size && (h.rawGetText m "__mode").isNil

theorem strong_of_isStrong {id : TableId} (checked : isStrong h id = true) :
    Collect.Strong h id := by
  intro m linked
  rw [isStrong, linked, Option.all_some, Bool.and_eq_true] at checked
  exact ⟨of_decide_eq_true checked.1, Value.eq_nil_of_isNil checked.2⟩

/-- Whether no collection takes a value away. -/
def isInert : Value → Bool
  | .table _ | .closure _ => false
  | _ => true

theorem inert_of_isInert {v : Value} (checked : isInert v = true) : v.Inert := by
  intro marks
  cases v <;> first | rfl | cases checked

def isDirect (h : Heap) (id : TableId) (name : String) : Bool :=
  (!(h.rawGetText id name).isNil && (isInert (h.rawGetText id name) || isStrong h id)) ||
    (h.metamethod (.table id) "__newindex").isNil

theorem direct_of_isDirect {id : TableId} {name : String} (checked : isDirect h id name = true) :
    Direct h id name := by
  rw [isDirect, Bool.or_eq_true, Bool.and_eq_true, Bool.or_eq_true, Bool.not_eq_true'] at checked
  exact checked.imp (.imp_right (.imp inert_of_isInert strong_of_isStrong))
    Value.eq_nil_of_isNil

/-- Whether the path of the package library can be assigned without consequences for globals. -/
def isPathApart (h : Heap) : Bool :=
  isStrong h h.globals &&
    match h.rawGetText h.globals "package" with
    | .nil => (h.table h.globals).metatable?.all fun m => h.globalsMetatable? = some m
    | .table p => p ≠ h.globals && isDirect h p "path"
    | _ => true

theorem pathApart_of_isPathApart (checked : isPathApart h = true) : PathApart h := by
  rw [isPathApart, Bool.and_eq_true] at checked
  obtain ⟨strong, package⟩ := checked
  refine ⟨strong_of_isStrong strong, fun nil m linked => ?_, fun p found => ?_⟩
  · rw [nil, linked] at package
    exact of_decide_eq_true package
  · rw [found, Bool.and_eq_true] at package
    exact ⟨of_decide_eq_true package.1, direct_of_isDirect package.2⟩

/-- On an engine whose tables lead nowhere else, the path is still assigned in its table when at
most fields of scopes have changed. -/
theorem PathApart.direct (apart : PathApart h) (guards : (Vault.common h).Guards h)
    (rescopes : Rescopes h after) {p : TableId}
    (found : h.rawGetText h.globals "package" = .table p) : Direct after p "path" := by
  obtain ⟨other, direct⟩ := apart.package p found
  have shared := guards.shares_rawGet guards.open_globals.2 (.ofText "package")
  rw [show h.rawGet (Vault.common h).globals (.ofText "package") = .table p from found] at shared
  refine direct.keep rescopes (Vault.open_common_iff.mp shared) other (fun m linked => ?_)
    (not_scopeField (by decide) _ _) fun m => not_scopeField (by decide) _ m
  exact Vault.open_common_iff.mp ((guards.suits p).metatable shared.2 (fun _ => other) m linked)

theorem PathApart.keep (apart : PathApart h) (guards : (Vault.common h).Guards h)
    (rescopes : Rescopes h after) : PathApart after := by
  have globals : h.globals.index < h.tables.size := Vault.open_common_iff.mp guards.open_globals
  have entries := rescopes.globalEntries globals apart.strong
  have package : after.rawGetText after.globals "package" = h.rawGetText h.globals "package" :=
    entries (.ofText "package")
  refine ⟨?_, fun nil m linked => ?_, fun p found => ?_⟩
  · rw [rescopes.globals]
    exact rescopes.strong _ globals apart.strong
  · rw [rescopes.globals, rescopes.link globals] at linked
    rw [rescopes.globalsMetatable?]
    exact apart.missing (package.symm.trans nil) m linked
  · have before := package.symm.trans found
    exact ⟨by rw [rescopes.globals]; exact (apart.package p before).1,
      apart.direct guards rescopes before⟩

/-- A global that is missing is not found by the metatable of the globals either. -/
theorem evaluates_index_missing {setting : Library.Setting} {calls : Nat} {place : Place}
    {label? : Option Label} {name : String} (free : ¬ IsBindingName (.ofText name))
    (fronted : Fronted h) (nil : h.rawGetText h.globals name = .nil)
    (linked : ∀ m, (h.table h.globals).metatable? = some m → h.globalsMetatable? = some m) :
    ∃ steps ≤ 2, Evaluates setting calls steps h
      (Operation.index place label? (.table h.globals) (.ofText name)) (.ok .nil) h := by
  have looked := lookUp_table_of_nil nil
  cases link : (h.table h.globals).metatable? with
  | none =>
      rw [metamethod_of_metatable?_eq_none link] at looked
      exact ⟨1, by decide, Evaluates.index_found looked⟩
  | some m =>
      obtain ⟨scope, found, only⟩ := fronted m (linked m link)
      rw [metamethod_of_metatable?_eq_some link, found] at looked
      have behind := lookUp_table_of_plain only.metatable? name
      rw [show h.rawGetText scope name = .nil from only.others _ free] at behind
      exact ⟨1 + 1, by decide, Evaluates.index_forward looked (Evaluates.index_found behind)⟩

theorem package_ne_globals_freshHeap (limit? : Option Nat) (p : TableId)
    (found : (Library.freshHeap limit?).rawGetText (Library.freshHeap limit?).globals "package" =
      .table p) : p ≠ (Library.freshHeap limit?).globals := by
  have apart : isPathApart Library.wholeHeap = true := by decide +kernel
  exact ((pathApart_of_isPathApart apart).package p found).1

/-- On a new engine, the package library is apart from the globals and from all scopes. -/
theorem Unused.packageApart (unused : Unused h) : PackageApart h [] := by
  have orderly := unused.ready.orderly
  have bare := unused.globalsMetatable?
  intro p found
  refine ⟨orderly.package p found, ?_, ?_⟩
  · obtain ⟨id, options, rfl⟩ := unused.exists_install
    have fresh := (ready_freshHeap options.heapLimit?).orderly
    have steady := steady_install id options (Library.freshHeap options.heapLimit?)
    have kept := fresh.rawGetText_globals steady.toKeeps
      (not_helperFields (show "package" ∉ ["cinder", "print", "write"] by decide) _)
    have globals := steady.globals
    have apart := package_ne_globals_freshHeap options.heapLimit? p
    rw [← kept, ← globals] at apart
    generalize Engine.install id options (Library.freshHeap options.heapLimit?) = h
      at found apart ⊢
    exact apart found
  · rintro (current | ⟨guard, member, _⟩)
    · rw [current?, bare] at current
      cases current
    · cases member

end Scope

namespace Host

open Scope

variable {h selected after : Host} {engine : EngineId} {id : ManagerId} {context : Context}
  {invocation next : Invocation}

/-! ## Acquiring on an engine that scripts have run on -/

theorem global_package_missing (apart : PathApart (h.heap engine))
    (fronted : Fronted (h.heap engine))
    (nil : (h.heap engine).rawGetText (h.heap engine).globals "package" = .nil) :
    h.global engine "package" = (.ok .nil, h) := by
  obtain ⟨steps, few, settles⟩ := @evaluates_index_missing (h.heap engine) setting 0 {} none _
    (not_isBindingName (by decide)) fronted nil (apart.missing nil)
  have whole : Evaluates setting 0 (steps + 0) (h.heap engine)
      (do return [← Operation.index {} none (.table (h.heap engine).globals) (.ofText "package")])
      (.ok [.nil]) (h.heap engine) := settles.bind (Evaluates.pure _)
  rw [global, field, performOperation_of_evaluates whole (by decide) (by omega), modifyHeap_heap]
  rfl

/-- Where the path is assigned, it is assigned in a table other than the globals, after a collection
perhaps. -/
theorem setPackagePath_of_apart (intact : Intact engine h) (apart : PathApart (h.heap engine))
    (fronted : Fronted (h.heap engine)) {patterns : List UInt8}
    (sets : h.setPackagePath engine patterns = (.ok (), after)) :
    ∃ p heap, p ≠ (h.heap engine).globals ∧
      Steady (fun _ _ => False) (h.heap engine) heap ∧
      after.heap engine = heap.rawSetText p "path" (.string patterns.toByteArray) := by
  have read : h.global engine "package" =
      (.ok ((h.heap engine).rawGetText (h.heap engine).globals "package"), h) := by
    cases missing : ((h.heap engine).rawGetText (h.heap engine).globals "package").isNil with
    | false => exact global_of_value missing
    | true =>
        have nil := Value.eq_nil_of_isNil missing
        rw [global_package_missing apart fronted nil, nil]
  cases found : (h.heap engine).rawGetText (h.heap engine).globals "package" with
  | table p =>
      rw [found] at read
      have assigns := setPackagePath_of_table intact.present read patterns fun heap steady =>
        (apart.direct intact.guards (.calm steady) found).own
      rw [sets] at assigns
      cases room : Machine.fitsHolding p (h.heap engine)
          (Heap.sizeOf (.string patterns.toByteArray)) with
      | mk enough heap =>
          rw [room] at assigns
          cases enough with
          | false => cases assigns
          | true =>
              cases assigns
              exact ⟨p, heap, (apart.package p found).1, .of_fitsHolding _ room,
                heap_modifyHeap intact.present _⟩
  | _ =>
      rw [setPackagePath, read, found] at sets
      cases sets

theorem setSearchPaths_of_apart (intact : Intact engine h) (apart : PathApart (h.heap engine))
    (fronted : Fronted (h.heap engine)) {paths : List Path}
    (sets : h.setSearchPaths engine paths = (.ok (), after)) (k : Key) :
    after.rawGlobal engine k = h.rawGlobal engine k := by
  obtain ⟨_, _, _, refused⟩ | ⟨_, middle, ⟨_, _, refused⟩ | ⟨assigns, done⟩⟩ :=
    h.setSearchPaths_cases engine paths
  · rw [refused] at sets
    cases sets
  · rw [refused] at sets
    cases sets
  · obtain ⟨p, heap, other, steady, assigned⟩ :=
      setPackagePath_of_apart intact apart fronted assigns
    rw [done] at sets
    cases sets
    rw [rawGlobal, heap_withSearchPaths, assigned, rawGlobal,
      ← (Rescopes.calm steady).globalEntries intact.globals apart.strong k]
    exact rawGet_rawSet_of_ne (fun same => other (same.symm.trans steady.globals)) ..

/-- Where scopes can be looked up already, an injection only enters a new one. -/
theorem inject_of_marked (intact : Intact engine h)
    (marked : ∃ m, (h.heap engine).globalsMetatable? = some m) {cached : Bool}
    {manager? : Option ManagerId} {guard : BindingGuard}
    (injects : h.inject engine context cached manager? = (.ok guard, after)) :
    Rescopes (h.heap engine) (after.heap engine) ∧ Fronted (after.heap engine) := by
  obtain ⟨m, installed⟩ := marked
  obtain ⟨full, ends⟩ := inject_cases (ensureScopes_of_marked installed) context cached manager?
  generalize (⟨context, (h.addContext context).1, cached, manager?⟩ : Subject) = subject at ends
  obtain ⟨built, only⟩ := bindingsOnly_build intact.globals subject
  have fresh : (h.heap engine).tables.size ≤ (build subject (h.heap engine)).1.index :=
    Nat.le_refl _
  generalize build subject (h.heap engine) = made at ends built only fresh
  obtain ⟨_, failed⟩ | ⟨room, entered⟩ := ends
  · rw [failed] at injects
    cases injects
  · rw [entered] at injects
    cases injects
    have fitted := Steady.of_fits (fun _ _ => False) room
    have whole := built.andThen fitted
    have other : made.1 ≠ (h.heap engine).globals := fun same =>
      Nat.not_le_of_gt intact.globals (same ▸ fresh)
    have kept := only.keep fitted.toKeeps (by rwa [built.globals]) fun _ => False.elim
    have entered := fronted_enter (h := full) kept (by rwa [whole.globals]) fun n known => by
      rw [whole.globalsMetatable?] at known
      obtain ⟨inside, apart⟩ := intact.marker n known
      refine ⟨Nat.lt_of_lt_of_le inside whole.grown, by rwa [whole.globals], fun same => ?_⟩
      exact Nat.not_le_of_gt inside (same ▸ fresh)
    have reached := heap_modifyHeap (h := (h.addContext context).2) intact.present
      fun _ => (enter made.1 full).2
    rw [reached]
    exact ⟨(Rescopes.calm whole).trans entered.1, entered.2⟩

/-- A release changes scopes, and may let the collector run. -/
theorem rescopes_release (hosted : Hosted invocation h) :
    Rescopes (h.heap invocation.engine) ((h.release invocation).2.heap invocation.engine) := by
  have left := Rescopes.leave hosted.names fun m marked => (hosted.intact.marker m marked).2
  rcases (released_of_release hosted.own hosted.intact.present).scope with
    same | ⟨running, collected⟩
  · rw [same]
    exact left
  · rw [collected]
    exact left.trans (.calm (Steady.collect ..))

/-- Where scopes can be looked up already, the globals are the same when an invocation is ready as
they were when its engine was selected. -/
theorem rawGlobal_of_acquire (intact : Intact engine selected)
    (marked : ∃ m, (selected.heap engine).globalsMetatable? = some m)
    (apart : PathApart (selected.heap engine)) {cached : Bool}
    (selects : h.selectEngine id context.policy context.cacheKey = (.ok (engine, cached), selected))
    (acquires : h.acquire id context = (.ok invocation, after)) (k : Key) :
    after.rawGlobal engine k = selected.rawGlobal engine k := by
  obtain ⟨chosen, injected, same, injects, sets, _⟩ := steps_of_acquire acquires
  rw [selects] at same
  cases same
  have attached := heap_attach selected invocation.engine invocation.engine context.output
  have ready := intact.attach context.output
  obtain ⟨rescopes, fronted⟩ :=
    inject_of_marked ready.intact (by rwa [attached]) injects
  rw [attached] at rescopes
  have entered := ((ready.intact.inject context invocation.cached (some id)).1).intact
  rw [injects] at entered
  rw [setSearchPaths_of_apart entered (apart.keep intact.guards rescopes) fronted sets k]
  exact rescopes.globalEntries intact.globals apart.strong k

/-- What a script leaves in the globals is what the next one on the engine finds there. -/
theorem rawGlobal_of_release (hosted : Hosted invocation h)
    (apart : PathApart (h.heap invocation.engine)) {start : Host} {cached : Bool}
    (between : start.engine invocation.engine = (h.release invocation).2.engine invocation.engine)
    (size : (h.release invocation).2.engines.size ≤ start.engines.size)
    (selects : start.selectEngine id context.policy context.cacheKey =
      (.ok (invocation.engine, cached), start))
    (acquires : start.acquire id context = (.ok next, after)) (k : Key) :
    after.rawGlobal invocation.engine k = h.rawGlobal invocation.engine k := by
  have releases := hosted.release
  have rescopes := rescopes_release hosted
  have kept := Maintains.ofStore releases.intact size (congrArg Engine.store between)
  have heap : start.heap invocation.engine = (h.release invocation).2.heap invocation.engine :=
    congrArg (fun e : Engine => e.store.heap) between
  have marked : ∃ m, (start.heap invocation.engine).globalsMetatable? = some m :=
    hosted.names.marked.imp fun m known =>
      (releases.trans kept).retains.marker m known
  rw [rawGlobal_of_acquire kept.intact marked
    (by rw [heap]; exact apart.keep hosted.intact.guards rescopes) selects acquires k]
  rw [rawGlobal, heap]
  exact rescopes.globalEntries hosted.intact.globals apart.strong k

/-- A global that is there is read as it is, under any key. -/
theorem readGlobal_of_value {key : Value} {k : Key} (isKey : key.key? = some k)
    (value : (h.rawGlobal engine k).isNil = false) :
    h.readGlobal engine key = (.ok (h.rawGlobal engine k), h) :=
  readGlobal_of_evaluates (by decide) (Evaluates.index_found (lookUp_entry_of_value isKey value))

/-! ## Acquiring on a new engine -/

/-- What scripts see of the globals, but for bindings, is what there is on a new engine. -/
def Pristine (engine : EngineId) (h : Host) : Prop :=
  ∃ fresh, Unused fresh ∧ ∀ key k, key.key? = some k → ¬ IsBindingName k →
    h.readGlobal engine key = (.ok (fresh.rawGet fresh.globals k), h)

theorem pristine_of_acquire (unused : Unused (selected.heap engine)) {cached : Bool}
    (selects : h.selectEngine id context.policy context.cacheKey = (.ok (engine, cached), selected))
    (acquires : h.acquire id context = (.ok invocation, after)) : Pristine engine after := by
  have attached := heap_attach selected engine engine context.output
  have orderly := unused.ready.orderly
  rw [← attached] at orderly
  rcases ensureScopes_of_pending (h := (selected.attach engine context.output).2)
    (by rw [attached]; exact unused.pending) with ⟨middle, ensures, opened⟩ | ⟨e, failed, _⟩
  · have apart := opened.packageApart (by rw [attached]; exact unused.packageApart)
    rcases acquire_of_ensured selects ensures opened.tended apart with
      ⟨e, failed, _⟩ | ⟨given, succeeds, _, _, minds⟩
    · rw [acquires] at failed
      cases failed
    · rw [acquires] at minds
      refine ⟨selected.heap engine, unused, fun key k isKey free => ?_⟩
      rw [readGlobal_of_tended minds.tended isKey free, rawGlobal, minds.entries k,
        opened.keeps.globals,
        opened.keeps.rawGet _ k orderly.globals not_false orderly.strong_globals, attached]
  · obtain ⟨chosen, injected, same, injects, _⟩ := steps_of_acquire acquires
    rw [selects] at same
    cases same
    rw [inject_of_error (Prod.ext failed rfl)] at injects
    cases injects

end Host

end ScriptHost
