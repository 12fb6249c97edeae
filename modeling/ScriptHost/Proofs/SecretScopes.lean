import ScriptHost.Proofs.SafeTables
import ScriptHost.Proofs.ScopeNesting

/-!
# Scopes out of the reach of scripts

Where the globals have the metatable of the host, the scopes that it keeps bindings in are secret.
Where a script has kept the host from installing its metatable, the host fills and leaves scopes
all the same, but then no global is looked up in them, and they are tables like all others.
-/

set_option autoImplicit false

namespace ScriptHost.Lua.Vault

open Scope

variable {V W X : Vault} {h middle after : Heap} {id m scope : TableId} {guard : BindingGuard}
  {touched more : TableId → Prop}

/-! ## Tables that a host changes -/

namespace Guards

theorem modifySecret (guards : V.Guards h) (secret : V.Secret id) {f : Table → Table} (used : Nat)
    (plain : (f (h.table id)).metatable? = none)
    (lookup : V.lookup? = some id → V.Leads { h.modifyTable id f with used } id)
    (known : V.scope id → ∀ k, V.Shares ((f (h.table id)).get k)) :
    V.Guards { h.modifyTable id f with used } := by
  have here : ({ h.modifyTable id f with used } : Heap).table id = f (h.table id) :=
    Heap.table_modifyTable_self (by rw [guards.size]; exact guards.present id secret) f
  refine guards.keep rfl (Heap.size_tables_modifyTable h id f) rfl { guards.rests with }
    fun other => ?_
  by_cases same : other = id
  · subst same
    have notGlobals := guards.secret_ne secret
    exact {
      plain := fun _ => by rw [here, plain]
      link := fun _ isGlobals => absurd isGlobals notGlobals
      lookup := lookup
      scope := fun isScope k => by
        rw [Heap.rawGet, here]
        exact known isScope k
      shows := fun isOpen => absurd secret isOpen
      metatable := fun isOpen => absurd secret isOpen
      unshadowed := fun isGlobals => absurd isGlobals notGlobals }
  · exact (guards.suits other).congr (Heap.table_modifyTable_of_ne same f)

end Guards

/-- From `h` to `after`, the secrets are kept, and no secret table but the touched ones has
changed. -/
structure Touches (V : Vault) (touched : TableId → Prop) (h after : Heap) : Prop where
  grown : h.tables.size ≤ after.tables.size
  guards : (V.on after).Guards after
  globalsMetatable? : after.globalsMetatable? = h.globalsMetatable?
  secret : ∀ id, V.Secret id → ¬ touched id → after.table id = h.table id

theorem Passes.touches (passes : V.Passes h after) : V.Touches touched h after :=
  ⟨passes.grown, passes.guards, passes.globalsMetatable?, fun id secret _ => passes.secret id secret⟩

namespace Touches

theorem trans (first : V.Touches touched h middle)
    (second : (V.on middle).Touches touched middle after) : V.Touches touched h after where
  grown := Nat.le_trans first.grown second.grown
  guards := second.guards
  globalsMetatable? := second.globalsMetatable?.trans first.globalsMetatable?
  secret id secret spared := (second.secret id secret spared).trans (first.secret id secret spared)

theorem mono (touches : V.Touches touched h after) (wider : ∀ id, touched id → more id) :
    V.Touches more h after :=
  ⟨touches.grown, touches.guards, touches.globalsMetatable?,
    fun id secret spared => touches.secret id secret fun reached => spared (wider id reached)⟩

theorem later (guards : V.Guards h) (touches : V.Touches touched h after) :
    V.Later (V.on after) :=
  later_on (by rw [← guards.size]; exact touches.grown)

end Touches

/-! ## Scopes that a host holds -/

/-- A table that bindings may be kept in. If the globals have no metatable, every table is as good
as another. -/
def Holds (V : Vault) (id : TableId) : Prop :=
  V.lookup? ≠ none ∧ V.scope id ∨ V.lookup? = none ∧ V.Open id

/-- A host may clear the bindings of a guard. -/
structure Covers (V : Vault) (guard : BindingGuard) : Prop where
  scope : V.Holds guard.scope
  previous : ∀ p, guard.previous? = some p → V.Holds p

theorem Holds.mono (holds : V.Holds id) (later : V.Later W) (same : W.lookup? = V.lookup?) :
    W.Holds id := by
  rcases holds with ⟨linked, known⟩ | ⟨unlinked, isOpen⟩
  · exact .inl ⟨same ▸ linked, later.scope id known⟩
  · exact .inr ⟨same.trans unlinked, later.open isOpen⟩

theorem Covers.mono (covers : V.Covers guard) (later : V.Later W) (same : W.lookup? = V.lookup?) :
    W.Covers guard :=
  ⟨covers.scope.mono later same, fun p previous => (covers.previous p previous).mono later same⟩

namespace Guards

theorem touches_assign (guards : V.Guards h) (holds : V.Holds scope) {v : Value}
    (shared : V.Shares v) (name : String) :
    V.Touches (· = scope) h (h.rawSetText scope name v) := by
  rcases holds with ⟨_, known⟩ | ⟨unlinked, isOpen⟩
  · have size : (h.rawSetText scope name v).tables.size = h.tables.size :=
      Heap.size_tables_rawSet h scope _ v
    refine ⟨Nat.le_of_eq size.symm, ?_, rfl,
      fun id _ other => Heap.table_rawSet_of_ne other (.ofText name) v⟩
    rw [guards.on_of_size size]
    refine guards.modifySecret (.inr known) _ ?_ ?_ fun _ k => ?_
    · rw [Table.metatable?_set, guards.plain scope (.inr known)]
    · exact fun linked => absurd linked (guards.scope scope known).1
    · rw [Table.get_set]
      split
      · exact shared
      · exact (guards.scope scope known).2 k
  · have passes := guards.rawSet (k := .ofText name) isOpen trivial shared
      fun _ linked => absurd unlinked linked
    exact passes.touches

theorem value (guards : V.Guards h) (subject : Subject) (handle : V.Shares subject.manager?)
    (binding : Binding) :
    V.Passes h (Scope.value subject h binding).2 ∧
      (V.on (Scope.value subject h binding).2).Shares (Scope.value subject h binding).1 := by
  have document : ∀ j?, V.Passes h (documentValue h j?).2 ∧
      (V.on (documentValue h j?).2).Shares (documentValue h j?).1 := by
    intro j?
    cases j? with
    | none => exact ⟨.refl guards, trivial⟩
    | some j => exact guards.ofJson j
  have path : ∀ path?, V.Passes h h ∧ (V.on h).Shares (pathValue path?) := by
    intro path?
    refine ⟨.refl guards, ?_⟩
    cases path? <;> trivial
  cases binding with
  | engineManager =>
      refine ⟨guards.newUserdata (r := .manager subject.manager?) fun id same => ?_, trivial⟩
      exact handle id (Resource.manager.inj same)
  | context => exact ⟨guards.newUserdata (fun _ same => by cases same), trivial⟩
  | results => exact ⟨guards.newUserdata (fun _ same => by cases same), trivial⟩
  | host => exact guards.ofJson _
  | commandData => exact guards.ofJson _
  | selectedElements => exact guards.ofJson _
  | activeUiDocument => exact document _
  | activeDocument => exact document _
  | commandPath => exact path _
  | alternateCommandPath => exact path _
  | _ => exact ⟨.refl guards, trivial⟩

theorem touches_bind (guards : V.Guards h) (holds : V.Holds scope) (subject : Subject)
    (handle : V.Shares subject.manager?) (binding : Binding) :
    V.Touches (· = scope) h (Scope.bind subject scope h binding) := by
  obtain ⟨passes, shared⟩ := guards.value subject handle binding
  have held : (V.on (Scope.value subject h binding).2).Holds scope :=
    holds.mono (guards.later passes) rfl
  exact passes.touches.trans (passes.guards.touches_assign held shared binding.name)

theorem touches_binds (guards : V.Guards h) (holds : V.Holds scope) (subject : Subject)
    (handle : V.Shares subject.manager?) (bindings : List Binding) :
    V.Touches (· = scope) h (bindings.foldl (Scope.bind subject scope) h) := by
  induction bindings generalizing V h with
  | nil => exact (Passes.refl guards).touches
  | cons binding bindings ih =>
      have first := guards.touches_bind holds subject handle binding
      exact first.trans (ih first.guards (holds.mono (first.later guards) rfl) handle)

theorem touches_blank (guards : V.Guards h) (holds : V.Holds scope) :
    V.Touches (· = scope) h (blank scope h) := by
  have folded : ∀ (names : List String) {V : Vault} {h : Heap}, V.Guards h → V.Holds scope →
      V.Touches (· = scope) h (names.foldl (fun h name => h.rawSetText scope name .null) h) := by
    intro names
    induction names with
    | nil => exact fun guards _ => (Passes.refl guards).touches
    | cons name names ih =>
        intro V h guards holds
        have first := guards.touches_assign holds (v := .null) trivial name
        exact first.trans (ih first.guards (holds.mono (first.later guards) rfl))
  exact folded Binding.names guards holds

theorem passes_hold (guards : V.Guards h) (held : List TableId) : V.Passes h { h with held } :=
  guards.rest rfl rfl rfl { guards.rests with }

theorem present_of_holds (guards : V.Guards h) (holds : V.Holds scope) :
    scope.index < h.tables.size := by
  rw [guards.size]
  rcases holds with ⟨_, known⟩ | ⟨_, isOpen⟩
  · exact guards.present scope (.inr known)
  · exact isOpen.1

end Guards

/-! ## The scope in front -/

/-- A heap that keeps its secrets, and whose host knows the metatable of the globals. It may give
handles of any manager to the scripts. -/
structure Seals (V : Vault) (h : Heap) : Prop extends V.Guards h where
  tended : V.tended
  manages : ∀ id, V.manages id
  floating : ∀ m, h.globalsMetatable? = some m →
    V.lookup? = some m ∨ V.lookup? = none ∧ V.Open m

/-- The scope in which globals are looked up. -/
def front? (V : Vault) (h : Heap) : Option TableId := V.lookup?.bind fun _ => current? h

theorem front?_of_lookup? (linked : V.lookup? = some m) : V.front? h = current? h := by
  rw [front?, linked]
  rfl

theorem front?_of_unlinked (unlinked : V.lookup? = none) : V.front? h = none := by
  rw [front?, unlinked]
  rfl

theorem Seals.touches (seals : V.Seals h) (touches : V.Touches touched h after) :
    (V.on after).Seals after := by
  refine ⟨touches.guards, seals.tended, seals.manages, fun m marked => ?_⟩
  rw [touches.globalsMetatable?] at marked
  rcases seals.floating m marked with linked | ⟨unlinked, isOpen⟩
  · exact .inl linked
  · exact .inr ⟨unlinked, (touches.later seals.toGuards).open isOpen⟩

theorem Seals.passes (seals : V.Seals h) (passes : V.Passes h after) : (V.on after).Seals after :=
  have touches : V.Touches (fun _ => False) h after := passes.touches
  seals.touches touches

theorem front?_congr (same : W.lookup? = V.lookup?)
    (kept : ∀ m, V.lookup? = some m → h.globalsMetatable? = some m ∧
      after.globalsMetatable? = some m ∧ after.table m = h.table m) :
    W.front? after = V.front? h := by
  cases linked : V.lookup? with
  | none => rw [front?_of_unlinked linked, front?_of_unlinked (same.trans linked)]
  | some m =>
      obtain ⟨before, marked, table⟩ := kept m linked
      rw [front?_of_lookup? linked, front?_of_lookup? (same.trans linked),
        current?_of_link before, current?_of_link marked, Heap.rawGetText, Heap.rawGet, table]
      rfl

theorem Touches.front? (touches : V.Touches touched h after) (guards : V.Guards h)
    (spared : ∀ m, V.lookup? = some m → ¬ touched m) :
    (V.on after).front? after = V.front? h := by
  refine front?_congr rfl fun m linked => ?_
  have marked := guards.marker m linked
  exact ⟨marked, touches.globalsMetatable?.trans marked,
    touches.secret m (.inl linked) (spared m linked)⟩

theorem Passes.front? (passes : V.Passes h after) (guards : V.Guards h) :
    (V.on after).front? after = V.front? h :=
  have touches : V.Touches (fun _ => False) h after := passes.touches
  touches.front? guards fun _ _ => id

theorem Seals.scope_of_front? (seals : V.Seals h) (front : V.front? h = some scope) :
    V.scope scope := by
  cases linked : V.lookup? with
  | none =>
      rw [front?_of_unlinked linked] at front
      cases front
  | some m =>
      rw [front?_of_lookup? linked, current?_of_link (seals.marker m linked)] at front
      rcases (seals.lookup m linked).index with absent | ⟨found, present, known⟩
      · rw [absent] at front
        cases front
      · rw [present] at front
        exact Option.some.inj front ▸ known

/-- The scope that the host takes for the current one. -/
theorem Seals.holds_current (seals : V.Seals h) (current : current? h = some scope) :
    V.Holds scope := by
  cases marked : h.globalsMetatable? with
  | none => simp [current?, marked] at current
  | some m =>
      rcases seals.floating m marked with linked | ⟨unlinked, isOpen⟩
      · refine .inl ⟨by simp [linked], ?_⟩
        exact seals.scope_of_front? ((front?_of_lookup? linked).trans current)
      · rw [current?_of_link marked] at current
        refine .inr ⟨unlinked, ?_⟩
        have shared := seals.shares_rawGet isOpen.2 (.ofText "__index")
        rw [← Heap.rawGetText] at shared
        split at current
        · rename_i found
          rw [found] at shared
          exact Option.some.inj current ▸ shared
        · cases current

theorem Leads.look (leads : V.Leads h m) (present : m.index < h.tables.size)
    (known : V.scope scope) : V.Leads (h.rawSetText m "__index" (.table scope)) m where
  index := .inr ⟨scope, Heap.rawGetText_rawSetText_self present .., known⟩
  newindex := by rw [Heap.rawGetText_rawSetText_of_ne (by decide), leads.newindex]
  others k index newindex := by
    rw [Heap.rawSetText, Heap.rawGet_rawSet_of_key_ne (Ne.symm index)]
    exact leads.others k index newindex

theorem Seals.touches_setCurrent (seals : V.Seals h) (holds : V.Holds scope) :
    V.Touches (fun id => V.lookup? = some id) h (setCurrent scope h) := by
  have guards := seals.toGuards
  unfold setCurrent
  cases marked : h.globalsMetatable? with
  | none => exact (Passes.refl guards).touches
  | some m =>
      rcases seals.floating m marked with linked | ⟨unlinked, isOpen⟩
      · rcases holds with ⟨_, known⟩ | ⟨unlinked, _⟩
        case inr =>
          rw [linked] at unlinked
          cases unlinked
        have size : (h.rawSetText m "__index" (.table scope)).tables.size = h.tables.size :=
          Heap.size_tables_rawSet h m _ _
        refine ⟨Nat.le_of_eq size.symm, ?_, rfl, fun id _ other => ?_⟩
        · rw [guards.on_of_size size]
          refine guards.modifySecret (.inl linked) _ ?_ (fun _ => ?_) fun isScope => ?_
          · rw [Table.metatable?_set, guards.plain m (.inl linked)]
          · refine (guards.lookup m linked).look ?_ known
            rw [guards.size]
            exact guards.present m (.inl linked)
          · exact absurd linked (guards.scope m isScope).1
        · refine Heap.table_rawSet_of_ne ?_ (.ofText "__index") _
          rintro rfl
          exact other linked
      · rcases holds with ⟨linked, _⟩ | ⟨_, shared⟩
        case inl => exact absurd unlinked linked
        have passes := guards.rawSet (k := .ofText "__index") (v := .table scope) isOpen trivial
          shared fun _ linked => absurd unlinked linked
        exact passes.touches

/-! ## Entering and leaving -/

/-- Globals are looked up in the scopes that were there before, in the same order. -/
structure Stays (V W : Vault) (h after : Heap) : Prop where
  scopes : ∀ id, V.scope id → after.table id = h.table id
  front : W.front? after = V.front? h

/-- A new scope has come to the front. -/
structure Opens (V W : Vault) (h after : Heap) (guard : BindingGuard) : Prop where
  scopes : ∀ id, V.scope id → after.table id = h.table id
  fresh : ¬ V.scope guard.scope
  front : W.lookup? ≠ none → W.front? after = some guard.scope
  previous : W.lookup? ≠ none → guard.previous? = V.front? h

/-- A new scope has gone again, unless there was none before it: then it is blank. -/
structure Closes (V W : Vault) (h after : Heap) : Prop where
  scopes : ∀ id, V.scope id → after.table id = h.table id
  front : W.front? after = V.front? h ∨
    V.front? h = none ∧ ∀ s, W.front? after = some s → Blank after s

theorem Passes.stays (passes : V.Passes h after) (guards : V.Guards h) :
    V.Stays (V.on after) h after :=
  ⟨fun id known => passes.secret id (.inr known), passes.front? guards⟩

theorem Stays.trans (first : V.Stays W h middle) (second : W.Stays X middle after)
    (later : V.Later W) : V.Stays X h after :=
  ⟨fun id known => (second.scopes id (later.scope id known)).trans (first.scopes id known),
    second.front.trans first.front⟩

theorem Stays.closes (stays : V.Stays W h after) : V.Closes W h after :=
  ⟨stays.scopes, .inl stays.front⟩

theorem Closes.passes (closes : V.Closes W h middle) (later : V.Later W) (seals : W.Seals middle)
    (passes : W.Passes middle after) : V.Closes (W.on after) h after where
  scopes id known :=
    (passes.secret id (.inr (later.scope id known))).trans (closes.scopes id known)
  front := by
    rw [passes.front? seals.toGuards]
    rcases closes.front with same | ⟨none, isBlank⟩
    · exact .inl same
    · refine .inr ⟨none, fun s front binding => ?_⟩
      rw [Heap.rawGetText, Heap.rawGet, passes.secret s (.inr (seals.scope_of_front? front))]
      exact isBlank s front binding

theorem Seals.addScope (seals : V.Seals h) :
    ∃ W, V.Later W ∧ W.lookup? = V.lookup? ∧ W.Seals (h.newTable {}).2 ∧
      W.Holds (h.newTable {}).1 := by
  cases linked : V.lookup? with
  | none =>
      have passes := seals.newTable (t := {}) (shows_empty V) fun m linked => by cases linked
      exact ⟨V.on _, seals.later passes, linked, seals.passes passes,
        .inr ⟨linked, seals.open_new {}⟩⟩
  | some m =>
      obtain ⟨later, guards⟩ := seals.hideTable (t := {}) (shows_empty V) rfl
      refine ⟨_, later, linked, ⟨guards, seals.tended, seals.manages, fun n marked => ?_⟩,
        .inl ⟨?_, .inr rfl⟩⟩
      · obtain rfl := Option.some.inj ((seals.marker m linked).symm.trans marked)
        exact .inl linked
      · show V.lookup? ≠ none
        simp [linked]

/-- There is a new scope, which is not in front yet. -/
structure Adds (V W : Vault) (h after : Heap) (scope : TableId) : Prop where
  later : V.Later W
  lookup? : W.lookup? = V.lookup?
  seals : W.Seals after
  holds : W.Holds scope
  stays : V.Stays W h after
  fresh : ¬ V.scope scope
  globalsMetatable? : after.globalsMetatable? = h.globalsMetatable?

theorem Adds.passes (adds : V.Adds W h middle scope) (passes : W.Passes middle after) :
    V.Adds (W.on after) h after scope where
  later := adds.later.trans (adds.seals.later passes)
  lookup? := adds.lookup?
  seals := adds.seals.passes passes
  holds := adds.holds.mono (adds.seals.later passes) rfl
  stays := adds.stays.trans (passes.stays adds.seals.toGuards) adds.later
  fresh := adds.fresh
  globalsMetatable? := passes.globalsMetatable?.trans adds.globalsMetatable?

theorem Seals.build (seals : V.Seals h) (subject : Subject) :
    ∃ W, V.Adds W h (Scope.build subject h).2 (Scope.build subject h).1 := by
  obtain ⟨W, later, same, added, holds⟩ := seals.addScope
  have touches : W.Touches (· = (Scope.build subject h).1) (h.newTable {}).2
      (Scope.build subject h).2 :=
    added.touches_binds holds subject (fun id _ => added.manages id) Binding.all
  have named : (Scope.build subject h).1 = (h.newTable {}).1 := rfl
  rw [← named] at holds
  have known : ∀ {id : TableId}, V.Secret id →
      id.index < h.tables.size ∧ id ≠ (Scope.build subject h).1 := by
    intro id secret
    have present := seals.present id secret
    rw [← seals.size] at present
    refine ⟨present, ?_⟩
    rintro rfl
    exact Nat.lt_irrefl _ present
  generalize Scope.build subject h = made at touches holds known ⊢
  obtain ⟨scope, after⟩ := made
  have kept : ∀ id, V.Secret id → after.table id = h.table id := by
    intro id secret
    obtain ⟨present, other⟩ := known secret
    exact (touches.secret id (later.secret secret) other).trans
      (Heap.table_newTable_of_lt present {})
  have further := touches.later added.toGuards
  refine ⟨W.on after, later.trans further, same, added.touches touches, holds.mono further rfl,
    ⟨fun id isScope => kept id (.inr isScope), front?_congr same fun m linked => ?_⟩,
    fun isScope => (known (.inr isScope)).2 rfl, touches.globalsMetatable?⟩
  have marked := seals.marker m linked
  exact ⟨marked, touches.globalsMetatable?.trans marked, kept m (.inl linked)⟩

theorem Seals.front?_setCurrent (seals : V.Seals h) (linked : V.lookup? = some m) :
    (V.on (setCurrent scope h)).front? (setCurrent scope h) = some scope := by
  have marked := seals.marker m linked
  have present : m.index < h.tables.size := by
    rw [seals.size]
    exact seals.present m (.inl linked)
  have entered : setCurrent scope h = h.rawSetText m "__index" (.table scope) := by
    simp only [setCurrent, marked]
  rw [front?_of_lookup? (V := V.on _) linked, entered,
    current?_of_link (h := h.rawSetText m "__index" (.table scope)) marked,
    Heap.rawGetText_rawSetText_self present]

/-- A new scope has come to the front, and the host holds it. -/
structure Enters (V W : Vault) (h after : Heap) (guard : BindingGuard) : Prop where
  later : V.Later W
  lookup? : W.lookup? = V.lookup?
  seals : W.Seals after
  covers : W.Covers guard
  opens : V.Opens W h after guard
  globalsMetatable? : after.globalsMetatable? = h.globalsMetatable?

theorem Adds.enter (adds : V.Adds W h middle scope) (engine : EngineId) :
    V.Enters (W.on (Scope.enter scope middle).2) h (Scope.enter scope middle).2
      ⟨engine, scope, (Scope.enter scope middle).1⟩ := by
  have seals := adds.seals
  have set := seals.touches_setCurrent adds.holds
  have touches : W.Touches (fun id => W.lookup? = some id) middle (Scope.enter scope middle).2 :=
    set.trans (set.guards.passes_hold _).touches
  have further := touches.later seals.toGuards
  refine ⟨adds.later.trans further, adds.lookup?, seals.touches touches,
    ⟨adds.holds.mono further rfl, fun p previous => ?_⟩,
    ⟨fun id known => ?_, adds.fresh, fun linked => ?_, fun linked => ?_⟩,
    touches.globalsMetatable?.trans adds.globalsMetatable?⟩
  · exact (seals.holds_current previous).mono further rfl
  · have isScope := adds.later.scope id known
    exact (touches.secret id (.inr isScope) (seals.scope id isScope).1).trans
      (adds.stays.scopes id known)
  · obtain ⟨m, linked⟩ := Option.ne_none_iff_exists'.mp linked
    exact seals.front?_setCurrent linked
  · obtain ⟨m, linked⟩ := Option.ne_none_iff_exists'.mp linked
    exact (front?_of_lookup? linked).symm.trans adds.stays.front

theorem reenter_first (first : guard.previous? = none) : reenter guard h = h := by
  rw [reenter, first]

theorem reenter_of_current {p : TableId} (before : guard.previous? = some p)
    (current : current? h = some guard.scope) : reenter guard h = setCurrent p h := by
  rw [reenter, before]
  exact if_pos current

theorem Seals.touches_reenter (seals : V.Seals h) (covers : V.Covers guard) :
    V.Touches (fun id => V.lookup? = some id) h (reenter guard h) := by
  have same := Passes.refl seals.toGuards
  unfold reenter
  cases before : guard.previous? with
  | none => exact same.touches
  | some p =>
      dsimp only
      split
      · exact seals.touches_setCurrent (covers.previous p before)
      · exact same.touches

/-- When the scope in front is blank, the one before it comes back. -/
theorem Opens.reenter (opens : V.Opens W h middle guard) (later : V.Later W)
    (seals : W.Seals middle) (covers : W.Covers guard)
    (blanked : W.Touches (· = guard.scope) middle after) (isBlank : Blank after guard.scope) :
    V.Closes (W.on (Scope.reenter guard after)) h (Scope.reenter guard after) := by
  have sealed := seals.touches blanked
  have reentered :=
    sealed.touches_reenter (covers.mono (blanked.later seals.toGuards) rfl)
  refine ⟨fun id known => ?_, ?_⟩
  · have isScope := later.scope id known
    have own : id ≠ guard.scope := by
      rintro rfl
      exact opens.fresh known
    refine (reentered.secret id (.inr isScope) (seals.scope id isScope).1).trans ?_
    exact (blanked.secret id (.inr isScope) own).trans (opens.scopes id known)
  cases linked : W.lookup? with
  | none =>
      have unlinked : V.lookup? = none := by
        cases before : V.lookup? with
        | none => rfl
        | some m =>
            have same := later.lookup? m before
            rw [linked] at same
            cases same
      rw [front?_of_unlinked unlinked]
      exact .inl (front?_of_unlinked (V := W.on _) linked)
  | some m =>
      have isLinked : W.lookup? ≠ none := by simp [linked]
      have previous := opens.previous isLinked
      have other : ∀ n, W.lookup? = some n → n ≠ guard.scope := by
        rintro n found rfl
        rcases covers.scope with ⟨_, known⟩ | ⟨unlinked, _⟩
        · exact (seals.scope _ known).1 found
        · exact isLinked unlinked
      have front := (blanked.front? seals.toGuards other).trans (opens.front isLinked)
      cases before : guard.previous? with
      | some p =>
          have current := (front?_of_lookup? (V := W.on after) linked).symm.trans front
          rw [reenter_of_current before current]
          refine .inl (Eq.trans ?_ (before.symm.trans previous))
          exact sealed.front?_setCurrent linked
      | none =>
          rw [reenter_first before]
          refine .inr ⟨previous.symm.trans before, fun s found => ?_⟩
          obtain rfl := Option.some.inj (front.symm.trans found)
          exact isBlank

/-- Leaving a scope keeps secrets, and takes the scope in front away again. -/
theorem Seals.leave (seals : V.Seals h) (covers : V.Covers guard) :
    (V.on (Scope.leave guard h)).Seals (Scope.leave guard h) ∧
      V.Later (V.on (Scope.leave guard h)) ∧
      (Scope.leave guard h).globalsMetatable? = h.globalsMetatable? ∧
      ∀ {X : Vault} {before : Heap}, X.Opens V before h guard → X.Later V →
        X.Closes (V.on (Scope.leave guard h)) before (Scope.leave guard h) := by
  have blanked := seals.touches_blank covers.scope
  have isBlank := (blank_spec (seals.present_of_holds covers.scope)).2
  have closes : ∀ {X : Vault} {before : Heap}, X.Opens V before h guard → X.Later V →
      X.Closes (V.on (reenter guard (blank guard.scope h))) before
        (reenter guard (blank guard.scope h)) :=
    fun opens later => opens.reenter later seals covers blanked isBlank
  unfold Scope.leave
  generalize blank guard.scope h = middle at blanked closes ⊢
  have sealed := seals.touches blanked
  have reentered := sealed.touches_reenter (covers.mono (blanked.later seals.toGuards) rfl)
  have whole : V.Touches (fun _ => True) h (reenter guard middle) :=
    (blanked.mono fun _ _ => trivial).trans (reentered.mono fun _ _ => trivial)
  generalize reenter guard middle = after at whole closes ⊢
  have passes := whole.guards.passes_hold
    (guard.previous?.toList.foldl List.erase (after.held.erase guard.scope))
  have left := seals.touches whole
  refine ⟨left.passes passes, (whole.later seals.toGuards).trans (left.later passes),
    whole.globalsMetatable?, fun opens later => ?_⟩
  exact (closes opens later).passes (later.trans (whole.later seals.toGuards)) left passes

end Vault

/-! ## The metatable of the globals -/

/-- A heap with a metatable of the globals that the host knows. -/
def Heap.linkGlobals (h : Heap) (m : TableId) : Heap :=
  { h.modifyTable h.globals fun t => { t with metatable? := some m } with
    globalsMetatable? := some m }

namespace Heap

variable {h : Heap} {m id : TableId}

theorem table_linkGlobals_self (present : h.globals.index < h.tables.size) :
    (h.linkGlobals m).table h.globals = { h.table h.globals with metatable? := some m } :=
  table_modifyTable_self present _

theorem table_linkGlobals_of_ne (other : id ≠ h.globals) :
    (h.linkGlobals m).table id = h.table id :=
  table_modifyTable_of_ne other _

theorem rawGet_linkGlobals (present : h.globals.index < h.tables.size) (k : Key) :
    (h.linkGlobals m).rawGet id k = h.rawGet id k := by
  by_cases other : id = h.globals
  · rw [other, rawGet, table_linkGlobals_self present, rawGet]
    rfl
  · rw [rawGet, table_linkGlobals_of_ne other, rawGet]

end Heap

namespace Vault

variable {V : Vault} {h middle : Heap} {id m : TableId}

/-- The same secrets, one of which has become the metatable of the globals. -/
def linking (V : Vault) (m : TableId) : Vault :=
  { V with lookup? := some m, scope := fun id => V.scope id ∧ id ≠ m }

theorem secret_linking (unlinked : V.lookup? = none) (hidden : V.scope m) :
    (V.linking m).Secret id ↔ V.Secret id := by
  constructor
  · rintro (linked | ⟨known, _⟩)
    · obtain rfl := Option.some.inj linked
      exact .inr hidden
    · exact .inr known
  · rintro (linked | known)
    · rw [unlinked] at linked
      cases linked
    · by_cases same : m = id
      · exact .inl (congrArg some same)
      · exact .inr ⟨known, Ne.symm same⟩

theorem wider_linking (unlinked : V.lookup? = none) (hidden : V.scope m) :
    V.Wider (V.linking m) := by
  refine ⟨?_, fun _ => id⟩
  rintro id ⟨present, public_⟩
  exact ⟨present, fun secret => public_ ((secret_linking unlinked hidden).mp secret)⟩

/-- The globals get a metatable that nothing else leads to. -/
theorem Guards.linking (guards : V.Guards h) (tended : V.tended) (unlinked : V.lookup? = none)
    (hidden : V.scope m) (leads : (V.linking m).Leads h m)
    (unshadowed : ∀ binding : Binding, h.rawGetText h.globals binding.name = .nil) :
    (V.linking m).Guards (h.linkGlobals m) := by
  have same : ∀ {id : TableId}, (V.linking m).Secret id ↔ V.Secret id :=
    secret_linking unlinked hidden
  have wider := wider_linking unlinked hidden
  have present : h.globals.index < h.tables.size := by
    rw [guards.size, guards.globals]
    exact guards.open_globals.1
  have linked : (h.linkGlobals m).table V.globals =
      { h.table V.globals with metatable? := some m } := by
    rw [← guards.globals, Heap.table_linkGlobals_self present]
  have rests := guards.rests.mono wider
  refine .ofSuits guards.globals ((Heap.size_tables_modifyTable h _ _).trans guards.size)
    (wider.opens _ guards.open_globals) (fun id isSecret => guards.present id (same.mp isSecret))
    (fun _ => tended) (fun n found => found) (fun id known found => known.2 (Option.some.inj found).symm)
    { rests with }
    fun id => ?_
  have suits := guards.suits id
  by_cases isGlobals : id = V.globals
  · subst isGlobals
    have notSecret : ¬ (V.linking m).Secret V.globals := fun isSecret =>
      guards.open_globals.2 (same.mp isSecret)
    exact {
      plain := fun isSecret => absurd isSecret notSecret
      link := fun _ _ => by rw [linked]; rfl
      lookup := fun found => absurd (.inl found) notSecret
      scope := fun known => absurd (.inr known) notSecret
      shows := fun _ => by
        have shown := suits.shows guards.open_globals.2
        rw [linked]
        exact shown.mono wider
      metatable := fun _ different => absurd rfl (different tended)
      unshadowed := fun _ _ binding => by
        rw [← guards.globals, Heap.rawGetText, Heap.rawGet_linkGlobals present]
        exact unshadowed binding }
  · refine Suits.congr ?_ (Heap.table_linkGlobals_of_ne (by rwa [guards.globals]))
    exact {
      plain := fun isSecret => suits.plain (same.mp isSecret)
      link := fun _ here => absurd here isGlobals
      lookup := fun found => Option.some.inj found ▸ leads
      scope := fun known k => wider.shares (suits.scope known.1 k)
      shows := fun isOpen => (suits.shows fun isSecret => isOpen (same.mpr isSecret)).mono wider
      metatable := fun isOpen _ n found =>
        wider.opens n (suits.metatable (fun isSecret => isOpen (same.mpr isSecret)) (fun _ => isGlobals)
          n found)
      unshadowed := fun here => absurd here isGlobals }

/-- The table that the host makes for the metatable of the globals. -/
abbrev lookupTable : Table := .ofEntries [("__newindex", .builtin (.host .guardAssignment))]

theorem get_lookupTable_newindex :
    lookupTable.get (.ofText "__newindex") = .builtin (.host .guardAssignment) := by
  rw [lookupTable, Table.ofEntries, List.foldl_cons, List.foldl_nil, Table.get_setText, if_pos rfl]

theorem get_lookupTable_of_ne {k : Key} (other : k ≠ .ofText "__newindex") :
    lookupTable.get k = .nil := by
  refine Table.get_ofEntries_of_ne fun entry member => ?_
  obtain rfl := List.mem_singleton.mp member
  exact other.symm

theorem shows_lookupTable (V : Vault) : V.Shows lookupTable := by
  refine shows_ofEntries fun entry member => ?_
  obtain rfl := List.mem_singleton.mp member
  trivial

theorem Seals.unlinked (seals : V.Seals h) (unmarked : h.globalsMetatable? = none) :
    V.lookup? = none := by
  cases linked : V.lookup? with
  | none => rfl
  | some m =>
      rw [seals.marker m linked] at unmarked
      cases unmarked

/-- The host may take an open table for the metatable of globals that have none. -/
theorem Seals.mark (seals : V.Seals h) (unlinked : V.lookup? = none) (isOpen : V.Open m) :
    V.Seals { h with globalsMetatable? := some m } := by
  refine ⟨{
    globals := seals.globals
    size := seals.size
    open_globals := seals.open_globals
    present := seals.present
    plain := seals.plain
    tends := seals.tends
    link := seals.link
    marker := fun n linked => absurd unlinked (by simp [linked])
    lookup := fun n linked => absurd unlinked (by simp [linked])
    scope := seals.scope
    shows := seals.shows
    metatable := seals.metatable
    unshadowed := seals.unshadowed
    rests := { seals.rests with } }, seals.tended, seals.manages, fun n marked => ?_⟩
  obtain rfl := Option.some.inj marked
  exact .inr ⟨unlinked, isOpen⟩

/-- The globals get a new metatable. It leads nowhere yet, and scripts will not come to it. -/
theorem Seals.install (seals : V.Seals h) (unlinked : V.lookup? = none)
    (passes : (V.withScope (h.newTable lookupTable).2 (h.newTable lookupTable).1).Passes
      (h.newTable lookupTable).2 middle)
    (unshadowed : ∀ binding : Binding, middle.rawGetText middle.globals binding.name = .nil) :
    ∃ W, V.Later W ∧ W.Seals (middle.linkGlobals (h.newTable lookupTable).1) ∧
      V.Stays W h (middle.linkGlobals (h.newTable lookupTable).1) := by
  obtain ⟨hides, hidden⟩ := seals.hideTable (shows_lookupTable V) (Table.metatable?_ofEntries _)
  have old : ∀ {id : TableId}, V.scope id → id.index < h.tables.size := by
    intro id known
    rw [seals.size]
    exact seals.present id (.inr known)
  have made : middle.table (h.newTable lookupTable).1 = lookupTable :=
    (passes.secret _ (.inr (.inr rfl))).trans (Heap.table_newTable_self h lookupTable)
  have fields : ∀ k, middle.rawGet (h.newTable lookupTable).1 k = lookupTable.get k :=
    fun k => by rw [Heap.rawGet, made]
  have index : middle.rawGetText (h.newTable lookupTable).1 "__index" = .nil :=
    (fields _).trans (get_lookupTable_of_ne (Key.ofText_ne (by decide)))
  have fresh : ∀ {id : TableId}, V.scope id → id ≠ (h.newTable lookupTable).1 := by
    rintro id known rfl
    exact Nat.lt_irrefl _ (old known)
  have guards := passes.guards.linking seals.tended unlinked (m := (h.newTable lookupTable).1) (.inr rfl)
    ⟨.inl index, (fields _).trans get_lookupTable_newindex,
      fun k _ newindex => (fields k).trans (get_lookupTable_of_ne newindex)⟩ unshadowed
  have globals : middle.globals.index < middle.tables.size := by
    rw [passes.guards.size, passes.guards.globals]
    exact passes.guards.open_globals.1
  generalize (h.newTable lookupTable).1 = m at *
  refine ⟨_, ?_, ⟨guards, seals.tended, seals.manages, fun n marked => .inl marked⟩,
    fun id known => ?_, ?_⟩
  · refine ⟨rfl, ?_, fun n linked => ?_, fun id known => ⟨.inl known, fresh known⟩,
      fun id secret => ?_, .rfl, fun _ => id⟩
    · exact Nat.le_trans hides.size ((hidden.later passes).size)
    · rw [unlinked] at linked
      cases linked
    · exact hides.fresh id ((secret_linking (V := V.withScope _ m) unlinked (.inr rfl)).mp secret)
  · rw [Heap.table_linkGlobals_of_ne]
    · refine (passes.secret id (.inr (.inl known))).trans ?_
      exact Heap.table_newTable_of_lt (old known) lookupTable
    · exact passes.guards.globals ▸ passes.guards.secret_ne (.inr (.inl known))
  · rw [front?_of_unlinked unlinked]
    refine (front?_of_lookup? (m := m) rfl).trans ?_
    rw [Scope.current?_of_link (m := m) rfl, Heap.rawGetText, Heap.rawGet_linkGlobals globals]
    rw [Heap.rawGetText] at index
    rw [index]

end Vault

end ScriptHost.Lua
