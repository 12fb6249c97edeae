import ScriptHost.Binding
import ScriptHost.Proofs.HeapFrame

/-!
# Tables that scripts cannot reach

A host keeps some tables of an engine to itself: the metatable of the globals, and the scopes that
are looked up by it. Nothing that scripts can hold leads to one of them, and no change to a heap
that scripts can make alters this.
-/

set_option autoImplicit false

namespace ScriptHost.Lua

/-- Which tables of an engine a host keeps to itself, and how many tables there are. -/
structure Vault where
  globals : TableId
  /-- The metatable of the globals, if they have one. -/
  lookup? : Option TableId
  /-- The tables in which globals are looked up. -/
  scope : TableId → Prop
  size : Nat
  /-- Whether scripts leave the metatable of the globals to the host. -/
  tended : Prop
  /-- The managers of which scripts may have handles. -/
  manages : ManagerId → Prop

namespace Vault

def Secret (V : Vault) (id : TableId) : Prop := V.lookup? = some id ∨ V.scope id

/-- A table that is there and that scripts may hold. -/
def Open (V : Vault) (id : TableId) : Prop := id.index < V.size ∧ ¬ V.Secret id

/-- The same secrets on a heap with other tables. -/
def on (V : Vault) (h : Heap) : Vault := { V with size := h.tables.size }

/-- One more scope on a heap with other tables. -/
def withScope (V : Vault) (h : Heap) (id : TableId) : Vault :=
  { V.on h with scope := fun other => V.scope other ∨ other = id }

/-- Tables are added, and only new ones are made secret. -/
structure Later (V W : Vault) : Prop where
  globals : W.globals = V.globals
  size : V.size ≤ W.size
  lookup? : ∀ m, V.lookup? = some m → W.lookup? = some m
  scope : ∀ id, V.scope id → W.scope id
  fresh : ∀ id, W.Secret id → V.Secret id ∨ V.size ≤ id.index
  tended : W.tended ↔ V.tended
  manages : ∀ id, V.manages id → W.manages id

variable {V W X : Vault} {h middle after : Heap} {id : TableId}

theorem Later.refl (V : Vault) : V.Later V :=
  ⟨rfl, Nat.le_refl _, fun _ => id, fun _ => id, fun _ => .inl, .rfl, fun _ => id⟩

theorem Later.trans (first : V.Later W) (second : W.Later X) : V.Later X where
  globals := second.globals.trans first.globals
  size := Nat.le_trans first.size second.size
  lookup? m linked := second.lookup? m (first.lookup? m linked)
  scope id known := second.scope id (first.scope id known)
  fresh id secret := by
    rcases second.fresh id secret with old | new
    · exact first.fresh id old
    · exact .inr (Nat.le_trans first.size new)
  tended := second.tended.trans first.tended
  manages id known := second.manages id (first.manages id known)

theorem Later.secret (later : V.Later W) (secret : V.Secret id) : W.Secret id := by
  rcases secret with linked | known
  · exact .inl (later.lookup? id linked)
  · exact .inr (later.scope id known)

theorem Later.open (later : V.Later W) (isOpen : V.Open id) : W.Open id := by
  obtain ⟨present, public_⟩ := isOpen
  refine ⟨Nat.lt_of_lt_of_le present later.size, fun secret => ?_⟩
  rcases later.fresh id secret with old | new
  · exact public_ old
  · exact absurd present (Nat.not_lt.mpr new)

/-- What scripts may hold in one vault they may hold in the other. -/
structure Wider (V W : Vault) : Prop where
  opens : ∀ id, V.Open id → W.Open id
  manages : ∀ id, V.manages id → W.manages id

theorem Later.wider (later : V.Later W) : V.Wider W := ⟨fun _ => later.open, later.manages⟩

theorem later_on (size : V.size ≤ h.tables.size) : V.Later (V.on h) :=
  ⟨rfl, size, fun _ => id, fun _ => id, fun _ => .inl, .rfl, fun _ => id⟩

end Vault

/-! ## What scripts may hold -/

/-- What a part of a script may yield. -/
class Disclosed (α : Type) where
  Public : Vault → α → Prop
  mono : ∀ {V W : Vault} {a : α}, V.Wider W → Public V a → Public W a

/-- What carries no values of scripts may be yielded in any case. -/
instance (priority := low) plainDisclosed (α : Type) : Disclosed α where
  Public _ _ := True
  mono _ := id

/-- A value that is none of the tables that the host keeps to itself. -/
def Value.Public (V : Vault) : Value → Prop
  | .table id => V.Open id
  | _ => True

theorem Value.Public.mono {V W : Vault} {v : Value} (wider : V.Wider W) (shared : v.Public V) :
    v.Public W := by
  cases v with
  | table id => exact wider.opens id shared
  | _ => trivial

instance : Disclosed Value := ⟨Value.Public, Value.Public.mono⟩

instance : Disclosed TableId := ⟨Vault.Open, fun wider => wider.opens _⟩

/-- A handle of a manager is for scripts that may have it. -/
instance : Disclosed (Option ManagerId) where
  Public V id? := ∀ id, id? = some id → V.manages id
  mono wider shared id same := wider.manages id (shared id same)

instance : Disclosed Resource where
  Public V r := ∀ id, r = .manager (some id) → V.manages id
  mono wider shared id same := wider.manages id (shared id same)

instance : Disclosed (Option Resource) where
  Public V r? := ∀ id, r? = some (.manager (some id)) → V.manages id
  mono wider shared id same := wider.manages id (shared id same)

instance : Disclosed (List Value) where
  Public V values := ∀ v ∈ values, v.Public V
  mono wider shared v member := (shared v member).mono wider

instance : Disclosed (Value × Value) where
  Public V pair := pair.1.Public V ∧ pair.2.Public V
  mono wider shared := ⟨shared.1.mono wider, shared.2.mono wider⟩

instance : Disclosed (Nat × Value) where
  Public V pair := pair.2.Public V
  mono wider shared := shared.mono wider

/-- What a script may catch. -/
def Thrown.Public (V : Vault) : Thrown → Prop
  | .error v => v.Public V
  | .outOfMemory => True

theorem Thrown.Public.mono {V W : Vault} {thrown : Thrown} (wider : V.Wider W)
    (shared : thrown.Public V) : thrown.Public W := by
  cases thrown with
  | error v => exact Value.Public.mono wider shared
  | outOfMemory => trivial

instance : Disclosed Thrown := ⟨Thrown.Public, Thrown.Public.mono⟩

instance : Disclosed (Except Thrown (List Value)) where
  Public V
    | .ok values => ∀ v ∈ values, v.Public V
    | .error thrown => thrown.Public V
  mono {V W result} wider shared := by
    cases result with
    | ok values => exact fun v member => (shared v member).mono wider
    | error thrown => exact Thrown.Public.mono wider shared

instance : Disclosed (Except String Value) where
  Public V
    | .ok v => v.Public V
    | .error _ => True
  mono {V W result} wider shared := by
    cases result with
    | ok v => exact Value.Public.mono wider shared
    | error _ => trivial

instance : Disclosed (Except Unit (Option (Value × Value))) where
  Public V
    | .ok (some pair) => pair.1.Public V ∧ pair.2.Public V
    | _ => True
  mono {V W result} wider shared := by
    rcases result with _ | (_ | pair)
    · trivial
    · trivial
    · exact ⟨shared.1.mono wider, shared.2.mono wider⟩

/-- The host may share a result with its scripts. -/
abbrev Vault.Shares {α : Type} [Disclosed α] (V : Vault) (a : α) : Prop := Disclosed.Public V a

theorem Vault.Wider.shares {V W : Vault} {α : Type} [Disclosed α] {a : α} (wider : V.Wider W)
    (shared : V.Shares a) : W.Shares a :=
  Disclosed.mono wider shared

theorem Vault.Later.shares {V W : Vault} {α : Type} [Disclosed α] {a : α} (later : V.Later W)
    (shared : V.Shares a) : W.Shares a :=
  later.wider.shares shared

/-- A closure holds on to nothing secret; the cells of a script function are its own affair. -/
def Closure.Public (V : Vault) : Closure → Prop
  | .native _ captured => V.Shares captured
  | .script .. => True

theorem Closure.Public.mono {V W : Vault} {c : Closure} (wider : V.Wider W)
    (shared : c.Public V) : c.Public W := by
  cases c with
  | native f captured => exact wider.shares shared
  | script chunk proto captured => trivial

namespace Vault

variable {V W : Vault} {h middle after : Heap} {id : TableId}

/-! ## Heaps that keep their secrets -/

/-- How a metatable of the globals leads to a scope, and to nothing else. -/
structure Leads (V : Vault) (h : Heap) (m : TableId) : Prop where
  index : h.rawGetText m "__index" = .nil ∨
    ∃ scope, h.rawGetText m "__index" = .table scope ∧ V.scope scope
  newindex : h.rawGetText m "__newindex" = .builtin (.host .guardAssignment)
  others : ∀ k, k ≠ .ofText "__index" → k ≠ .ofText "__newindex" → h.rawGet m k = .nil

/-- Nothing besides the tables leads to a secret. -/
structure Rests (V : Vault) (h : Heap) : Prop where
  strings : ∀ m, h.stringMetatable? = some m → V.Open m
  arrays : V.Open h.arrayMetatable
  loaded : V.Open h.loaded
  cells : ∀ v ∈ h.cells, V.Shares v
  closures : ∀ c ∈ h.closures, c.Public V
  bodies : ∀ c ∈ h.coroutines, V.Shares c.body
  handles : ∀ r ∈ h.userdata, V.Shares r

/-- Fields that scripts may read. -/
def Shows (V : Vault) (t : Table) : Prop :=
  ∀ k, (t.get k).isNil = false → V.Shares k.value ∧ V.Shares (t.get k)

/-- The globals have the metatable of the vault, which leads to its scopes, and nothing else in the
heap leads to either. Behind this metatable no global has the name of a binding. If the metatable of
the globals is not tended, the host has not set it, and it is a table like others. -/
structure Guards (V : Vault) (h : Heap) : Prop where
  globals : h.globals = V.globals
  size : h.tables.size = V.size
  open_globals : V.Open V.globals
  present : ∀ id, V.Secret id → id.index < V.size
  plain : ∀ id, V.Secret id → (h.table id).metatable? = none
  tends : V.lookup? ≠ none → V.tended
  link : V.tended → (h.table V.globals).metatable? = V.lookup?
  marker : ∀ m, V.lookup? = some m → h.globalsMetatable? = some m
  lookup : ∀ m, V.lookup? = some m → V.Leads h m
  scope : ∀ id, V.scope id → V.lookup? ≠ some id ∧ ∀ k, V.Shares (h.rawGet id k)
  shows : ∀ id, ¬ V.Secret id → V.Shows (h.table id)
  metatable : ∀ id m, ¬ V.Secret id → (V.tended → id ≠ V.globals) →
    (h.table id).metatable? = some m → V.Open m
  unshadowed : V.lookup? ≠ none →
    ∀ binding : Binding, h.rawGetText h.globals binding.name = .nil
  rests : V.Rests h

/-- From `h` to `after`, the secrets are kept, and none of the secret tables has changed. -/
structure Passes (V : Vault) (h after : Heap) : Prop where
  grown : h.tables.size ≤ after.tables.size
  guards : (V.on after).Guards after
  globalsMetatable? : after.globalsMetatable? = h.globalsMetatable?
  secret : ∀ id, V.Secret id → after.table id = h.table id

theorem Guards.on_self (guards : V.Guards h) : V.on h = V := by
  rw [on, guards.size]

theorem Guards.on_of_size (guards : V.Guards h) (size : after.tables.size = h.tables.size) :
    V.on after = V := by
  rw [on, size, guards.size]

theorem Guards.later (guards : V.Guards h) (passes : V.Passes h after) : V.Later (V.on after) :=
  later_on (by rw [← guards.size]; exact passes.grown)

theorem Passes.refl (guards : V.Guards h) : V.Passes h h where
  grown := Nat.le_refl _
  guards := by rwa [guards.on_self]
  globalsMetatable? := rfl
  secret _ _ := rfl

theorem Passes.trans (first : V.Passes h middle) (second : (V.on middle).Passes middle after) :
    V.Passes h after where
  grown := Nat.le_trans first.grown second.grown
  guards := second.guards
  globalsMetatable? := second.globalsMetatable?.trans first.globalsMetatable?
  secret id secret := (second.secret id secret).trans (first.secret id secret)

theorem Rests.mono (rests : V.Rests h) (wider : V.Wider W) : W.Rests h where
  strings m shared := wider.opens m (rests.strings m shared)
  arrays := wider.opens _ rests.arrays
  loaded := wider.opens _ rests.loaded
  cells v member := wider.shares (rests.cells v member)
  closures c member := (rests.closures c member).mono wider
  bodies c member := wider.shares (rests.bodies c member)
  handles r member := wider.shares (rests.handles r member)

theorem Shows.mono {t : Table} (shows_ : V.Shows t) (wider : V.Wider W) : W.Shows t :=
  fun k live => ⟨wider.shares (shows_ k live).1, wider.shares (shows_ k live).2⟩

theorem shows_empty (V : Vault) : V.Shows {} := fun k live => by simp [Value.isNil] at live

/-- What a heap holds in the place of a table may be there. -/
structure Suits (V : Vault) (h : Heap) (id : TableId) : Prop where
  plain : V.Secret id → (h.table id).metatable? = none
  link : V.tended → id = V.globals → (h.table id).metatable? = V.lookup?
  lookup : V.lookup? = some id → V.Leads h id
  scope : V.scope id → ∀ k, V.Shares (h.rawGet id k)
  shows : ¬ V.Secret id → V.Shows (h.table id)
  metatable : ¬ V.Secret id → (V.tended → id ≠ V.globals) →
    ∀ m, (h.table id).metatable? = some m → V.Open m
  unshadowed : id = V.globals → V.lookup? ≠ none →
    ∀ binding : Binding, h.rawGetText id binding.name = .nil

theorem rawGet_congr (same : after.table id = h.table id) (k : Key) :
    after.rawGet id k = h.rawGet id k := by
  rw [Heap.rawGet, same, Heap.rawGet]

theorem Leads.congr (leads : V.Leads h id) (same : after.table id = h.table id) :
    V.Leads after id where
  index := by rw [Heap.rawGetText, rawGet_congr same]; exact leads.index
  newindex := by rw [Heap.rawGetText, rawGet_congr same]; exact leads.newindex
  others k index newindex := by rw [rawGet_congr same]; exact leads.others k index newindex

theorem Leads.mono (leads : V.Leads h id) (later : V.Later W) : W.Leads h id where
  index := by
    rcases leads.index with absent | ⟨scope, found, known⟩
    · exact .inl absent
    · exact .inr ⟨scope, found, later.scope scope known⟩
  newindex := leads.newindex
  others := leads.others

theorem Suits.congr (suits : V.Suits h id) (same : after.table id = h.table id) :
    V.Suits after id where
  plain := by rw [same]; exact suits.plain
  link := by rw [same]; exact suits.link
  lookup linked := (suits.lookup linked).congr same
  scope known k := by rw [rawGet_congr same]; exact suits.scope known k
  shows := by rw [same]; exact suits.shows
  metatable := by rw [same]; exact suits.metatable
  unshadowed here linked binding := by
    rw [Heap.rawGetText, rawGet_congr same]
    exact suits.unshadowed here linked binding

/-- What was there before suits its place also when there are new tables. -/
theorem Suits.mono (suits : V.Suits h id) (later : V.Later W) (lookup? : W.lookup? = V.lookup?)
    (old : W.scope id → V.scope id) : W.Suits h id where
  plain secret := suits.plain (secret.imp (fun linked => lookup? ▸ linked) old)
  link tended here := by
    rw [lookup?, suits.link (later.tended.mp tended) (here.trans later.globals)]
  lookup linked := (suits.lookup (lookup? ▸ linked)).mono later
  scope known k := later.shares (suits.scope (old known) k)
  shows isOpen := (suits.shows fun secret => isOpen (later.secret secret)).mono later.wider
  metatable isOpen notGlobals m linked :=
    later.open (suits.metatable (fun secret => isOpen (later.secret secret))
      (fun tended => later.globals ▸ notGlobals (later.tended.mpr tended)) m linked)
  unshadowed here linked := suits.unshadowed (here.trans later.globals) (lookup? ▸ linked)

namespace Guards

/-! ### Reading -/

theorem shares_table (guards : V.Guards h) : V.Shares (Value.table h.globals) := by
  rw [guards.globals]
  exact guards.open_globals

theorem secret_ne (guards : V.Guards h) (secret : V.Secret id) : id ≠ V.globals := by
  rintro rfl
  exact guards.open_globals.2 secret

theorem suits (guards : V.Guards h) (id : TableId) : V.Suits h id where
  plain := guards.plain id
  link := by
    rintro tended rfl
    exact guards.link tended
  lookup := guards.lookup id
  scope known := (guards.scope id known).2
  shows := guards.shows id
  metatable isOpen notGlobals m := guards.metatable id m isOpen notGlobals
  unshadowed := by
    rintro rfl linked binding
    rw [← guards.globals]
    exact guards.unshadowed linked binding

theorem ofSuits (globals : h.globals = V.globals) (size : h.tables.size = V.size)
    (open_globals : V.Open V.globals) (present : ∀ id, V.Secret id → id.index < V.size)
    (tends : V.lookup? ≠ none → V.tended)
    (marker : ∀ m, V.lookup? = some m → h.globalsMetatable? = some m)
    (apart : ∀ id, V.scope id → V.lookup? ≠ some id) (rests : V.Rests h)
    (suits : ∀ id, V.Suits h id) : V.Guards h where
  globals := globals
  size := size
  open_globals := open_globals
  present := present
  plain id := (suits id).plain
  tends := tends
  link tended := (suits V.globals).link tended rfl
  marker := marker
  lookup m := (suits m).lookup
  scope id known := ⟨apart id known, (suits id).scope known⟩
  shows id := (suits id).shows
  metatable id m isOpen notGlobals := (suits id).metatable isOpen notGlobals m
  unshadowed := by
    rw [globals]
    exact (suits V.globals).unshadowed rfl
  rests := rests

/-- The tables may change to others that suit their places. -/
theorem keep (guards : V.Guards h) (globals : after.globals = h.globals)
    (size : after.tables.size = h.tables.size)
    (marker : after.globalsMetatable? = h.globalsMetatable?) (rests : V.Rests after)
    (suits : ∀ id, V.Suits after id) : V.Guards after :=
  .ofSuits (globals.trans guards.globals) (size.trans guards.size) guards.open_globals
    guards.present guards.tends (fun m linked => marker.trans (guards.marker m linked))
    (fun id known => (guards.scope id known).1) rests suits

theorem shares_rawGet (guards : V.Guards h) (isOpen : ¬ V.Secret id) (k : Key) :
    V.Shares (h.rawGet id k) := by
  cases live : (h.rawGet id k).isNil with
  | false => exact (guards.shows id isOpen k live).2
  | true =>
      rw [Value.eq_nil_of_isNil live]
      trivial

/-- All that scripts find by a metatable of their own may be shared, and so may all that they find
by that of the globals under another name than `__index`. -/
theorem shares_metamethod (guards : V.Guards h) {v : Value} (shared : V.Shares v) {event : String}
    (other : event ≠ "__index") : V.Shares (h.metamethod v event) := by
  have byTable : ∀ m, V.Open m → V.Shares (h.rawGetText m event) := fun m isOpen =>
    guards.shares_rawGet isOpen.2 _
  cases v with
  | userdata id =>
      cases found : h.resource? id with
      | none =>
          simp only [Heap.metamethod, found]
          trivial
      | some r =>
          simp only [Heap.metamethod, found, Option.map_some, Option.getD_some]
          cases r <;> simp only [Resource.metamethod] <;> repeat' split
          all_goals trivial
  | table id =>
      simp only [Heap.metamethod, Heap.metatable?]
      cases linked : (h.table id).metatable? with
      | none => trivial
      | some m =>
          show V.Shares (h.rawGetText m event)
          by_cases here : V.tended ∧ id = V.globals
          · rw [here.2, guards.link here.1] at linked
            have leads := guards.lookup m linked
            by_cases assignment : event = "__newindex"
            · rw [assignment, leads.newindex]
              trivial
            · have nil : h.rawGetText m event = .nil :=
                leads.others _ (Key.ofText_ne other) (Key.ofText_ne assignment)
              rw [nil]
              trivial
          · exact byTable m (guards.metatable id m shared.2 (not_and.mp here) linked)
  | string s =>
      simp only [Heap.metamethod, Heap.metatable?]
      cases linked : h.stringMetatable? with
      | none => trivial
      | some m => exact byTable m (guards.rests.strings m linked)
  | _ => trivial

theorem shares_cell (guards : V.Guards h) (id : CellId) : V.Shares (h.cell id) := by
  unfold Heap.cell
  cases found : h.cells[id.index]? with
  | none => trivial
  | some v => exact guards.rests.cells v (Array.mem_of_getElem? found)

theorem public_closure (guards : V.Guards h) {id : ClosureId} {c : Closure}
    (found : h.closure? id = some c) : c.Public V :=
  guards.rests.closures c (Array.mem_of_getElem? found)

/-! ### Tables -/

theorem open_new (guards : V.Guards h) (t : Table) :
    (V.on (h.newTable t).2).Open (h.newTable t).1 := by
  refine ⟨by simp [on, Heap.newTable], fun secret => ?_⟩
  have present := guards.present _ secret
  rw [← guards.size] at present
  exact Nat.lt_irrefl _ present

theorem addTable (guards : V.Guards h) {t : Table} (later : V.Later W)
    (size : W.size = (h.newTable t).2.tables.size) (lookup? : W.lookup? = V.lookup?)
    (scope : ∀ id, W.scope id → V.scope id ∨ id = (h.newTable t).1) (shows_ : V.Shows t)
    (metatable : ∀ m, t.metatable? = some m → V.Open m)
    (plain : W.Secret (h.newTable t).1 → t.metatable? = none) : W.Guards (h.newTable t).2 := by
  have new : V.size = (h.newTable t).1.index := guards.size.symm
  have notGlobals : (h.newTable t).1 ≠ W.globals := by
    rw [later.globals]
    rintro same
    exact absurd (same ▸ new ▸ guards.open_globals.1) (Nat.lt_irrefl _)
  have unlinked : W.lookup? ≠ some (h.newTable t).1 := by
    rw [lookup?]
    intro linked
    exact absurd (new ▸ guards.present _ (.inl linked)) (Nat.lt_irrefl _)
  have other : ∀ id : TableId, id ≠ (h.newTable t).1 → (h.newTable t).2.table id = h.table id := by
    intro id different
    rcases Nat.lt_trichotomy id.index h.tables.size with below | same | above
    · exact Heap.table_newTable_of_lt below t
    · exact absurd (by cases id; simp_all [Heap.newTable]) different
    · rw [Heap.table_of_le (h := h) (by omega), Heap.table_of_le (by simp; omega)]
  have known : ∀ id, id ≠ (h.newTable t).1 → W.scope id → V.scope id :=
    fun id different isScope => (scope id isScope).resolve_right different
  have rests := guards.rests.mono later.wider
  refine .ofSuits (guards.globals.trans later.globals.symm) size.symm ?_ (fun id secret => ?_)
    (fun linked => later.tended.mpr (guards.tends (lookup? ▸ linked)))
    (fun m linked => guards.marker m (lookup? ▸ linked)) (fun id isScope linked => ?_)
    { rests with } fun id => ?_
  · rw [later.globals]
    exact later.open guards.open_globals
  · by_cases same : id = (h.newTable t).1
    · rw [same, size]
      simp [Heap.newTable]
    · have old : V.Secret id := secret.imp (fun linked => lookup? ▸ linked) (known id same)
      exact Nat.lt_of_lt_of_le (guards.present id old) later.size
  · by_cases same : id = (h.newTable t).1
    · exact unlinked (same ▸ linked)
    · exact (guards.scope id (known id same isScope)).1 (lookup? ▸ linked)
  · by_cases same : id = (h.newTable t).1
    · subst same
      have here : (h.newTable t).2.table (h.newTable t).1 = t := Heap.table_newTable_self h t
      exact {
        plain := by rw [here]; exact plain
        link := fun _ isGlobals => absurd isGlobals notGlobals
        lookup := fun linked => absurd linked unlinked
        scope := fun _ k => by
          rw [Heap.rawGet, here]
          cases live : (t.get k).isNil with
          | true =>
              rw [Value.eq_nil_of_isNil live]
              trivial
          | false => exact later.shares (shows_ k live).2
        shows := fun _ => by rw [here]; exact shows_.mono later.wider
        metatable := fun _ _ m linked => by
          rw [here] at linked
          exact later.open (metatable m linked)
        unshadowed := fun isGlobals => absurd isGlobals notGlobals }
    · exact ((guards.suits id).mono later lookup? (known id same)).congr (other id same)

theorem newTable (guards : V.Guards h) {t : Table} (shows_ : V.Shows t)
    (metatable : ∀ m, t.metatable? = some m → V.Open m) : V.Passes h (h.newTable t).2 := by
  have later : V.Later (V.on (h.newTable t).2) :=
    later_on (by rw [← guards.size, Heap.size_tables_newTable]; omega)
  refine ⟨by simp, guards.addTable later rfl rfl (fun _ => .inl) shows_ metatable fun secret => ?_,
    rfl, fun id secret => Heap.table_newTable_of_lt ?_ t⟩
  · exact absurd secret (guards.open_new t).2
  · rw [guards.size]
    exact guards.present id secret

theorem hideTable (guards : V.Guards h) {t : Table} (shows_ : V.Shows t)
    (plain : t.metatable? = none) :
    V.Later (V.withScope (h.newTable t).2 (h.newTable t).1) ∧
      (V.withScope (h.newTable t).2 (h.newTable t).1).Guards (h.newTable t).2 := by
  have later : V.Later (V.withScope (h.newTable t).2 (h.newTable t).1) := {
    globals := rfl
    size := by
      show V.size ≤ (h.newTable t).2.tables.size
      rw [← guards.size, Heap.size_tables_newTable]
      omega
    lookup? := fun _ => id
    scope := fun _ => .inl
    fresh := fun id secret => by
      rcases secret with linked | known | rfl
      · exact .inl (.inl linked)
      · exact .inl (.inr known)
      · exact .inr (Nat.le_of_eq guards.size.symm)
    tended := .rfl
    manages := fun _ => id }
  refine ⟨later, guards.addTable later rfl rfl (fun _ => id) shows_ (fun m linked => ?_)
    fun _ => plain⟩
  rw [plain] at linked
  cases linked

theorem modifyTable (guards : V.Guards h) (isOpen : V.Open id) {f : Table → Table} (used : Nat)
    (shows_ : V.Shows (f (h.table id)))
    (metatable : (f (h.table id)).metatable? = (h.table id).metatable? ∨
      (V.tended → id ≠ V.globals) ∧ ∀ m, (f (h.table id)).metatable? = some m → V.Open m)
    (unshadowed : id = V.globals → V.lookup? ≠ none →
      ∀ binding : Binding, (f (h.table id)).get (.ofText binding.name) = .nil) :
    V.Passes h { h.modifyTable id f with used } := by
  have here : ({ h.modifyTable id f with used } : Heap).table id = f (h.table id) :=
    Heap.table_modifyTable_self (by rw [guards.size]; exact isOpen.1) f
  have elsewhere : ∀ {other : TableId}, other ≠ id →
      ({ h.modifyTable id f with used } : Heap).table other = h.table other :=
    fun different => Heap.table_modifyTable_of_ne different f
  have size : ({ h.modifyTable id f with used } : Heap).tables.size = h.tables.size :=
    Heap.size_tables_modifyTable h id f
  have suits := guards.suits id
  refine ⟨Nat.le_of_eq size.symm, ?_, rfl, fun other secret => elsewhere ?_⟩
  · rw [guards.on_of_size size]
    refine guards.keep rfl size rfl { guards.rests with } fun other => ?_
    by_cases same : other = id
    · subst same
      exact {
        plain := fun secret => absurd secret isOpen.2
        link := fun tended isGlobals => by
          rw [here]
          rcases metatable with unchanged | ⟨different, _⟩
          · rw [unchanged, suits.link tended isGlobals]
          · exact absurd isGlobals (different tended)
        lookup := fun linked => absurd (.inl linked) isOpen.2
        scope := fun known => absurd (.inr known) isOpen.2
        shows := fun _ => by rw [here]; exact shows_
        metatable := fun _ notGlobals m linked => by
          rw [here] at linked
          rcases metatable with unchanged | ⟨_, new⟩
          · exact suits.metatable isOpen.2 notGlobals m (unchanged ▸ linked)
          · exact new m linked
        unshadowed := fun isGlobals linked binding => by
          rw [Heap.rawGetText, Heap.rawGet, here]
          exact unshadowed isGlobals linked binding }
    · exact (guards.suits other).congr (elsewhere same)
  · rintro rfl
    exact isOpen.2 secret

theorem shows_set {t : Table} {k : Key} {v : Value} (shows_ : V.Shows t) (key : V.Shares k.value)
    (value : V.Shares v) : V.Shows (t.set k v) := by
  intro other live
  rw [Table.get_set] at live ⊢
  by_cases same : k = other
  · subst same
    rw [if_pos rfl] at live ⊢
    exact ⟨key, value⟩
  · rw [if_neg same] at live ⊢
    exact shows_ other live

/-- A name that a global may have: behind the metatable of the host, none of a binding. -/
def Assignable (V : Vault) (id : TableId) (k : Key) : Prop :=
  id = V.globals → V.lookup? ≠ none → ∀ binding : Binding, k ≠ .ofText binding.name

theorem rawSet (guards : V.Guards h) (isOpen : V.Open id) {k : Key} {v : Value}
    (key : V.Shares k.value) (value : V.Shares v) (assignable : Assignable V id k) :
    V.Passes h (h.rawSet id k v) := by
  refine guards.modifyTable isOpen _ (shows_set (guards.shows id isOpen.2) key value)
    (.inl (by simp)) ?_
  rintro rfl linked binding
  rw [Table.get_set_of_ne _ _ (assignable rfl linked binding)]
  have there := guards.unshadowed linked binding
  rwa [guards.globals] at there

/-! ### Cells, functions and coroutines -/

/-- What no table is concerned with does not disclose anything. -/
theorem rest (guards : V.Guards h) {after : Heap} (tables : after.tables = h.tables)
    (globals : after.globals = h.globals)
    (marker : after.globalsMetatable? = h.globalsMetatable?) (rests : V.Rests after) :
    V.Passes h after := by
  have same : ∀ id, after.table id = h.table id := fun id => by rw [Heap.table, tables, Heap.table]
  have size : after.tables.size = h.tables.size := congrArg Array.size tables
  refine ⟨Nat.le_of_eq size.symm, ?_, marker, fun id _ => same id⟩
  rw [guards.on_of_size size]
  exact guards.keep globals size marker rests fun id => (guards.suits id).congr (same id)

theorem newCell (guards : V.Guards h) {v : Value} (shared : V.Shares v) :
    V.Passes h (h.newCell v).2 := by
  refine guards.rest rfl rfl rfl { guards.rests with cells := fun w member => ?_ }
  rcases Array.mem_push.mp member with old | rfl
  · exact guards.rests.cells w old
  · exact shared

theorem setCell (guards : V.Guards h) (cell : CellId) {v : Value} (shared : V.Shares v) :
    V.Passes h (h.setCell cell v) := by
  refine guards.rest rfl rfl rfl { guards.rests with cells := fun w member => ?_ }
  rcases Array.mem_or_eq_of_mem_setIfInBounds member with old | rfl
  · exact guards.rests.cells w old
  · exact shared

theorem newCells (guards : V.Guards h) (locals : List CellId) {values : List Value}
    (shared : V.Shares values) : V.Passes h (h.newCells locals values).2 := by
  induction values generalizing h locals with
  | nil => exact .refl guards
  | cons v vs ih =>
      have first := guards.newCell (shared v List.mem_cons_self)
      have same : V.on (h.newCell v).2 = V := guards.on_of_size rfl
      have next := first.guards
      rw [same] at next
      have rest := ih next ((h.newCell v).1 :: locals)
        fun w member => shared w (List.mem_cons_of_mem v member)
      exact first.trans (by rwa [same])

theorem newClosure (guards : V.Guards h) {c : Closure} (shared : c.Public V) :
    V.Passes h (h.newClosure c).2 := by
  refine guards.rest rfl rfl rfl { guards.rests with closures := fun d member => ?_ }
  rcases Array.mem_push.mp member with old | rfl
  · exact guards.rests.closures d old
  · exact shared

theorem setCaptured (guards : V.Guards h) (closure : ClosureId) {captured : List Value}
    (shared : V.Shares captured) : V.Passes h (h.setCaptured closure captured) := by
  refine guards.rest rfl rfl rfl { guards.rests with closures := fun d member => ?_ }
  obtain ⟨i, found⟩ := Array.getElem?_of_mem member
  rw [Heap.setCaptured, Array.getElem?_modify] at found
  split at found
  · obtain ⟨c, old, rfl⟩ := Option.map_eq_some_iff.mp found
    cases c with
    | native f values => exact shared
    | script chunk proto cells => trivial
  · exact guards.rests.closures d (Array.mem_of_getElem? found)

theorem shares_resource? (guards : V.Guards h) (id : UserdataId) : V.Shares (h.resource? id) := by
  intro manager found
  exact guards.rests.handles _ (Array.mem_of_getElem? found) manager rfl

theorem newUserdata (guards : V.Guards h) {r : Resource} (shared : V.Shares r) :
    V.Passes h (h.newUserdata r).2 := by
  refine guards.rest rfl rfl rfl { guards.rests with handles := fun other member => ?_ }
  rcases Array.mem_push.mp member with old | rfl
  · exact guards.rests.handles other old
  · exact shared

theorem newCoroutine (guards : V.Guards h) {body : Value} (shared : V.Shares body) :
    V.Passes h (h.newCoroutine body).2 := by
  refine guards.rest rfl rfl rfl { guards.rests with bodies := fun c member => ?_ }
  rcases Array.mem_push.mp member with old | rfl
  · exact guards.rests.bodies c old
  · exact shared

theorem setCoroutineStatus (guards : V.Guards h) (id : CoroutineId) (status : CoroutineStatus) :
    V.Passes h (h.setCoroutineStatus id status) := by
  refine guards.rest rfl rfl rfl { guards.rests with bodies := fun c member => ?_ }
  obtain ⟨i, found⟩ := Array.getElem?_of_mem member
  rw [Heap.setCoroutineStatus, Array.getElem?_modify] at found
  split at found
  · obtain ⟨old, same, rfl⟩ := Option.map_eq_some_iff.mp found
    exact guards.rests.bodies old (Array.mem_of_getElem? same)
  · exact guards.rests.bodies c (Array.mem_of_getElem? found)

/-! ### Collections -/

theorem shows_sweepTable {t : Table} (shows_ : V.Shows t) (h : Heap) (marks : Collect.Marks) :
    V.Shows (Collect.sweepTable h marks t) := by
  have folded : ∀ (removed : Table → Key → Bool) (order : List Key) (t : Table), V.Shows t →
      V.Shows (order.foldl (fun t k => if removed t k then t.set k .nil else t) t) := by
    intro removed order
    induction order with
    | nil => exact fun _ shows_ => shows_
    | cons k rest ih =>
        intro t shows_
        refine ih _ ?_
        dsimp only
        split
        · intro other live
          rw [Table.get_set] at live ⊢
          by_cases same : k = other
          · simp [same, Value.isNil] at live
          · rw [if_neg same] at live ⊢
            exact shows_ other live
        · exact shows_
  unfold Collect.sweepTable
  split
  split
  · exact folded _ _ t shows_
  · exact shows_

/-- A collection takes values away, but from no secret table. -/
theorem collect (guards : V.Guards h) (running : Bool) : V.Passes h (h.collect running) := by
  have kept : ∀ {id : TableId}, V.Secret id → (h.collect running).table id = h.table id :=
    fun secret => Heap.table_collect_of_strong running
      (Collect.strong_of_metatable?_eq_none (guards.plain _ secret))
  have size : (h.collect running).tables.size = h.tables.size := Heap.size_tables_collect running h
  refine ⟨Nat.le_of_eq size.symm, ?_, rfl, fun id secret => kept secret⟩
  rw [guards.on_of_size size]
  refine guards.keep rfl size rfl { guards.rests with } fun id => ?_
  have suits := guards.suits id
  by_cases secret : V.Secret id
  · exact suits.congr (kept secret)
  · exact {
      plain := fun isSecret => absurd isSecret secret
      link := by rw [Heap.metatable?_collect]; exact suits.link
      lookup := fun linked => absurd (.inl linked) secret
      scope := fun known => absurd (.inr known) secret
      shows := fun isOpen => by
        rcases Heap.table_collect running h id with swept | same
        · rw [swept]
          exact shows_sweepTable (suits.shows isOpen) h _
        · rw [same]
          exact suits.shows isOpen
      metatable := by rw [Heap.metatable?_collect]; exact suits.metatable
      unshadowed := fun isGlobals linked binding => by
        have nil := suits.unshadowed isGlobals linked binding
        rw [Heap.rawGetText_collect running fun _ => by rw [nil]; rfl, nil] }

theorem fits (guards : V.Guards h) (bytes : Nat) : V.Passes h (Machine.fits h bytes).2 := by
  unfold Machine.fits
  split
  · exact .refl guards
  · split
    · exact .refl guards
    · exact guards.collect true

theorem hold (guards : V.Guards h) (held : List TableId) : V.Passes h { h with held } :=
  guards.rest rfl rfl rfl { guards.rests with }

theorem fitsHolding (guards : V.Guards h) (id : TableId) (bytes : Nat) :
    V.Passes h (Machine.fitsHolding id h bytes).2 := by
  have kept := guards.hold (id :: h.held)
  have fitted := kept.trans (kept.guards.fits bytes)
  exact fitted.trans (fitted.guards.hold h.held)

end Guards

end Vault

end ScriptHost.Lua
