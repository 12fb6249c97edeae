import ScriptHost.Host.Invocation
import ScriptHost.Proofs.Injection

/-!
# Linked scopes

How the scopes of the invocations on one engine hang together, in whatever order they are
released. An invocation that is released while a later one is not leaves its blank scope behind
for the later one to return to, and from then on the blank scope hides all earlier ones.
-/

set_option autoImplicit false

namespace ScriptHost

open Lua Heap Scope

/-- One invocation of a manager, and what its release came to if it has been released. -/
structure Acquisition where
  invocation : Invocation
  manager : ManagerId
  released? : Option (Except EngineError Unit) := none

namespace Acquisition

def scope (a : Acquisition) : TableId := a.invocation.bindings.scope

def previous? (a : Acquisition) : Option TableId := a.invocation.bindings.previous?

/-- What the bindings of the invocation tell about it. -/
def subject (a : Acquisition) (contextId : ContextId) : Subject where
  context := a.invocation.context
  contextId := contextId
  cached := a.invocation.cached
  manager? := some a.manager

def isLive (a : Acquisition) : Bool := a.released?.isNone

/-- Whether the invocation has been released while a later one was not. -/
def isOvertaken (a : Acquisition) : Bool :=
  match a.released? with
  | some (.error _) => true
  | _ => false

def release (a : Acquisition) (outcome : Except EngineError Unit) : Acquisition :=
  { a with released? := some outcome }

@[simp] theorem isOvertaken_release_ok (a : Acquisition) :
    (a.release (.ok ())).isOvertaken = false := rfl

@[simp] theorem isOvertaken_release_error (a : Acquisition) (e : EngineError) :
    (a.release (.error e)).isOvertaken = true := rfl

end Acquisition

namespace Scope

variable {known more : ContextId → Context → Prop} {h after : Heap}
  {changed : TableId → Key → Prop} {a : Acquisition} {s : TableId} {top higher : Nat}

/-- The tables that engines have before their first scope. -/
def Fixed (h : Heap) (id : TableId) : Prop :=
  id = h.globals ∨ h.globalsMetatable? = some id ∨ h.rawGetText h.globals "package" = .table id

/-- A scope that has been entered came after the fixed tables. -/
theorem Injected.above {guard : BindingGuard} {subject : Subject}
    (injected : Injected h after guard subject) (orderly : Orderly h) (id : TableId)
    (isFixed : Fixed after id) : id.index < guard.scope.index := by
  obtain ⟨m, installed, later, keeps⟩ := injected.keeps
  have fresh := injected.fresh
  rcases isFixed with rfl | lookup | package
  · rw [keeps.globals]
    exact Nat.lt_of_lt_of_le orderly.globals fresh
  · obtain rfl := Option.some.inj (installed.symm.trans lookup)
    exact later
  · rw [orderly.rawGetText_globals keeps (spares_lookupField m _ _ (by decide))] at package
    exact Nat.lt_of_lt_of_le (orderly.package id package).present fresh

/-- The scope of an unreleased invocation: it came after the fixed tables, and the values of its
bindings are in tables that came after it and before the next scope. -/
structure Standing (known : ContextId → Context → Prop) (h : Heap) (top : Nat) (a : Acquisition) :
    Prop where
  plain : Plain h a.scope
  below : a.scope.index < top
  above : ∀ id, Fixed h id → id.index < a.scope.index
  shown : ∃ contextId high, known contextId a.invocation.context ∧ high ≤ top ∧
    high ≤ h.tables.size ∧ ∀ binding, Shows h (Within (a.scope.index + 1) high)
      (a.subject contextId) (h.rawGetText a.scope binding.name) binding

/-- A scope in which every binding has been made absent. -/
structure Vacant (h : Heap) (top : Nat) (scope : TableId) : Prop where
  plain : Plain h scope
  below : scope.index < top
  above : ∀ id, Fixed h id → id.index < scope.index
  isBlank : Blank h scope

/-- How the scopes of invocations hang together, the latest invocation first, if one of them is
the current one. Released invocations do not count, but an overtaken one hides the scopes of all
earlier ones: then a vacant scope is in front of them. -/
def Linked (known : ContextId → Context → Prop) (h : Heap) :
    Bool → Option TableId → Nat → List Acquisition → Prop
  | _, current?, _, [] => ∀ scope, current? = some scope → Plain h scope ∧ scope ≠ h.globals
  | hidden, current?, top, a :: earlier =>
    match a.released? with
    | none =>
      Standing known h top a ∧
        (if hidden then ∃ scope, current? = some scope ∧ Vacant h top scope
          else current? = some a.scope) ∧
        Linked known h false a.previous? a.scope.index earlier
    | some (.ok _) => Linked known h hidden current? top earlier
    | some (.error _) => Linked known h true current? top earlier

/-! ## Frames -/

theorem ne_globals_of_above (above : ∀ id, Fixed h id → id.index < s.index) : s ≠ h.globals := by
  rintro rfl
  exact Nat.lt_irrefl _ (above h.globals (.inl rfl))

/-- A change that leaves the fixed tables where they are. -/
structure Framed (changed : TableId → Key → Prop) (h after : Heap) : Prop where
  orderly : Orderly h
  keeps : Keeps changed h after
  installed : ∀ m, h.globalsMetatable? = some m → after.globalsMetatable? = some m
  spared : ∀ id, ¬ changed id (.ofText "package")

namespace Framed

theorem ofSteady (orderly : Orderly h) (steady : Steady changed h after)
    (spared : ∀ id, ¬ changed id (.ofText "package")) : Framed changed h after :=
  ⟨orderly, steady.toKeeps, fun _ before => steady.globalsMetatable?.trans before, spared⟩

theorem plain (framed : Framed changed h after) (plain : Plain h s) (other : s ≠ h.globals) :
    Plain after s :=
  plain.keep framed.keeps other (framed.spared s)

theorem fixed (framed : Framed changed h after) {m : TableId}
    (installed : h.globalsMetatable? = some m) {id : TableId} (isFixed : Fixed after id) :
    Fixed h id := by
  rcases isFixed with same | lookup | package
  · exact .inl (same.trans framed.keeps.globals)
  · rw [framed.installed m installed, ← installed] at lookup
    exact .inr (.inl lookup)
  · rw [framed.orderly.rawGetText_globals framed.keeps (framed.spared _)] at package
    exact .inr (.inr package)

theorem vacant (framed : Framed changed h after) {m : TableId}
    (installed : h.globalsMetatable? = some m) (vacant : Vacant h top s)
    (isBlank : Blank after s) : Vacant after top s where
  plain := framed.plain vacant.plain (ne_globals_of_above vacant.above)
  below := vacant.below
  above id isFixed := vacant.above id (framed.fixed installed isFixed)
  isBlank := isBlank

/-- A scope stands while nothing changes in it and in the tables that came right after it. -/
theorem standing (framed : Framed changed h after) {m : TableId}
    (installed : h.globalsMetatable? = some m) (wider : ∀ id context, known id context →
      more id context) (standing : Standing known h top a)
    (outside : ∀ id k, changed id k → id.index < a.scope.index ∨ top ≤ id.index) :
    Standing more after top a := by
  have other := ne_globals_of_above standing.above
  have keeps := framed.keeps
  have same : ∀ k, ¬ changed a.scope k := by
    intro k touched
    rcases outside a.scope k touched with before | beyond
    · exact Nat.lt_irrefl _ before
    · exact Nat.lt_irrefl _ (Nat.lt_of_lt_of_le standing.below beyond)
  obtain ⟨contextId, high, isKnown, bounded, present, shown⟩ := standing.shown
  refine ⟨framed.plain standing.plain other, standing.below,
    fun id isFixed => standing.above id (framed.fixed installed isFixed), contextId, high,
    wider _ _ isKnown, bounded, Nat.le_trans present keeps.grown, fun binding => ?_⟩
  rw [keeps.rawGetText standing.plain.present (same _) standing.plain.strong]
  refine (shown binding).keep framed.orderly keeps ⟨?_, ?_, ?_⟩ fun _ => id
  · intro id k within touched
    rcases outside id k touched with before | beyond
    · exact Nat.lt_irrefl _ (Nat.lt_trans within.1 before)
    · exact Nat.lt_irrefl _ (Nat.lt_of_lt_of_le within.2 (Nat.le_trans bounded beyond))
  · exact fun id within => Nat.lt_of_lt_of_le within.2 present
  · rintro id within rfl
    exact Nat.lt_irrefl _ (Nat.lt_trans (standing.above h.globals (.inl rfl)) within.1)

end Framed

/-! ## Linked scopes -/

theorem Standing.mono (standing : Standing known h top a) (higher_ : top ≤ higher) :
    Standing known h higher a := by
  obtain ⟨contextId, high, isKnown, bounded, present, shown⟩ := standing.shown
  exact ⟨standing.plain, Nat.lt_of_lt_of_le standing.below higher_, standing.above, contextId, high,
    isKnown, Nat.le_trans bounded higher_, present, shown⟩

theorem Vacant.mono (vacant : Vacant h top s) (higher_ : top ≤ higher) : Vacant h higher s :=
  ⟨vacant.plain, Nat.lt_of_lt_of_le vacant.below higher_, vacant.above, vacant.isBlank⟩

theorem Standing.not_blank (standing : Standing known h top a) : ¬ Blank h a.scope := by
  intro isBlank
  obtain ⟨_, _, _, _, _, shown⟩ := standing.shown
  have cached := shown .cachedEngine
  rw [isBlank .cachedEngine] at cached
  cases cached

theorem Vacant.ne_scope (vacant : Vacant h top s) (standing : Standing known h higher a) :
    s ≠ a.scope := by
  rintro rfl
  exact standing.not_blank vacant.isBlank

namespace Linked

variable {hidden : Bool} {current? : Option TableId} {earlier later log : List Acquisition}

theorem cons_live (live : a.released? = none) :
    Linked known h hidden current? top (a :: earlier) ↔
      Standing known h top a ∧
        (if hidden then ∃ scope, current? = some scope ∧ Vacant h top scope
          else current? = some a.scope) ∧
        Linked known h false a.previous? a.scope.index earlier := by
  rw [Linked, live]

theorem cons_released {outcome : Except EngineError Unit} (released : a.released? = some outcome) :
    Linked known h hidden current? top (a :: earlier) ↔
      Linked known h (hidden || a.isOvertaken) current? top earlier := by
  cases outcome with
  | ok _ => simp only [Linked, released, Acquisition.isOvertaken, Bool.or_false]
  | error _ => simp only [Linked, released, Acquisition.isOvertaken, Bool.or_true]

/-- An invocation that has been released only matters for what it hides. -/
theorem cons_cases (a : Acquisition) :
    a.released? = none ∨ (a.isLive = false ∧ ∃ outcome, a.released? = some outcome) := by
  cases released : a.released? with
  | none => exact .inl rfl
  | some outcome => exact .inr ⟨by simp [Acquisition.isLive, released], outcome, rfl⟩

theorem mono (linked : Linked known h hidden current? top log) (higher_ : top ≤ higher) :
    Linked known h hidden current? higher log := by
  induction log generalizing hidden with
  | nil => exact linked
  | cons a earlier ih =>
      rcases cons_cases a with live | ⟨_, _, released⟩
      · rw [cons_live live] at linked ⊢
        obtain ⟨standing, front, rest⟩ := linked
        refine ⟨standing.mono higher_, ?_, rest⟩
        cases hidden with
        | false => exact front
        | true =>
            obtain ⟨scope, same, vacant⟩ := front
            exact ⟨scope, same, vacant.mono higher_⟩
      · rw [cons_released released] at linked ⊢
        exact ih linked

theorem plain (linked : Linked known h hidden current? top log) {scope : TableId}
    (front : current? = some scope) : Plain h scope ∧ scope ≠ h.globals := by
  induction log generalizing hidden with
  | nil => exact linked scope front
  | cons a earlier ih =>
      rcases cons_cases a with live | ⟨_, _, released⟩
      · rw [cons_live live] at linked
        obtain ⟨standing, same, _⟩ := linked
        cases hidden with
        | false =>
            obtain rfl := Option.some.inj (front.symm.trans same)
            exact ⟨standing.plain, ne_globals_of_above standing.above⟩
        | true =>
            obtain ⟨_, same, vacant⟩ := same
            obtain rfl := Option.some.inj (front.symm.trans same)
            exact ⟨vacant.plain, ne_globals_of_above vacant.above⟩
      · rw [cons_released released] at linked
        exact ih linked

theorem hide (linked : Linked known h hidden current? top log) {scope : TableId}
    (vacant : Vacant h top scope) : Linked known h true (some scope) top log := by
  induction log generalizing hidden with
  | nil =>
      intro s same
      obtain rfl := Option.some.inj same
      exact ⟨vacant.plain, ne_globals_of_above vacant.above⟩
  | cons a earlier ih =>
      rcases cons_cases a with live | ⟨_, _, released⟩
      · rw [cons_live live] at linked ⊢
        exact ⟨linked.1, ⟨scope, rfl, vacant⟩, linked.2.2⟩
      · rw [cons_released released] at linked ⊢
        rw [Bool.true_or]
        exact ih linked

/-- Without a scope in front, no invocation is left to be seen, so that any scope may get there. -/
theorem reopen (linked : Linked known h hidden none top log) {front? : Option TableId}
    (fits : ∀ scope, front? = some scope → Plain after scope ∧ scope ≠ after.globals)
    (hides : Bool) (higher : Nat) : Linked more after hides front? higher log := by
  induction log generalizing hidden hides with
  | nil => exact fits
  | cons a earlier ih =>
      rcases cons_cases a with live | ⟨_, _, released⟩
      · rw [cons_live live] at linked
        obtain ⟨_, front, _⟩ := linked
        cases hidden with
        | false => cases front
        | true =>
            obtain ⟨_, absent, _⟩ := front
            cases absent
      · rw [cons_released released] at linked ⊢
        exact ih linked _

/-- Scopes stay linked while nothing changes but fixed tables and tables that came later. -/
theorem keep (linked : Linked known h hidden current? top log) (framed : Framed changed h after)
    {m : TableId} (installed : h.globalsMetatable? = some m)
    (wider : ∀ id context, known id context → more id context)
    (outside : ∀ id k, changed id k → Fixed h id ∨ top ≤ id.index) :
    Linked more after hidden current? top log := by
  induction log generalizing hidden current? top with
  | nil =>
      intro scope same
      obtain ⟨plain, other⟩ := linked scope same
      exact ⟨framed.plain plain other, by rw [framed.keeps.globals]; exact other⟩
  | cons a earlier ih =>
      rcases cons_cases a with live | ⟨_, _, released⟩
      · rw [cons_live live] at linked ⊢
        obtain ⟨standing, front, rest⟩ := linked
        -- What lies above `top` lies above the scopes of all earlier invocations as well.
        refine ⟨framed.standing installed wider standing fun id k touched =>
          (outside id k touched).imp_left (standing.above id), ?_, ih rest fun id k touched =>
          (outside id k touched).imp_right (Nat.le_trans (Nat.le_of_lt standing.below))⟩
        cases hidden with
        | false => exact front
        | true =>
            obtain ⟨scope, same, vacant⟩ := front
            refine ⟨scope, same, framed.vacant installed vacant ?_⟩
            refine vacant.isBlank.keep vacant.plain framed.keeps fun binding touched => ?_
            rcases outside scope _ touched with isFixed | beyond
            · exact Nat.lt_irrefl _ (vacant.above scope isFixed)
            · exact Nat.lt_irrefl _ (Nat.lt_of_lt_of_le vacant.below beyond)
      · rw [cons_released released] at linked ⊢
        exact ih linked outside

/-- The scope of an unreleased invocation stands, and leads on to the ones before. -/
theorem split (linked : Linked known h hidden current? top (later ++ a :: earlier))
    (live : a.released? = none) :
    Standing known h top a ∧ Linked known h false a.previous? a.scope.index earlier := by
  induction later generalizing hidden current? top with
  | nil =>
      rw [List.nil_append, cons_live live] at linked
      exact ⟨linked.1, linked.2.2⟩
  | cons b later ih =>
      rw [List.cons_append] at linked
      rcases cons_cases b with alive | ⟨_, _, released⟩
      · rw [cons_live alive] at linked
        obtain ⟨standing, rest⟩ := ih linked.2.2
        exact ⟨standing.mono (Nat.le_of_lt linked.1.below), rest⟩
      · rw [cons_released released] at linked
        exact ih linked

theorem exists_front (linked : Linked known h hidden current? top log) {a : Acquisition}
    (member : a ∈ log) (live : a.released? = none) : ∃ scope, current? = some scope := by
  induction log generalizing hidden with
  | nil => cases member
  | cons b earlier ih =>
      rcases cons_cases b with alive | ⟨_, _, released⟩
      · rw [cons_live alive] at linked
        obtain ⟨_, front, _⟩ := linked
        cases hidden with
        | false => exact ⟨b.scope, front⟩
        | true =>
            obtain ⟨scope, same, _⟩ := front
            exact ⟨scope, same⟩
      · rw [cons_released released] at linked
        refine ih linked ((List.mem_cons.mp member).resolve_left ?_)
        rintro rfl
        rw [live] at released
        cases released

/-- While a later invocation is not released, the scope of an earlier one is not in front. -/
theorem front_ne (linked : Linked known h hidden current? top (later ++ a :: earlier))
    (live : a.released? = none) (followed : later.any Acquisition.isLive = true) :
    current? ≠ some a.scope := by
  induction later generalizing hidden with
  | nil => cases followed
  | cons b later ih =>
      rw [List.cons_append] at linked
      rcases cons_cases b with alive | ⟨dead, _, released⟩
      · rw [cons_live alive] at linked
        obtain ⟨_, front, rest⟩ := linked
        have standing := (rest.split live).1
        intro same
        cases hidden with
        | false =>
            have equal : a.scope = b.scope := Option.some.inj (same.symm.trans front)
            exact Nat.lt_irrefl _ (equal ▸ standing.below)
        | true =>
            obtain ⟨scope, vacates, vacant⟩ := front
            exact vacant.ne_scope standing (Option.some.inj (vacates.symm.trans same))
      · rw [cons_released released] at linked
        rw [List.any_cons, dead, Bool.false_or] at followed
        exact ih linked followed

/-- The scope of the latest unreleased invocation is in front unless an overtaken one hides it. -/
theorem front (linked : Linked known h hidden current? top (later ++ a :: earlier))
    (live : a.released? = none) (latest : later.any Acquisition.isLive = false) :
    if hidden || later.any Acquisition.isOvertaken then
      ∃ scope, current? = some scope ∧ Vacant h top scope
    else current? = some a.scope := by
  induction later generalizing hidden with
  | nil =>
      rw [List.nil_append, cons_live live] at linked
      simpa using linked.2.1
  | cons b later ih =>
      rw [List.any_cons, Bool.or_eq_false_iff] at latest
      rw [List.cons_append] at linked
      rcases cons_cases b with alive | ⟨_, _, released⟩
      · simp [Acquisition.isLive, alive] at latest
      · rw [cons_released released] at linked
        rw [List.any_cons, ← Bool.or_assoc]
        exact ih linked latest.2

end Linked

end Scope

end ScriptHost
