import ScriptHost.Proofs.LinkedScopes

/-!
# Scopes of injections in any order

What holds of the scopes on an engine when injections are cleared in whatever order. A scope that
is current, or that a guard may make current again, is the scope of an injection or has been blank
since before all of them. So what scripts see under the names of bindings is absent, or is the
value of an injection whose guard has not been cleared.
-/

set_option autoImplicit false

namespace ScriptHost

open Lua Heap Scope

/-- One injection, and whether its guard has been cleared. -/
structure Injection where
  guard : BindingGuard
  context : Context
  cached : Bool
  manager? : Option ManagerId
  isCleared : Bool := false

namespace Injection

def scope (a : Injection) : TableId := a.guard.scope

/-- What the bindings of the injection tell about it. -/
def subject (a : Injection) (contextId : ContextId) : Subject where
  context := a.context
  contextId := contextId
  cached := a.cached
  manager? := a.manager?

/-- What becomes of an injection when a guard is cleared. -/
def clear (guard : BindingGuard) (a : Injection) : Injection :=
  if a.guard.engine = guard.engine ∧ a.scope = guard.scope then { a with isCleared := true } else a

/-- The injection of an invocation. -/
def ofInvocation (invocation : Invocation) (id : ManagerId) : Injection where
  guard := invocation.bindings
  context := invocation.context
  cached := invocation.cached
  manager? := some id

variable {guard : BindingGuard} {a : Injection}

@[simp] theorem guard_clear : (a.clear guard).guard = a.guard := by
  unfold clear
  split <;> rfl

@[simp] theorem scope_clear : (a.clear guard).scope = a.scope := by
  rw [scope, guard_clear, scope]

@[simp] theorem context_clear : (a.clear guard).context = a.context := by
  unfold clear
  split <;> rfl

@[simp] theorem subject_clear (contextId : ContextId) :
    (a.clear guard).subject contextId = a.subject contextId := by
  unfold clear
  split <;> rfl

theorem cleared_of_clear (isCleared : (a.clear guard).isCleared = true) :
    a.isCleared = true ∨ a.scope = guard.scope := by
  unfold clear at isCleared
  split at isCleared
  · rename_i own
    exact .inr own.2
  · exact .inl isCleared

theorem uncleared_of_clear (uncleared : (a.clear guard).isCleared = false) :
    a.isCleared = false := by
  unfold clear at uncleared
  split at uncleared
  · cases uncleared
  · exact uncleared

end Injection

namespace Scope

variable {known more : ContextId → Context → Prop} {h after : Heap}
  {changed : TableId → Key → Prop} {log : List Injection} {a : Injection} {s m : TableId}
  {guard : BindingGuard}

/-! ## Scopes that may be current -/

/-- The scope of an injection, or a blank one that came before all of them. -/
structure Rests (h : Heap) (log : List Injection) (s : TableId) : Prop where
  plain : Plain h s
  other : s ≠ h.globals
  origin : (∃ a ∈ log, a.scope = s) ∨ Blank h s ∧ ∀ a ∈ log, s.index < a.scope.index

/-- Whatever guards are cleared next, the scopes that get current by that are such scopes again. -/
structure Nested (h : Heap) (log : List Injection) : Prop where
  orderly : Orderly h
  front : log ≠ [] → ∃ s, current? h = some s
  current : ∀ s, current? h = some s → Rests h log s
  scopes : ∀ a ∈ log, Rests h log a.scope
  previous : ∀ a ∈ log, ∀ p, a.guard.previous? = some p → Rests h log p
  blank : ∀ a ∈ log, a.isCleared = true → Blank h a.scope

/-- The values of an injection are in its scope, and in tables that came after it and before the
next one. -/
def Displayed (known : ContextId → Context → Prop) (h : Heap) (log : List Injection)
    (a : Injection) : Prop :=
  ∃ contextId high, known contextId a.context ∧ high ≤ h.tables.size ∧
    (∀ b ∈ log, a.scope.index < b.scope.index → high ≤ b.scope.index) ∧
    ∀ binding, Shows h (Within (a.scope.index + 1) high) (a.subject contextId)
      (h.rawGetText a.scope binding.name) binding

/-- All injections that are not cleared have their values or, if the current scope has been made
blank without a guard, no values at all. -/
structure Shown (known : ContextId → Context → Prop) (h : Heap) (log : List Injection) : Prop where
  above : ∀ a ∈ log, ∀ id, Fixed h id → id.index < a.scope.index
  values : ∀ a ∈ log, a.isCleared = false → Blank h a.scope ∨ Displayed known h log a

/-- A change that makes scopes blank and changes no other binding. -/
structure Wipes (changed : TableId → Key → Prop) (h after : Heap) (log : List Injection) :
    Prop extends Framed changed h after where
  inside : ∀ id k, changed id k →
    (Rests h log id ∧ Blank after id) ∨ Fixed h id ∧ ∀ binding : Binding, k ≠ .ofText binding.name

namespace Wipes

theorem blank (wipes : Wipes changed h after log) (plain : Plain h s) (isBlank : Blank h s) :
    Blank after s := by
  intro binding
  by_cases touched : changed s (.ofText binding.name)
  · rcases wipes.inside s _ touched with ⟨_, wiped⟩ | ⟨_, unnamed⟩
    · exact wiped binding
    · exact absurd rfl (unnamed binding)
  · rw [wipes.keeps.rawGetText plain.present touched plain.strong, isBlank binding]

theorem rests (wipes : Wipes changed h after log) (rests : Rests h log s) : Rests after log s where
  plain := wipes.plain rests.plain rests.other
  other := by
    rw [wipes.keeps.globals]
    exact rests.other
  origin := by
    rcases rests.origin with own | ⟨isBlank, below⟩
    · exact .inl own
    · exact .inr ⟨wipes.blank rests.plain isBlank, below⟩

theorem unnamed (wipes : Wipes changed h after log) (binding : Binding) :
    ¬ changed h.globals (.ofText binding.name) := by
  intro touched
  rcases wipes.inside h.globals _ touched with ⟨rests, _⟩ | ⟨_, unnamed⟩
  · exact rests.other rfl
  · exact unnamed binding rfl

theorem displayed (wipes : Wipes changed h after log)
    (wider : ∀ id context, known id context → more id context) (member : a ∈ log)
    (plain : Plain h a.scope) (above : ∀ id, Fixed h id → id.index < a.scope.index)
    (displayed : Displayed known h log a) :
    Blank after a.scope ∨ Displayed more after log a := by
  obtain ⟨contextId, high, isKnown, present, bounded, values⟩ := displayed
  have keeps := wipes.keeps
  by_cases touched : ∃ k, changed a.scope k
  · obtain ⟨k, touched⟩ := touched
    rcases wipes.inside a.scope k touched with ⟨_, wiped⟩ | ⟨isFixed, _⟩
    · exact .inl wiped
    · exact absurd (above a.scope isFixed) (Nat.lt_irrefl _)
  · refine .inr ⟨contextId, high, wider _ _ isKnown, Nat.le_trans present keeps.grown, bounded,
      fun binding => ?_⟩
    rw [keeps.rawGetText plain.present (fun changes => touched ⟨_, changes⟩) plain.strong]
    refine (values binding).keep wipes.orderly keeps ⟨?_, ?_, ?_⟩ fun _ => id
    · -- A table that changes is fixed, or a scope, and no scope is among the tables of another.
      rintro id k ⟨low, up⟩ changes
      rcases wipes.inside id k changes with ⟨⟨_, _, origin⟩, _⟩ | ⟨isFixed, _⟩
      · rcases origin with ⟨b, listed, rfl⟩ | ⟨_, below⟩
        · exact Nat.not_lt_of_ge (bounded b listed low) up
        · exact Nat.lt_asymm low (below a member)
      · exact Nat.lt_asymm low (above id isFixed)
    · exact fun id within => Nat.lt_of_lt_of_le within.2 present
    · rintro id ⟨low, _⟩ rfl
      exact Nat.lt_asymm low (above h.globals (.inl rfl))

theorem shown (wipes : Wipes changed h after log) (installed : h.globalsMetatable? = some m)
    (nested : Nested h log) (shown : Shown known h log)
    (wider : ∀ id context, known id context → more id context) : Shown more after log where
  above a member id isFixed := shown.above a member id (wipes.fixed installed isFixed)
  values a member uncleared := by
    have plain := (nested.scopes a member).plain
    rcases shown.values a member uncleared with isBlank | displayed
    · exact .inl (wipes.blank plain isBlank)
    · exact wipes.displayed wider member plain (shown.above a member) displayed

theorem nested (wipes : Wipes changed h after log) (nested : Nested h log)
    (orderly : Orderly after)
    (front : log ≠ [] → ∃ s, current? after = some s)
    (current : ∀ s, current? after = some s → Rests h log s ∨ Rests after log s) :
    Nested after log where
  orderly := orderly
  front := front
  current s same := by
    rcases current s same with before | now
    · exact wipes.rests before
    · exact now
  scopes a member := wipes.rests (nested.scopes a member)
  previous a member p same := wipes.rests (nested.previous a member p same)
  blank a member isCleared := wipes.blank (nested.scopes a member).plain
    (nested.blank a member isCleared)

end Wipes

theorem Nested.ofIdle (orderly : Orderly h) (idle : ∀ s, current? h = some s → Blank h s) :
    Nested h [] where
  orderly := orderly
  front used := absurd rfl used
  current s current := by
    obtain ⟨_, _, plain, other⟩ := orderly.exists_of_current current
    exact ⟨plain, other, .inr ⟨idle s current, by simp⟩⟩
  scopes := by simp
  previous := by simp
  blank := by simp

theorem Nested.installed (nested : Nested h log) (used : log ≠ []) :
    ∃ m, h.globalsMetatable? = some m := by
  obtain ⟨s, current⟩ := nested.front used
  obtain ⟨m, installed, _⟩ := nested.orderly.exists_of_current current
  exact ⟨m, installed⟩

/-! ## Clearing a guard -/

section

variable (guard)

theorem rests_clear (rests : Rests h log s) : Rests h (log.map (Injection.clear guard)) s where
  plain := rests.plain
  other := rests.other
  origin := by
    rcases rests.origin with ⟨a, member, same⟩ | ⟨isBlank, below⟩
    · exact .inl ⟨_, List.mem_map_of_mem member, Injection.scope_clear.trans same⟩
    · refine .inr ⟨isBlank, fun b listed => ?_⟩
      obtain ⟨a, member, rfl⟩ := List.mem_map.mp listed
      rw [Injection.scope_clear]
      exact below a member

theorem displayed_clear (displayed : Displayed known h log a) :
    Displayed known h (log.map (Injection.clear guard)) (a.clear guard) := by
  obtain ⟨contextId, high, isKnown, present, bounded, values⟩ := displayed
  refine ⟨contextId, high, by rwa [Injection.context_clear], present, ?_, ?_⟩
  · intro b listed
    obtain ⟨c, member, rfl⟩ := List.mem_map.mp listed
    rw [Injection.scope_clear, Injection.scope_clear]
    exact bounded c member
  · rw [Injection.scope_clear, Injection.subject_clear]
    exact values

theorem Shown.clear (shown : Shown known h log) :
    Shown known h (log.map (Injection.clear guard)) where
  above b listed id isFixed := by
    obtain ⟨a, member, rfl⟩ := List.mem_map.mp listed
    rw [Injection.scope_clear]
    exact shown.above a member id isFixed
  values b listed uncleared := by
    obtain ⟨a, member, rfl⟩ := List.mem_map.mp listed
    rcases shown.values a member (Injection.uncleared_of_clear uncleared) with isBlank | displayed
    · exact .inl (by rwa [Injection.scope_clear])
    · exact .inr (displayed_clear guard displayed)

variable {guard}

theorem Nested.clear (nested : Nested h log) (isBlank : Blank h guard.scope) :
    Nested h (log.map (Injection.clear guard)) where
  orderly := nested.orderly
  front used := nested.front fun none => used (by rw [none, List.map_nil])
  current s same := rests_clear guard (nested.current s same)
  scopes b listed := by
    obtain ⟨a, member, rfl⟩ := List.mem_map.mp listed
    rw [Injection.scope_clear]
    exact rests_clear guard (nested.scopes a member)
  previous b listed p same := by
    obtain ⟨a, member, rfl⟩ := List.mem_map.mp listed
    rw [Injection.guard_clear] at same
    exact rests_clear guard (nested.previous a member p same)
  blank b listed isCleared := by
    obtain ⟨a, member, rfl⟩ := List.mem_map.mp listed
    rw [Injection.scope_clear]
    rcases Injection.cleared_of_clear isCleared with before | same
    · exact nested.blank a member before
    · rw [same]
      exact isBlank

end

/-! ## A further injection -/

section

variable {contextId : ContextId}
  (injected : Injected h after a.guard (a.subject contextId))

include injected

theorem rests_inject (rests : Rests h log s) : Rests after (log ++ [a]) s := by
  obtain ⟨m, _, _, keeps⟩ := injected.keeps
  have fresh : h.tables.size ≤ a.scope.index := injected.fresh
  refine ⟨rests.plain.keep keeps rests.other (spares_lookupField m s _ (by decide)), ?_, ?_⟩
  · rw [keeps.globals]
    exact rests.other
  · rcases rests.origin with ⟨b, member, same⟩ | ⟨isBlank, below⟩
    · exact .inl ⟨b, List.mem_append_left _ member, same⟩
    · refine .inr ⟨isBlank.keep rests.plain keeps (not_lookupField_name m s), ?_⟩
      intro b listed
      rcases List.mem_append.mp listed with member | new
      · exact below b member
      · rw [List.mem_singleton.mp new]
        exact Nat.lt_of_lt_of_le rests.plain.present fresh

theorem rests_injected : Rests after (log ++ [a]) a.scope where
  plain := injected.plain
  other := by
    obtain ⟨_, _, _, other⟩ := injected.orderly.exists_of_current injected.current
    exact other
  origin := .inl ⟨a, by simp, rfl⟩

theorem Nested.inject (nested : Nested h log) (uncleared : a.isCleared = false) :
    Nested after (log ++ [a]) where
  orderly := injected.orderly
  front _ := ⟨_, injected.current⟩
  current s same := by
    obtain rfl : a.scope = s := Option.some.inj (injected.current.symm.trans same)
    exact rests_injected injected
  scopes b listed := by
    rcases List.mem_append.mp listed with member | new
    · exact rests_inject injected (nested.scopes b member)
    · rw [List.mem_singleton.mp new]
      exact rests_injected injected
  previous b listed p same := by
    rcases List.mem_append.mp listed with member | new
    · exact rests_inject injected (nested.previous b member p same)
    · rw [List.mem_singleton.mp new, injected.previous] at same
      exact rests_inject injected (nested.current p same)
  blank b listed isCleared := by
    obtain ⟨m, _, _, keeps⟩ := injected.keeps
    rcases List.mem_append.mp listed with member | new
    · exact (nested.blank b member isCleared).keep (nested.scopes b member).plain keeps
        (not_lookupField_name m b.scope)
    · rw [List.mem_singleton.mp new, uncleared] at isCleared
      cases isCleared

theorem displayed_inject {b : Injection} (displayed : Displayed known h log b) :
    Displayed known h (log ++ [a]) b := by
  obtain ⟨contextId, high, isKnown, present, bounded, values⟩ := displayed
  refine ⟨contextId, high, isKnown, present, ?_, values⟩
  intro c listed later
  rcases List.mem_append.mp listed with member | new
  · exact bounded c member later
  · rw [List.mem_singleton.mp new]
    exact Nat.le_trans present injected.fresh

theorem displayed_injected (isKnown : known contextId a.context) (nested : Nested h log) :
    Displayed known after (log ++ [a]) a := by
  refine ⟨contextId, after.tables.size, isKnown, Nat.le_refl _, ?_, injected.shown⟩
  intro b listed later
  rcases List.mem_append.mp listed with member | new
  · have present := (nested.scopes b member).plain.present
    exact absurd (Nat.lt_trans later present) (Nat.not_lt_of_ge injected.fresh)
  · rw [List.mem_singleton.mp new] at later
    exact absurd later (Nat.lt_irrefl _)

/-- To the scopes of earlier injections, a further one means that no values come after it. -/
theorem wipes_injected (orderly : Orderly h) {n : TableId}
    (before : h.globalsMetatable? = some n) (log : List Injection) :
    Wipes (lookupField n) h after log := by
  obtain ⟨m, installed, _, keeps⟩ := injected.keeps
  obtain rfl := Option.some.inj ((injected.installed n before).symm.trans installed)
  refine ⟨⟨orderly, keeps, injected.installed, fun id => spares_lookupField n id _ (by decide)⟩, ?_⟩
  rintro id k ⟨rfl, rfl⟩
  refine .inr ⟨.inr (.inl before), fun binding same => ?_⟩
  exact not_lookupField_name id id binding ⟨rfl, same.symm⟩

theorem Shown.inject (nested : Nested h log) (shown : Shown known h log)
    (isKnown : known contextId a.context) : Shown known after (log ++ [a]) := by
  refine ⟨fun b listed => ?_, fun b listed uncleared => ?_⟩
  · rcases List.mem_append.mp listed with member | new
    · obtain ⟨n, before⟩ := nested.installed (List.ne_nil_of_mem member)
      have wipes := wipes_injected injected nested.orderly before log
      exact fun id isFixed => shown.above b member id (wipes.fixed before isFixed)
    · rw [List.mem_singleton.mp new]
      exact injected.above nested.orderly
  · rcases List.mem_append.mp listed with member | new
    · obtain ⟨n, before⟩ := nested.installed (List.ne_nil_of_mem member)
      have wipes := wipes_injected injected nested.orderly before (log ++ [a])
      have plain := (nested.scopes b member).plain
      rcases shown.values b member uncleared with isBlank | displayed
      · exact .inl (wipes.blank plain isBlank)
      · exact wipes.displayed (fun _ _ => id) listed plain (shown.above b member)
          (displayed_inject injected displayed)
    · rw [List.mem_singleton.mp new]
      exact .inr (displayed_injected injected isKnown nested)

theorem visible_injected {binding : Binding}
    (unhidden : after.rawGetText after.globals binding.name = .nil) :
    visible after binding.name = after.rawGetText a.scope binding.name := by
  rw [visible, unhidden, injected.current]
  rfl

theorem shows_assignPath (orderly : Orderly h) {p : TableId}
    (package : after.rawGetText after.globals "package" = .table p) (patterns : ByteArray)
    {binding : Binding} (unhidden : after.rawGetText after.globals binding.name = .nil) :
    Shows (after.rawSetText p "path" (.string patterns))
      (Within (a.scope.index + 1) after.tables.size) (a.subject contextId)
      (visible (after.rawSetText p "path" (.string patterns)) binding.name) binding := by
  have before := injected.above orderly p (.inr (.inr package))
  have steady := steady_assignPath after p patterns
  have current := injected.orderly.current?_keep steady (minor_pathField p)
  have seen := injected.orderly.visible_keep steady.toKeeps current (not_pathField_name binding p)
  rw [seen, visible_injected injected unhidden]
  refine (injected.shown binding).keep injected.orderly steady.toKeeps ?_ fun _ => id
  refine untouched_within ?_ (Nat.le_refl _) ?_
  · exact Nat.lt_succ_of_lt (injected.above orderly _ (.inl rfl))
  · rintro id k ⟨rfl, _⟩
    exact Nat.lt_succ_of_lt before

end

/-! ## What scripts see -/

/-- A binding that no global hides is absent or read in the scope of an injection whose guard has
not been cleared. -/
theorem Nested.reads (nested : Nested h log) {binding : Binding}
    (unhidden : h.rawGetText h.globals binding.name = .nil) :
    (visible h binding.name).isAbsent = true ∨ ∃ a ∈ log, a.isCleared = false ∧
      visible h binding.name = h.rawGetText a.scope binding.name := by
  have sees : visible h binding.name =
      ((current? h).map fun scope => h.rawGetText scope binding.name).getD .nil := by
    rw [visible, unhidden]
    rfl
  cases current : current? h with
  | none =>
      rw [sees, current]
      exact .inl rfl
  | some s =>
      rw [sees, current]
      rcases (nested.current s current).origin with ⟨a, member, rfl⟩ | ⟨isBlank, _⟩
      · cases status : a.isCleared with
        | false => exact .inr ⟨a, member, status, rfl⟩
        | true =>
            refine .inl ?_
            rw [Option.map_some, Option.getD_some, nested.blank a member status binding]
            rfl
      · refine .inl ?_
        rw [Option.map_some, Option.getD_some, isBlank binding]
        rfl

end Scope

end ScriptHost
