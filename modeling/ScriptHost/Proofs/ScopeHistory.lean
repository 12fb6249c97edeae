import ScriptHost.Proofs.LinkedScopes

/-!
# Scopes of invocations over time

Acquiring an invocation, releasing one in whatever order, and whatever concerns no scope keep the
scopes of an engine linked.
-/

set_option autoImplicit false

namespace ScriptHost.Scope

open Lua Heap

variable {known more : ContextId → Context → Prop} {h after : Heap}
  {changed : TableId → Key → Prop} {a : Acquisition} {s : TableId} {top : Nat}

/-! ## Leaving a scope -/

/-- A change that makes the scope of an invocation blank and, but for fixed tables, changes
nothing else. -/
structure Leaves (changed : TableId → Key → Prop) (h after : Heap) (a : Acquisition) : Prop extends
    Framed changed h after where
  inside : ∀ id k, changed id k →
    id = a.scope ∨ Fixed h id ∧ ∀ binding : Binding, k ≠ .ofText binding.name
  isBlank : Blank after a.scope

namespace Leaves

variable {m : TableId} {hidden : Bool} {current? : Option TableId}
  {earlier later : List Acquisition}

theorem vacant (leaves : Leaves changed h after a) (installed : h.globalsMetatable? = some m)
    (vacant : Vacant h top s) (other : s ≠ a.scope) : Vacant after top s := by
  refine leaves.toFramed.vacant installed vacant ?_
  refine vacant.isBlank.keep vacant.plain leaves.keeps fun binding touched => ?_
  rcases leaves.inside s _ touched with same | ⟨_, unnamed⟩
  · exact other same
  · exact unnamed binding rfl

theorem own_vacant (leaves : Leaves changed h after a) (installed : h.globalsMetatable? = some m)
    (standing : Standing known h top a) : Vacant after top a.scope where
  plain := leaves.plain standing.plain (ne_globals_of_above standing.above)
  below := standing.below
  above id isFixed := standing.above id (leaves.fixed installed isFixed)
  isBlank := leaves.isBlank

theorem rest (leaves : Leaves changed h after a) (installed : h.globalsMetatable? = some m)
    (linked : Linked known h false a.previous? a.scope.index earlier) (below : a.scope.index ≤ top) :
    Linked known after false a.previous? top earlier := by
  refine (linked.keep leaves.toFramed installed (fun _ _ => id) fun id k touched => ?_).mono below
  rcases leaves.inside id k touched with rfl | ⟨isFixed, _⟩
  · exact .inr (Nat.le_refl _)
  · exact .inl isFixed

/-- A later invocation that is not released does not see that an earlier one is. -/
theorem standing_later (leaves : Leaves changed h after a) {b : Acquisition}
    (installed : h.globalsMetatable? = some m) (standing : Standing known h top b)
    (below : a.scope.index < b.scope.index) : Standing known after top b := by
  refine leaves.standing installed (fun _ _ => id) standing fun id k touched => .inl ?_
  rcases leaves.inside id k touched with rfl | ⟨isFixed, _⟩
  · exact below
  · exact standing.above id isFixed

/-- Leaving the scope of an invocation while it is not in front. -/
theorem overtaken (leaves : Leaves changed h after a) (installed : h.globalsMetatable? = some m)
    (linked : Linked known h hidden current? top (later ++ a :: earlier))
    (live : a.released? = none) (e : EngineError) :
    Linked known after hidden current? top (later ++ a.release (.error e) :: earlier) := by
  induction later generalizing hidden current? top with
  | nil =>
      rw [List.nil_append, Linked.cons_live live] at linked
      obtain ⟨standing, front, rest⟩ := linked
      have kept := leaves.rest installed rest (Nat.le_of_lt standing.below)
      rw [List.nil_append, Linked.cons_released rfl, Acquisition.isOvertaken_release_error,
        Bool.or_true]
      cases hidden with
      | false =>
          have same : current? = some a.scope := front
          rw [same]
          exact kept.hide (leaves.own_vacant installed standing)
      | true =>
          obtain ⟨scope, same, isVacant⟩ := front
          rw [same]
          exact kept.hide (leaves.vacant installed isVacant (isVacant.ne_scope standing))
  | cons b later ih =>
      rw [List.cons_append] at linked ⊢
      rcases Linked.cons_cases b with alive | ⟨_, _, released⟩
      · rw [Linked.cons_live alive] at linked ⊢
        obtain ⟨standing, front, rest⟩ := linked
        have earlier := (rest.split live).1
        refine ⟨leaves.standing_later installed standing earlier.below, ?_, ih rest⟩
        cases hidden with
        | false => exact front
        | true =>
            obtain ⟨scope, same, isVacant⟩ := front
            exact ⟨scope, same, leaves.vacant installed isVacant (isVacant.ne_scope earlier)⟩
      · rw [Linked.cons_released released] at linked ⊢
        exact ih linked

/-- Leaving the scope of the latest unreleased invocation: if it is in front, the one before gets
there, and it stays itself if there was none. -/
theorem latest (leaves : Leaves changed h after a) (installed : h.globalsMetatable? = some m)
    (linked : Linked known h hidden current? top (later ++ a :: earlier))
    (live : a.released? = none) (latest : later.any Acquisition.isLive = false) :
    Linked known after hidden
      (if current? = some a.scope then some (a.previous?.getD a.scope) else current?) top
      (later ++ a.release (.ok ()) :: earlier) := by
  induction later generalizing hidden with
  | nil =>
      rw [List.nil_append, Linked.cons_live live] at linked
      obtain ⟨standing, front, rest⟩ := linked
      have kept := leaves.rest installed rest (Nat.le_of_lt standing.below)
      rw [List.nil_append, Linked.cons_released rfl, Acquisition.isOvertaken_release_ok,
        Bool.or_false]
      cases hidden with
      | false =>
          have same : current? = some a.scope := front
          rw [if_pos same]
          cases before : a.previous? with
          | some p =>
              rw [before] at kept
              exact kept
          | none =>
              -- The blank scope stays in front, but no unreleased invocation is left behind it.
              have own := leaves.own_vacant installed standing
              rw [before] at kept
              refine kept.reopen ?_ false top
              intro scope same
              obtain rfl := Option.some.inj same
              exact ⟨own.plain, ne_globals_of_above own.above⟩
      | true =>
          obtain ⟨scope, same, isVacant⟩ := front
          have other := isVacant.ne_scope standing
          rw [same, if_neg fun equal => other (Option.some.inj equal)]
          exact kept.hide (leaves.vacant installed isVacant other)
  | cons b later ih =>
      rw [List.any_cons, Bool.or_eq_false_iff] at latest
      rw [List.cons_append] at linked ⊢
      rcases Linked.cons_cases b with alive | ⟨_, _, released⟩
      · simp [Acquisition.isLive, alive] at latest
      · rw [Linked.cons_released released] at linked ⊢
        exact ih linked latest.2

end Leaves

/-! ## What happens on an engine -/

namespace Linked

variable {earlier later log : List Acquisition}

theorem current?_fits (orderly : Orderly h) {scope : TableId} (current : current? h = some scope) :
    Plain h scope ∧ scope ≠ h.globals := by
  obtain ⟨_, _, plain, other⟩ := orderly.exists_of_current current
  exact ⟨plain, other⟩

/-- A change that concerns no scope at all, but perhaps the one that is found without any. -/
theorem preserve (linked : Linked known h false (current? h) h.tables.size log)
    (framed : Framed changed h after) (orderly : Orderly after)
    (wider : ∀ id context, known id context → more id context)
    (outside : ∀ m, h.globalsMetatable? = some m → ∀ id k, changed id k → Fixed h id)
    (same : current? after = current? h ∨ current? h = none) :
    Linked more after false (current? after) after.tables.size log := by
  cases before : current? h with
  | none =>
      rw [before] at linked
      exact linked.reopen (fun _ => current?_fits orderly) _ _
  | some scope =>
      obtain ⟨m, installed, _⟩ := framed.orderly.exists_of_current before
      have current : current? after = current? h := by
        rcases same with same | absent
        · exact same
        · rw [before] at absent
          cases absent
      rw [current]
      refine (linked.keep framed installed wider fun id k touched => ?_).mono framed.keeps.grown
      exact .inl (outside m installed id k touched)

theorem rewound (linked : Linked known h false (current? h) h.tables.size log)
    (orderly : Orderly h) (rewound : Rewound h after)
    (wider : ∀ id context, known id context → more id context) :
    Linked more after false (current? after) after.tables.size log := by
  refine linked.preserve ⟨orderly, rewound.keeps, rewound.installed, ?_⟩ rewound.orderly wider ?_
    rewound.current?
  · rintro id ⟨_, same⟩
    exact Key.ofText_ne (by decide) same
  · rintro m installed id k ⟨lookup, _⟩
    rw [rewound.installed m installed, ← installed] at lookup
    exact .inr (.inl lookup)

theorem acquire (linked : Linked known h false (current? h) h.tables.size log)
    (orderly : Orderly h) {contextId : ContextId} (live : a.released? = none)
    (injected : Injected h after a.invocation.bindings (a.subject contextId))
    (isKnown : more contextId a.invocation.context)
    (wider : ∀ id context, known id context → more id context) :
    Linked more after false (current? after) after.tables.size (a :: log) := by
  obtain ⟨m, installed, _, keeps⟩ := injected.keeps
  have plain : Plain after a.scope := injected.plain
  have fresh : h.tables.size ≤ a.scope.index := injected.fresh
  rw [cons_live live]
  refine ⟨⟨plain, plain.present, injected.above orderly, contextId, after.tables.size, isKnown,
    Nat.le_refl _, Nat.le_refl _, injected.shown⟩, injected.current, ?_⟩
  have previous : a.previous? = current? h := injected.previous
  rw [previous]
  cases before : current? h with
  | none =>
      rw [before] at linked
      exact linked.reopen (fun _ absent => by cases absent) _ _
  | some scope =>
      obtain ⟨n, linkedBefore, _⟩ := orderly.exists_of_current before
      obtain rfl := Option.some.inj ((injected.installed n linkedBefore).symm.trans installed)
      rw [before] at linked
      refine (linked.keep ⟨orderly, keeps, injected.installed, fun id =>
        spares_lookupField n id _ (by decide)⟩ linkedBefore wider ?_).mono fresh
      rintro id k ⟨rfl, _⟩
      exact .inl (.inr (.inl linkedBefore))

theorem leaves (linked : Linked known h false (current? h) h.tables.size (later ++ a :: earlier))
    (orderly : Orderly h) (live : a.released? = none) :
    ∃ m, h.globalsMetatable? = some m ∧ a.scope ≠ h.globals ∧
      Leaves (leavingFields m a.scope) h (leave a.invocation.bindings h) a ∧
      Orderly (leave a.invocation.bindings h) ∧
      current? (leave a.invocation.bindings h) =
        if current? h = some a.scope then some (a.previous?.getD a.scope) else current? h := by
  obtain ⟨standing, rest⟩ := linked.split live
  obtain ⟨scope, before⟩ := linked.exists_front (List.mem_append_right _ List.mem_cons_self) live
  obtain ⟨m, installed, _⟩ := orderly.exists_of_current before
  obtain ⟨steady, kept, isBlank, current⟩ :
      Steady (leavingFields m a.scope) h (leave a.invocation.bindings h) ∧ _ ∧ _ ∧ _ :=
    leave_spec orderly installed standing.plain fun p same => (rest.plain same).1
  refine ⟨m, installed, ne_globals_of_above standing.above, ⟨.ofSteady orderly steady ?_, ?_,
    isBlank⟩, kept, current⟩
  · rintro id (bound | looked)
    · exact minor_bindingFields a.scope id _ (by decide) bound
    · exact spares_lookupField m id _ (by decide) looked
  · rintro id k (⟨same, _⟩ | ⟨rfl, rfl⟩)
    · exact .inl same
    · refine .inr ⟨.inr (.inl installed), fun binding => Key.ofText_ne ?_⟩
      cases binding <;> decide

end Linked

/-! ## Engines with invocations -/

/-- Scopes work on an engine, and those of its invocations are linked. -/
structure Sound (known : ContextId → Context → Prop) (h : Heap) (log : List Acquisition) :
    Prop where
  ready : Ready h
  linked : Linked known h false (current? h) h.tables.size log

namespace Sound

variable {earlier later log : List Acquisition}

theorem ofReady (ready : Ready h) : Sound known h [] where
  ready := ready
  linked _ current := Linked.current?_fits ready.orderly current

/-- Scopes stay linked while at most fixed tables change. -/
theorem steady (sound : Sound known h log) (steady : Steady changed h after)
    (minor : Minor changed)
    (path : ∀ p, h.rawGetText h.globals "package" = .table p → changed p (.ofText "path") →
      ∃ s, after.rawGetText p "path" = .string s)
    (unnamed : ∀ binding : Binding, ¬ changed h.globals (.ofText binding.name))
    (isFixed : ∀ id k, changed id k → Fixed h id) : Sound known after log where
  ready := sound.ready.keep steady minor path unnamed
  linked := by
    have orderly := sound.ready.orderly
    refine sound.linked.preserve (.ofSteady orderly steady fun id => minor id _ (by decide))
      (orderly.keep steady minor path) (fun _ _ => id) (fun _ _ => isFixed) ?_
    exact .inl (orderly.current?_keep steady minor)

theorem steady_all (sound : Sound known h log) (steady : Steady (fun _ _ => False) h after) :
    Sound known after log :=
  sound.steady steady (fun _ _ _ => id) (fun _ _ => False.elim) (fun _ => id)
    fun _ _ => False.elim

theorem mono (sound : Sound known h log)
    (wider : ∀ id context, known id context → more id context) : Sound more h log where
  ready := sound.ready
  linked := by
    have framed : Framed (fun _ _ => False) h h :=
      .ofSteady sound.ready.orderly (Steady.refl ..) fun _ => id
    exact sound.linked.preserve framed sound.ready.orderly wider (fun _ _ _ _ => False.elim)
      (.inl rfl)

theorem rewound (sound : Sound known h log) (rewound : Rewound h after) : Sound known after log where
  ready := by
    refine ⟨rewound.orderly, sound.ready.unshadowed.keep sound.ready.orderly rewound.keeps ?_⟩
    rintro binding ⟨_, same⟩
    exact not_lookupField_name h.globals h.globals binding ⟨rfl, same⟩
  linked := sound.linked.rewound sound.ready.orderly rewound fun _ _ => id

theorem acquire (sound : Sound known h log) {contextId : ContextId} (live : a.released? = none)
    (injected : Injected h after a.invocation.bindings (a.subject contextId))
    (isKnown : known contextId a.invocation.context) : Sound known after (a :: log) where
  ready := by
    obtain ⟨m, _, _, keeps⟩ := injected.keeps
    exact ⟨injected.orderly, sound.ready.unshadowed.keep sound.ready.orderly keeps
      (not_lookupField_name m h.globals)⟩
  linked := sound.linked.acquire sound.ready.orderly live injected isKnown fun _ _ => id

theorem assignPath (sound : Sound known h log) {p : TableId}
    (package : h.rawGetText h.globals "package" = .table p) (patterns : ByteArray) :
    Sound known (h.rawSetText p "path" (.string patterns)) log := by
  refine sound.steady (steady_assignPath h p patterns) (minor_pathField p) ?_ ?_ ?_
  · rintro q found ⟨rfl, _⟩
    have present := (sound.ready.orderly.package q found).present
    exact ⟨patterns, rawGetText_rawSetText_self present ..⟩
  · exact fun binding => not_pathField_name binding p h.globals
  · rintro id k ⟨rfl, _⟩
    exact .inr (.inr package)

/-- An invocation is released: its scope becomes blank, and if it was in front, the one before it
gets there. -/
theorem release (sound : Sound known h (later ++ a :: earlier)) (live : a.released? = none)
    (e : EngineError) : Sound known (leave a.invocation.bindings h)
      (later ++ a.release (if later.any Acquisition.isLive then .error e else .ok ()) ::
        earlier) := by
  have linked := sound.linked
  obtain ⟨m, installed, other, leaves, orderly, current⟩ :=
    linked.leaves sound.ready.orderly live
  refine ⟨⟨orderly, sound.ready.unshadowed.keep sound.ready.orderly leaves.keeps ?_⟩, ?_⟩
  · rintro binding (⟨same, _⟩ | looked)
    · exact other same.symm
    · exact not_lookupField_name m h.globals binding looked
  · rw [current]
    cases followed : later.any Acquisition.isLive with
    | true =>
        rw [if_neg (linked.front_ne live followed), if_pos rfl]
        exact (leaves.overtaken installed linked live e).mono leaves.keeps.grown
    | false => exact (leaves.latest installed linked live followed).mono leaves.keeps.grown

theorem visible_of_current (ready : Ready h) (current : current? h = some s) (binding : Binding) :
    visible h binding.name = h.rawGetText s binding.name := by
  simp [visible, ready.unshadowed binding, Value.isNil, current]

/-- Scripts see the bindings of the latest unreleased invocation, or none after an overtaken
one. -/
theorem reads (sound : Sound known h (later ++ a :: earlier)) (live : a.released? = none)
    (latest : later.any Acquisition.isLive = false) :
    ∃ contextId own, known contextId a.invocation.context ∧ ∀ binding : Binding,
      if later.any Acquisition.isOvertaken then visible h binding.name = .null
      else Shows h own (a.subject contextId) (visible h binding.name) binding := by
  obtain ⟨contextId, high, isKnown, _, _, shown⟩ := (sound.linked.split live).1.shown
  have front := sound.linked.front live latest
  refine ⟨contextId, Within (a.scope.index + 1) high, isKnown, fun binding => ?_⟩
  rw [Bool.false_or] at front
  cases overtaken : later.any Acquisition.isOvertaken with
  | true =>
      rw [overtaken, if_pos rfl] at front
      obtain ⟨scope, current, vacant⟩ := front
      rw [if_pos rfl, visible_of_current sound.ready current]
      exact vacant.isBlank binding
  | false =>
      rw [overtaken] at front
      rw [visible_of_current sound.ready front]
      exact shown binding

end Sound

end ScriptHost.Scope
