import ScriptHost.Proofs.GlobalAssignment
import ScriptHost.Proofs.InjectedScopes

/-!
# Engines with injections over time

What holds on an engine with injections, and that it goes on to hold when a further one comes,
when guards are cleared in whatever order, when all bindings are made absent at once, and when
scripts assign globals.
-/

set_option autoImplicit false

namespace ScriptHost.Scope

open Lua Heap

variable {known more : ContextId → Context → Prop} {h after : Heap}
  {changed : TableId → Key → Prop} {log : List Injection} {a : Injection} {s : TableId}

/-- Scopes work on an engine, and none is in front that shows anything. If scripts are to assign
globals, the names of bindings are kept free; otherwise no global has the name of a binding. -/
structure Fit (assigns : Bool) (h : Heap) : Prop where
  orderly : Orderly h
  idle : ∀ s, current? h = some s → Blank h s
  guarded : assigns = true → Guarded h
  unshadowed : assigns = false → Unshadowed h

/-- No global hides a binding and, if scripts are to assign globals, none comes to. -/
def Free (assigns : Bool) (h : Heap) (binding : Binding) : Prop :=
  h.rawGetText h.globals binding.name = .nil ∧
    (assigns = true → h.globalsMetatable?.isSome = true)

theorem Free.keep {assigns : Bool} {binding : Binding} (isFree : Free assigns h binding)
    (orderly : Orderly h) (keeps : Keeps changed h after)
    (installed : ∀ m, h.globalsMetatable? = some m → after.globalsMetatable? = some m)
    (unnamed : ¬ changed h.globals (.ofText binding.name)) : Free assigns after binding := by
  obtain ⟨unhidden, pending⟩ := isFree
  refine ⟨by rw [orderly.rawGetText_globals keeps unnamed, unhidden], fun isAssigning => ?_⟩
  obtain ⟨m, before⟩ := Option.isSome_iff_exists.mp (pending isAssigning)
  rw [installed m before]
  rfl

theorem Shown.nil : Shown known h [] := ⟨by simp, by simp⟩

/-- What holds on an engine with injections. The values of injections stay while scripts assign
no globals: a script might have them stand for the package library. -/
structure Kept (assigns : Bool) (free : Binding → Prop) (known : ContextId → Context → Prop)
    (h : Heap) (log : List Injection) : Prop where
  nested : Nested h log
  guarded : assigns = true → Guarded h
  free : ∀ binding, free binding → Free assigns h binding
  shown : assigns = false → Shown known h log

namespace Kept

variable {assigns : Bool} {free : Binding → Prop}

theorem ofFit (fit : Fit assigns h) (isFree : ∀ binding, free binding → Free assigns h binding) :
    Kept assigns free known h [] where
  nested := .ofIdle fit.orderly fit.idle
  guarded := fit.guarded
  free := isFree
  shown _ := .nil

/-- Whatever changes scopes only by making some of them blank keeps all that holds. -/
theorem wiped (kept : Kept assigns free known h log) (wipes : Wipes changed h after log)
    (orderly : Orderly after) (guarded : Guarded h → Guarded after)
    (wider : ∀ id context, known id context → more id context)
    (front : log ≠ [] → ∃ s, current? after = some s)
    (current : ∀ s, current? after = some s → Rests h log s ∨ Rests after log s) :
    Kept assigns free more after log where
  nested := wipes.nested kept.nested orderly front current
  guarded isAssigning := guarded (kept.guarded isAssigning)
  free binding isFree := (kept.free binding isFree).keep kept.nested.orderly wipes.keeps
    wipes.installed (wipes.unnamed binding)
  shown quiet := by
    have shown := kept.shown quiet
    by_cases used : log = []
    · subst used
      exact .nil
    · obtain ⟨m, installed⟩ := kept.nested.installed used
      exact wipes.shown installed kept.nested shown wider

theorem steady (kept : Kept assigns free known h log) (steady : Steady changed h after)
    (minor : Minor changed)
    (path : ∀ p, h.rawGetText h.globals "package" = .table p → changed p (.ofText "path") →
      ∃ s, after.rawGetText p "path" = .string s)
    (newindex : ∀ m, h.globalsMetatable? = some m → ¬ changed m (.ofText "__newindex"))
    (isFixed : ∀ id k, changed id k → Fixed h id ∧ ∀ binding : Binding, k ≠ .ofText binding.name)
    (wider : ∀ id context, known id context → more id context) :
    Kept assigns free more after log := by
  have orderly := kept.nested.orderly
  have same := orderly.current?_keep steady minor
  have wipes : Wipes changed h after log :=
    ⟨.ofSteady orderly steady fun id => minor id _ (by decide), fun id k touched =>
      .inr (isFixed id k touched)⟩
  refine kept.wiped wipes (orderly.keep steady minor path)
    (orderly.guarded_keep steady.toKeeps steady.globalsMetatable? newindex) wider ?_ ?_
  · intro used
    rw [same]
    exact kept.nested.front used
  · intro s current
    exact .inl (kept.nested.current s (same ▸ current))

theorem steady_all (kept : Kept assigns free known h log)
    (steady : Steady (fun _ _ => False) h after)
    (wider : ∀ id context, known id context → more id context) :
    Kept assigns free more after log :=
  kept.steady steady (fun _ _ _ => id) (fun _ _ => False.elim) (fun _ _ => id)
    (fun _ _ => False.elim) wider

theorem mono (kept : Kept assigns free known h log)
    (wider : ∀ id context, known id context → more id context) :
    Kept assigns free more h log :=
  kept.steady_all (Steady.refl ..) wider

theorem assignPath (kept : Kept assigns free known h log) {p : TableId}
    (package : h.rawGetText h.globals "package" = .table p) (patterns : ByteArray) :
    Kept assigns free known (h.rawSetText p "path" (.string patterns)) log := by
  refine kept.steady (steady_assignPath h p patterns) (minor_pathField p) ?_ ?_ ?_ fun _ _ => id
  · rintro q found ⟨rfl, _⟩
    have present := (kept.nested.orderly.package q found).present
    exact ⟨patterns, rawGetText_rawSetText_self present ..⟩
  · exact fun m _ => not_pathField (by decide) p m
  · rintro id k ⟨rfl, rfl⟩
    exact ⟨.inr (.inr package), fun binding => Key.ofText_ne (by cases binding <;> decide)⟩

theorem rewound (kept : Kept assigns free known h log) (rewound : Rewound h after) :
    Kept assigns free known after log := by
  have orderly := kept.nested.orderly
  cases before : current? h with
  | none =>
      -- Then there was no injection, and a scope that is current now is blank.
      have unused : log = [] := by
        by_cases used : log = []
        · exact used
        · obtain ⟨s, current⟩ := kept.nested.front used
          rw [before] at current
          cases current
      subst unused
      refine ⟨.ofIdle rewound.orderly (rewound.first before), fun isAssigning =>
        rewound.guarded (kept.guarded isAssigning), fun binding isFree => ?_, fun _ => .nil⟩
      refine (kept.free binding isFree).keep orderly rewound.keeps rewound.installed ?_
      exact fun touched => not_lookupField_name h.globals h.globals binding ⟨rfl, touched.2⟩
  | some s =>
      obtain ⟨m, installed, _⟩ := orderly.exists_of_current before
      have same : current? after = current? h := by
        rcases rewound.current? with same | absent
        · exact same
        · rw [before] at absent
          cases absent
      have wipes : Wipes (currentField after) h after log := by
        refine ⟨⟨orderly, rewound.keeps, rewound.installed, ?_⟩, ?_⟩
        · rintro id ⟨_, same⟩
          exact Key.ofText_ne (by decide) same
        · rintro id k ⟨lookup, rfl⟩
          rw [rewound.installed m installed, ← installed] at lookup
          exact .inr ⟨.inr (.inl lookup),
            fun binding => Key.ofText_ne (by cases binding <;> decide)⟩
      refine kept.wiped wipes rewound.orderly rewound.guarded (fun _ _ => id) ?_ ?_
      · intro used
        rw [same]
        exact kept.nested.front used
      · intro t current
        exact .inl (kept.nested.current t (same ▸ current))

theorem inject (kept : Kept assigns free known h log) {contextId : ContextId}
    (injected : Injected h after a.guard (a.subject contextId)) (uncleared : a.isCleared = false)
    (isKnown : known contextId a.context) : Kept assigns free known after (log ++ [a]) where
  nested := kept.nested.inject injected uncleared
  guarded isAssigning := injected.guarded (kept.guarded isAssigning)
  free binding isFree := by
    obtain ⟨m, _, _, keeps⟩ := injected.keeps
    exact (kept.free binding isFree).keep kept.nested.orderly keeps injected.installed
      (not_lookupField_name m h.globals binding)
  shown quiet := (kept.shown quiet).inject injected kept.nested isKnown

/-- The scope of a guard becomes blank, and if it was current, the one before it is. -/
theorem leave (kept : Kept assigns free known h log) (member : a ∈ log) :
    Kept assigns free known (leave a.guard h) (log.map (Injection.clear a.guard)) := by
  have nested := kept.nested
  have own := nested.scopes a member
  have used := List.ne_nil_of_mem member
  obtain ⟨m, installed⟩ := nested.installed used
  obtain ⟨steady, orderly, isBlank, current⟩ := leave_spec nested.orderly installed own.plain
    fun p same => (nested.previous a member p same).plain
  have wipes : Wipes (leavingFields m a.guard.scope) h (Scope.leave a.guard h) log := by
    refine ⟨.ofSteady nested.orderly steady ?_, ?_⟩
    · rintro id (bound | looked)
      · exact minor_bindingFields a.guard.scope id _ (by decide) bound
      · exact spares_lookupField m id _ (by decide) looked
    · rintro id k (⟨rfl, _⟩ | ⟨rfl, rfl⟩)
      · exact .inl ⟨own, isBlank⟩
      · exact .inr ⟨.inr (.inl installed),
          fun binding => Key.ofText_ne (by cases binding <;> decide)⟩
  have before : Kept assigns free known (Scope.leave a.guard h) log := by
    refine kept.wiped wipes orderly (nested.orderly.guarded_keep steady.toKeeps
      steady.globalsMetatable? fun n _ => not_leavingFields_newindex m a.guard.scope n)
      (fun _ _ => id) ?_ ?_
    · intro _
      obtain ⟨s, front⟩ := nested.front used
      rw [current, front]
      split
      · exact ⟨_, rfl⟩
      · exact ⟨s, rfl⟩
    · intro s front
      rw [current] at front
      refine .inl ?_
      split at front
      · obtain rfl := Option.some.inj front
        cases same : a.guard.previous? with
        | none => exact own
        | some p => exact nested.previous a member p same
      · exact nested.current s front
  exact ⟨before.nested.clear isBlank, before.guarded, before.free,
    fun quiet => (before.shown quiet).clear a.guard⟩

theorem blankCurrent (kept : Kept assigns free known h log) :
    Kept assigns free known (blankCurrent h) log := by
  have nested := kept.nested
  unfold Scope.blankCurrent
  cases front : current? h with
  | none => exact kept
  | some s =>
      have rests := nested.current s front
      obtain ⟨steady, isBlank⟩ := blank_spec (h := h) rests.plain.present
      have minor := minor_bindingFields s
      have same := nested.orderly.current?_keep steady minor
      have wipes : Wipes (bindingFields s) h (blank s h) log := by
        refine ⟨.ofSteady nested.orderly steady fun id => minor id _ (by decide), ?_⟩
        rintro id k ⟨rfl, _⟩
        exact .inl ⟨rests, isBlank⟩
      refine kept.wiped wipes (nested.orderly.keep_bindingFields steady) ?_ (fun _ _ => id) ?_ ?_
      · refine nested.orderly.guarded_keep steady.toKeeps steady.globalsMetatable? ?_
        exact fun m _ touched => not_leavingFields_newindex m s m (.inl touched)
      · intro used
        rw [same]
        exact nested.front used
      · intro t current
        exact .inl (nested.current t (same ▸ current))

end Kept

/-! ## Assigning globals -/

section

variable {name : String} {v : Value} {t : TableId}

theorem rawGetText_assign_of_ne (other : t ≠ h.globals) (field : String) :
    (h.rawSetText h.globals name v).rawGetText t field = h.rawGetText t field :=
  rawGet_rawSet_of_ne other ..

theorem rests_assign (rests : Rests h log s) : Rests (h.rawSetText h.globals name v) log s := by
  have same (field : String) :
      (h.rawSetText h.globals name v).rawGetText s field = h.rawGetText s field :=
    rawGetText_assign_of_ne rests.other field
  refine ⟨⟨?_, ?_, ?_⟩, rests.other, ?_⟩
  · exact Nat.lt_of_lt_of_le rests.plain.present (Nat.le_of_eq (size_tables_rawSet ..).symm)
  · exact (metatable?_rawSet ..).trans rests.plain.metatable?
  · rw [same, rests.plain.package]
  · rcases rests.origin with own | ⟨isBlank, below⟩
    · exact .inl own
    · exact .inr ⟨fun binding => by rw [same, isBlank binding], below⟩

theorem current?_assign (orderly : Orderly h) :
    current? (h.rawSetText h.globals name v) = current? h := by
  cases installed : h.globalsMetatable? with
  | none =>
      have after : (h.rawSetText h.globals name v).globalsMetatable? = none := installed
      simp [current?, installed, after]
  | some m =>
      have after : (h.rawSetText h.globals name v).globalsMetatable? = some m := installed
      rw [current?_of_link installed, current?_of_link after,
        rawGetText_assign_of_ne (orderly.lookup_ne_globals installed)]

/-- An assignment that the host does not refuse changes no scope and hides no binding that has
been free. -/
theorem Kept.assign {free : Binding → Prop} (kept : Kept true free known h log)
    (orderly : Orderly (h.rawSetText h.globals name v)) (allowed : ¬ Host.Reserved h name) :
    Kept true free known (h.rawSetText h.globals name v) log where
  nested := by
    have nested := kept.nested
    have current : current? (h.rawSetText h.globals name v) = current? h :=
      current?_assign nested.orderly
    refine ⟨orderly, fun used => ?_, fun s same => ?_, fun a member => ?_,
      fun a member p same => ?_, fun a member isCleared binding => ?_⟩
    · rw [current]
      exact nested.front used
    · exact rests_assign (nested.current s (current ▸ same))
    · exact rests_assign (nested.scopes a member)
    · exact rests_assign (nested.previous a member p same)
    · rw [rawGetText_assign_of_ne (nested.scopes a member).other,
        nested.blank a member isCleared binding]
  guarded isAssigning m installed := by
    rw [rawGetText_assign_of_ne (kept.nested.orderly.lookup_ne_globals installed)]
    exact kept.guarded isAssigning m installed
  free binding isFree := by
    obtain ⟨unhidden, installed⟩ := kept.free binding isFree
    refine ⟨?_, installed⟩
    by_cases same : name = binding.name
    · refine absurd ⟨installed rfl, ?_, ?_⟩ allowed
      · rw [same, unhidden]
      · rw [same]
        exact List.mem_map_of_mem (Binding.mem_all binding)
    · exact (rawGetText_rawSetText_of_ne same ..).trans unhidden
  shown quiet := by cases quiet

end

end ScriptHost.Scope
