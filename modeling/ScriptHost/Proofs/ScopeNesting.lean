import ScriptHost.Proofs.BindingValues

/-!
# Entering and leaving scopes

Entering a scope makes it the current one. Leaving it makes its bindings absent, and makes the
scope before it current again only if it still is the current one.
-/

set_option autoImplicit false

namespace ScriptHost.Scope

open Lua Heap

/-- The field by which a metatable leads to the current scope. -/
def lookupField (m : TableId) (id : TableId) (k : Key) : Prop := id = m ∧ k = .ofText "__index"

/-- Every binding of a scope is absent. -/
def Blank (h : Heap) (scope : TableId) : Prop :=
  ∀ binding : Binding, h.rawGetText scope binding.name = .null

variable {h after : Heap} {changed : TableId → Key → Prop} {m scope : TableId}

theorem Blank.keep (isBlank : Blank h scope) (plain : Plain h scope)
    (keeps : Keeps changed h after)
    (same : ∀ binding : Binding, ¬ changed scope (.ofText binding.name)) : Blank after scope := by
  intro binding
  rw [keeps.rawGetText plain.present (same binding) plain.strong, isBlank binding]

theorem spares_lookupField (m : TableId) :
    Spares ["__mode", "package", "setmetatable"] (lookupField m) := by
  rintro id name reserved ⟨_, same⟩
  have different : name ≠ "__index" := by
    rintro rfl
    revert reserved
    decide
  exact Key.ofText_ne different same

theorem not_lookupField_path (m id : TableId) : ¬ lookupField m id (.ofText "path") := by
  rintro ⟨_, same⟩
  exact Key.ofText_ne (by decide) same

theorem not_lookupField_newindex (m id : TableId) : ¬ lookupField m id (.ofText "__newindex") := by
  rintro ⟨_, same⟩
  exact Key.ofText_ne (by decide) same

theorem not_lookupField_name (m id : TableId) (binding : Binding) :
    ¬ lookupField m id (.ofText binding.name) := by
  rintro ⟨_, same⟩
  have different : binding.name ≠ "__index" := by cases binding <;> decide
  exact Key.ofText_ne different same

theorem setCurrent_spec (orderly : Orderly h) (installed : h.globalsMetatable? = some m)
    (plain : Plain h scope) :
    Steady (lookupField m) h (setCurrent scope h) ∧ Orderly (setCurrent scope h) ∧
      current? (setCurrent scope h) = some scope := by
  have lookup := orderly.lookup m installed
  have entered : setCurrent scope h = h.rawSetText m "__index" (.table scope) := by
    simp only [setCurrent, installed]
  have steady : Steady (lookupField m) h (h.rawSetText m "__index" (.table scope)) :=
    Steady.rawSetText ⟨rfl, rfl⟩ (by decide) h _
  have found : (h.rawSetText m "__index" (.table scope)).rawGetText m "__index" = .table scope :=
    rawGetText_rawSetText_self lookup.present ..
  have fit : Lookup (h.rawSetText m "__index" (.table scope)) m := by
    refine ⟨Nat.lt_of_lt_of_le lookup.present steady.grown, ?_, ?_, .inr ⟨scope, found, ?_⟩⟩
    · rw [steady.metatable? m lookup.present (orderly.lookup_ne_globals installed),
        lookup.metatable?]
    · rw [steady.rawGetText lookup.present (spares_lookupField m m _ (by decide)) lookup.strong,
        lookup.mode]
    · exact plain.keep steady.toKeeps (orderly.scope_ne_globals installed plain)
        (spares_lookupField m _ _ (by decide))
  rw [entered]
  refine ⟨steady, ?_, ?_⟩
  · refine orderly.relook steady (spares_lookupField m) ?_ fun p _ assigned =>
      absurd assigned (not_lookupField_path m p)
    intro n same
    obtain rfl := Option.some.inj (installed.symm.trans same)
    exact fit
  · rw [current?_of_link (steady.globalsMetatable?.trans installed), found]

theorem enter_spec (orderly : Orderly h) (installed : h.globalsMetatable? = some m)
    (plain : Plain h scope) :
    (enter scope h).1 = current? h ∧ Steady (lookupField m) h (enter scope h).2 ∧
      Orderly (enter scope h).2 ∧ current? (enter scope h).2 = some scope := by
  obtain ⟨steady, kept, current⟩ := setCurrent_spec orderly installed plain
  have held := Steady.hold (fun _ _ => False) (setCurrent scope h)
    (scope :: (current? h).toList ++ (setCurrent scope h).held)
  refine ⟨rfl, steady.trans held fun _ _ _ => False.elim, kept.keep_all held, ?_⟩
  exact (kept.current?_keep held fun _ _ _ => id).trans current

/-! ## Blank scopes -/

theorem foldl_blank (names : List String) (named : ∀ name ∈ names, ∃ b : Binding, name = b.name)
    {h : Heap} (present : scope.index < h.tables.size) :
    Steady (bindingFields scope) h
        (names.foldl (fun h name => h.rawSetText scope name .null) h) ∧
      ∀ name, name ∈ names ∨ h.rawGetText scope name = .null →
        (names.foldl (fun h name => h.rawSetText scope name .null) h).rawGetText scope name =
          .null := by
  induction names generalizing h with
  | nil =>
      refine ⟨Steady.refl .., ?_⟩
      rintro name (member | null)
      · cases member
      · exact null
  | cons first rest ih =>
      obtain ⟨b, rfl⟩ := named first List.mem_cons_self
      have assigned : Steady (bindingFields scope) h (h.rawSetText scope b.name .null) :=
        Steady.rawSetText (bindingFields_name scope b) (name_ne_mode b) h .null
      obtain ⟨steady, nulls⟩ := ih (fun name member => named name (List.mem_cons_of_mem _ member))
        (Nat.lt_of_lt_of_le present assigned.grown)
      refine ⟨assigned.andThen steady, ?_⟩
      intro name listed
      rw [List.foldl_cons]
      apply nulls
      by_cases same : b.name = name
      · exact .inr (by rw [← same, rawGetText_rawSetText_self present])
      · rcases listed with member | null
        · exact .inl ((List.mem_cons.mp member).resolve_left (Ne.symm same))
        · exact .inr (by rw [rawGetText_rawSetText_of_ne same, null])

theorem blank_spec (present : scope.index < h.tables.size) :
    Steady (bindingFields scope) h (blank scope h) ∧ Blank (blank scope h) scope := by
  have named : ∀ name ∈ Binding.names, ∃ b : Binding, name = b.name := by
    intro name member
    obtain ⟨b, _, same⟩ := List.mem_map.mp member
    exact ⟨b, same.symm⟩
  obtain ⟨steady, nulls⟩ := foldl_blank Binding.names named present
  exact ⟨steady, fun b => nulls b.name (.inl (List.mem_map_of_mem (Binding.mem_all b)))⟩

/-! ## Leaving a scope -/

/-- The fields that leaving a scope changes. -/
def leavingFields (m scope : TableId) (id : TableId) (k : Key) : Prop :=
  bindingFields scope id k ∨ lookupField m id k

theorem not_leavingFields_newindex (m scope id : TableId) :
    ¬ leavingFields m scope id (.ofText "__newindex") := by
  rintro (⟨_, binding, same⟩ | looked)
  · exact Key.ofText_ne (by cases binding <;> decide) same
  · exact not_lookupField_newindex m id looked

/-- Making the scope before current again, after the bindings have been made absent. -/
theorem reenter_spec (orderly : Orderly h) (installed : h.globalsMetatable? = some m)
    {guard : BindingGuard} (plain : Plain h guard.scope) (isBlank : Blank h guard.scope)
    (previous : ∀ p, guard.previous? = some p → Plain h p) :
    Steady (lookupField m) h (reenter guard h) ∧ Orderly (reenter guard h) ∧
      Blank (reenter guard h) guard.scope ∧
      current? (reenter guard h) =
        if current? h = some guard.scope then some (guard.previous?.getD guard.scope)
        else current? h := by
  unfold reenter
  cases before : guard.previous? with
  | none =>
      refine ⟨Steady.refl .., orderly, isBlank, ?_⟩
      by_cases here : current? h = some guard.scope
      · rw [if_pos here]
        exact here
      · rw [if_neg here]
  | some p =>
      by_cases here : current? h = some guard.scope
      · simp only [if_pos here]
        obtain ⟨steady, kept, current⟩ := setCurrent_spec orderly installed (previous p before)
        refine ⟨steady, kept, ?_, current⟩
        exact isBlank.keep plain steady.toKeeps fun b => not_lookupField_name m _ b
      · simp only [if_neg here]
        exact ⟨Steady.refl .., orderly, isBlank, trivial⟩

theorem leave_spec (orderly : Orderly h) (installed : h.globalsMetatable? = some m)
    {guard : BindingGuard} (plain : Plain h guard.scope)
    (previous : ∀ p, guard.previous? = some p → Plain h p) :
    Steady (leavingFields m guard.scope) h (leave guard h) ∧ Orderly (leave guard h) ∧
      Blank (leave guard h) guard.scope ∧
      current? (leave guard h) =
        if current? h = some guard.scope then some (guard.previous?.getD guard.scope)
        else current? h := by
  obtain ⟨blanked, isBlank⟩ := blank_spec (h := h) plain.present
  have minor := minor_bindingFields guard.scope
  have kept := orderly.keep_bindingFields blanked
  have same := orderly.current?_keep blanked minor
  have fit : ∀ {p}, Plain h p → Plain (blank guard.scope h) p := fun {p} isPlain =>
    isPlain.keep blanked.toKeeps (orderly.scope_ne_globals installed isPlain) (minor p _ (by decide))
  obtain ⟨relooked, orderlyAfter, stillBlank, current⟩ :=
    reenter_spec kept (blanked.globalsMetatable?.trans installed) (fit plain) isBlank
      fun p before => fit (previous p before)
  rw [same] at current
  have held := Steady.hold (fun _ _ => False) (reenter guard (blank guard.scope h))
    (guard.previous?.toList.foldl List.erase
      ((reenter guard (blank guard.scope h)).held.erase guard.scope))
  refine ⟨?_, orderlyAfter.keep_all held, stillBlank, ?_⟩
  · refine ((blanked.mono fun _ _ => .inl).trans relooked fun _ _ _ => .inr).trans held ?_
    exact fun _ _ _ => False.elim
  · exact (orderlyAfter.current?_keep held fun _ _ _ => id).trans current

end ScriptHost.Scope
