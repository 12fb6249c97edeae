/-!
# The last event of a kind

In a list of events, the last one of a kind after which nothing undoes it.
-/

set_option autoImplicit false

namespace ScriptHost.History

variable {α : Type} {holds after : α → Prop} {log : List α} {event : α}

/-- Something holds of an event, and something else of all later ones. -/
def Last (holds after : α → Prop) (log : List α) : Prop :=
  ∃ earlier e later, log = earlier ++ e :: later ∧ holds e ∧ ∀ other ∈ later, after other

theorem not_last_nil : ¬ Last holds after [] := by
  rintro ⟨earlier, e, later, split, _⟩
  simp at split

theorem last_append_singleton :
    Last holds after (log ++ [event]) ↔ holds event ∨ after event ∧ Last holds after log := by
  constructor
  · rintro ⟨earlier, e, later, split, here, rest⟩
    rcases List.eq_nil_or_concat later with rfl | ⟨front, last, rfl⟩
    · obtain ⟨_, same⟩ := List.append_inj' split rfl
      exact .inl (List.singleton_inj.mp same ▸ here)
    · rw [List.concat_eq_append, ← List.cons_append, ← List.append_assoc] at split
      obtain ⟨init, same⟩ := List.append_inj' split rfl
      obtain rfl := List.singleton_inj.mp same
      refine .inr ⟨rest event (by simp), earlier, e, front, init, here, fun other member => ?_⟩
      exact rest other (by simp [member])
  · rintro (here | ⟨last, earlier, e, later, rfl, here, rest⟩)
    · exact ⟨log, event, [], rfl, here, by simp⟩
    · refine ⟨earlier, e, later ++ [event], by simp, here, fun other member => ?_⟩
      rcases List.mem_append.mp member with old | new
      · exact rest other old
      · rwa [List.mem_singleton.mp new]

end ScriptHost.History
