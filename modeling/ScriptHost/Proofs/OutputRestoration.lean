import ScriptHost.Proofs.OutputHistory

/-!
# Outputs that are replaced while redirections are active

Replacing an output for good cuts the current stream loose from the chain of redirections. What
the first active redirection returns to is not touched by that, and it passes from one
redirection to the next until the last one brings it back.
-/

set_option autoImplicit false

namespace ScriptHost.OutputHistory

open Attachment

variable {start : Host} {s t : OutputHistory}

/-- The first active redirection of every engine returns to the output that the engine had right
before its redirections began. -/
def Grounded (s : OutputHistory) : Prop :=
  ∀ engine first, (s.host.routing engine).active.head? = some first →
    floor? engine s.log = some first.previous

theorem floor?_append_of_not_opens {engine : EngineId} {a : Attachment}
    (kept : (a.guard.engine == engine && a.opens) = false) (log : List Attachment) :
    floor? engine (log ++ [a]) = floor? engine log := by
  simp [floor?, List.filter_append, kept]

theorem floor?_append_of_opens {engine : EngineId} {a : Attachment}
    (new : (a.guard.engine == engine && a.opens) = true) (log : List Attachment) :
    floor? engine (log ++ [a]) = some a.before := by
  simp [floor?, List.filter_append, new]

theorem floor?_handedTo (engine other : EngineId) (earlier later : List Attachment)
    (a : Attachment) :
    floor? other (earlier ++ a.handedTo engine :: later) = floor? other (earlier ++ a :: later) := by
  simp only [floor?, ← List.getLast?_map]
  congr 1
  by_cases opening : (a.guard.engine == other && a.opens) = true
  · simp [List.filter_append, handedTo, opening]
  · simp [List.filter_append, handedTo, opening]

theorem Grounded.attach (grounded : Grounded s) (tracked : Tracked s) {engine : EngineId}
    (present : engine.index < s.host.engines.size) (sink : Stream) :
    Grounded (s.attach engine sink) := by
  intro other first isFirst
  by_cases same : other = engine
  · subst same
    have routed : (s.attach other sink).host.routing other =
        ((s.host.routing other).attach sink).2 := Host.routing_attach_self present sink
    have empty : (s.host.routing other).active.isEmpty = !s.log.any (activeOn other) := by
      rw [← entriesOn_isEmpty, ← tracked.entries other, List.isEmpty_map]
    rw [routed] at isFirst
    -- The first redirection is the new one exactly if no attachment was active before.
    cases active : (s.host.routing other).active with
    | nil =>
        have opens : (!s.log.any (activeOn other)) = true := by rw [← empty, active]; rfl
        simp only [Routing.attach, active, List.nil_append, List.head?_cons,
          Option.some.injEq] at isFirst
        rw [← isFirst, OutputHistory.attach,
          floor?_append_of_opens (by simp only [opens]; simp [Host.attach, Host.alterRouting])]
        rfl
    | cons r rest =>
        have busy : (!s.log.any (activeOn other)) = false := by rw [← empty, active]; rfl
        simp only [Routing.attach, active, List.cons_append, List.head?_cons,
          Option.some.injEq] at isFirst
        rw [OutputHistory.attach, floor?_append_of_not_opens (by simp only [busy, Bool.and_false])]
        exact grounded other first (by simp [active, isFirst])
  · have elsewhere : engine ≠ other := Ne.symm same
    have routed : (s.attach engine sink).host.routing other = s.host.routing other :=
      Host.routing_attach_of_ne same sink
    rw [routed] at isFirst
    rw [OutputHistory.attach,
      floor?_append_of_not_opens (by simp [Host.attach, beq_false_of_ne elsewhere])]
    exact grounded other first isFirst

theorem Grounded.detach (grounded : Grounded s) (tracked : Tracked s)
    {earlier later : List Attachment} {a : Attachment} (engine : EngineId)
    (split : s.log = earlier ++ a :: later) (held : a.held = true) :
    Grounded ⟨(s.host.detach engine a.guard).2, earlier ++ a.handedTo engine :: later⟩ := by
  intro other first isFirst
  rw [floor?_handedTo, ← split]
  by_cases untouched : other ≠ engine ∨ a.guard.engine ≠ engine
  · refine grounded other first ?_
    rcases untouched with different | foreign
    · rwa [Host.routing_detach_of_ne different] at isFirst
    · rwa [Host.detach_of_ne foreign] at isFirst
  · obtain ⟨rfl, own⟩ : other = engine ∧ a.guard.engine = engine := by simpa using untouched
    subst own
    have active := tracked.held a (mem_log_split split) held
    have present := tracked.present a (mem_log_split split)
    obtain ⟨r, _, _, remaining, _⟩ := Routing.detach_of_entries (tracked.split split active)
    rw [Host.routing_detach_self present a.guard rfl, remaining] at isFirst
    obtain ⟨before, wasFirst, same⟩ :=
      Option.map_eq_some_iff.mp (Redirection.previous_head?_unlink isFirst)
    rw [grounded _ before wasFirst, same]

theorem Run.tracked_grounded (idle : Idle start) (run : Run RawStep start s) :
    Tracked s ∧ Grounded s := by
  induction run with
  | start =>
      refine ⟨tracked_start idle, ?_⟩
      intro engine first isFirst
      simp [idle engine] at isFirst
  | step _ taken ih =>
      obtain ⟨tracked, grounded⟩ := ih
      refine ⟨tracked.rawStep taken, ?_⟩
      cases taken with
      | guarded taken =>
          cases taken with
          | attach _ sink present => exact grounded.attach tracked present sink
          | detach engine _ split held => exact grounded.detach tracked engine split held
      | replaceOutput engine stream present =>
          intro other first isFirst
          refine grounded other first ?_
          by_cases same : other = engine
          · subst same
            rwa [Host.routing_replaceOutput_self present] at isFirst
          · rwa [Host.routing_replaceOutput_of_ne same] at isFirst

/-- Whatever outputs are replaced in between: detaching the last active redirection of an engine
succeeds, and the engine is back on the stream that it had right before the attachment with which
its redirections began. -/
theorem last_detach_restores_output {start : Host} (idle : Idle start) {s : OutputHistory}
    (run : Run RawStep start s) (earlier later : List Attachment) {a : Attachment}
    (split : s.log = earlier ++ a :: later) (held : a.held = true)
    (last : ∀ b ∈ earlier ++ later, b.activeOn a.guard.engine = false) :
    (s.host.detach a.guard.engine a.guard).1 = .ok () ∧
      floor? a.guard.engine s.log =
        some ((s.host.detach a.guard.engine a.guard).2.output a.guard.engine) := by
  obtain ⟨tracked, grounded⟩ := run.tracked_grounded idle
  have active := tracked.held a (mem_log_split split) held
  have noneEarlier : entriesOn a.guard.engine earlier = [] := by
    simp only [entriesOn, List.map_eq_nil_iff, List.filter_eq_nil_iff, Bool.not_eq_true]
    exact fun b member => last b (List.mem_append_left _ member)
  have noneLater : entriesOn a.guard.engine later = [] := by
    simp only [entriesOn, List.map_eq_nil_iff, List.filter_eq_nil_iff, Bool.not_eq_true]
    exact fun b member => last b (List.mem_append_right _ member)
  have entries := tracked.split split active
  have present := tracked.present a (mem_log_split split)
  obtain ⟨r, found, innermost, _, output⟩ := Routing.detach_of_entries entries
  rw [noneLater, List.isEmpty_nil] at innermost output
  refine ⟨by rw [Host.detach_self a.guard rfl, innermost]; rfl, ?_⟩
  have isFirst : (s.host.routing a.guard.engine).active.head? = some r := by
    rw [noneEarlier, noneLater, List.nil_append] at entries
    obtain ⟨only, onlyOne, _⟩ := List.map_eq_singleton_iff.mp entries
    rw [Routing.find?, onlyOne] at found
    have same : r = only := by simpa using List.mem_of_find?_eq_some found
    rw [onlyOne, same, List.head?_cons]
  rw [grounded a.guard.engine r isFirst, Host.output, Host.routing_detach_self present a.guard rfl,
    output]
  rfl

/-- The output is replaced before, between and after two attachments whose guards are handed back
in the order in which they were given. -/
theorem last_detach_restores_output_after_replacements :
    ∃ s, Idle twoEngines ∧ Run RawStep twoEngines s ∧
      s.log.map Attachment.active = [false, true] ∧ s.host.output ⟨0⟩ = ⟨"third", ⟨4⟩⟩ ∧
      (s.host.detach ⟨0⟩ ⟨⟨0⟩, 1, ⟨"inner", ⟨3⟩⟩⟩).2.output ⟨0⟩ = ⟨"first", ⟨0⟩⟩ := by
  have replaced : Run RawStep twoEngines _ :=
    .step .start (.replaceOutput ⟨0⟩ ⟨"first", ⟨0⟩⟩ (by decide))
  have outer := replaced.step (.guarded (.attach ⟨0⟩ ⟨"outer", ⟨1⟩⟩ (by decide)))
  have between := outer.step (.replaceOutput ⟨0⟩ ⟨"second", ⟨2⟩⟩ (by decide))
  have inner := between.step (.guarded (.attach ⟨0⟩ ⟨"inner", ⟨3⟩⟩ (by decide)))
  have crossed := inner.step (.guarded (.detach ⟨0⟩ [] rfl rfl))
  have run := crossed.step (.replaceOutput ⟨0⟩ ⟨"third", ⟨4⟩⟩ (by decide))
  have restored := last_detach_restores_output idle_twoEngines run [_] [] rfl rfl (by decide)
  exact ⟨_, idle_twoEngines, run, rfl, by decide +kernel,
    (Option.some.inj restored.2).symm.trans (by decide +kernel)⟩

end ScriptHost.OutputHistory
