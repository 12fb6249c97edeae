import ScriptHost.Redirection

/-!
# Chains of redirections

As long as nothing but attachments and detachments changes the output of an engine, its active
redirections form a chain: each one returns to the stream that was attached before it. Taking a
redirection away closes the gap, so the rest is a chain again.
-/

set_option autoImplicit false

namespace ScriptHost

namespace Redirection

/-- The redirections that streams attached one after another form on top of a first stream. -/
def chain (base : Stream) : List (Nat × Stream) → List Redirection
  | [] => []
  | (id, sink) :: rest => ⟨id, sink, base⟩ :: chain sink rest

/-- The stream attached last, or the first stream if none is attached. -/
def top (base : Stream) (attached : List (Nat × Stream)) : Stream :=
  (attached.getLast?.map Prod.snd).getD base

@[simp] theorem top_nil (base : Stream) : top base [] = base := rfl

@[simp] theorem top_append_singleton (base : Stream) (attached : List (Nat × Stream))
    (entry : Nat × Stream) : top base (attached ++ [entry]) = entry.2 := by
  simp [top]

theorem top_cons (base : Stream) (entry : Nat × Stream) (rest : List (Nat × Stream)) :
    top base (entry :: rest) = top entry.2 rest := by
  cases rest with
  | nil => rfl
  | cons next later => simp [top, List.getLast?_cons]

theorem top_append (base : Stream) (earlier later : List (Nat × Stream)) :
    top base (earlier ++ later) = top (top base earlier) later := by
  induction earlier generalizing base with
  | nil => rfl
  | cons entry rest ih => rw [List.cons_append, top_cons, top_cons, ih]

theorem chain_append (base : Stream) (earlier later : List (Nat × Stream)) :
    chain base (earlier ++ later) = chain base earlier ++ chain (top base earlier) later := by
  induction earlier generalizing base with
  | nil => rfl
  | cons entry rest ih => simp [chain, ih, top_cons]

@[simp] theorem map_id_chain (base : Stream) (attached : List (Nat × Stream)) :
    (chain base attached).map Redirection.id = attached.map Prod.fst := by
  induction attached generalizing base with
  | nil => rfl
  | cons entry rest ih => simp [chain, ih]

theorem unlink_append_of_not_mem {id : Nat} {earlier : List Redirection}
    (absent : id ∉ earlier.map Redirection.id) (later : List Redirection) :
    unlink id (earlier ++ later) = earlier ++ unlink id later := by
  induction earlier with
  | nil => rfl
  | cons r rest ih =>
      have different : r.id ≠ id := by
        intro same
        exact absent (by simp [same])
      have absentRest : id ∉ rest.map Redirection.id := by
        intro member
        exact absent (List.mem_cons_of_mem _ member)
      simp [unlink, different, ih absentRest]

/-- What remains of a chain without one of its redirections is the chain of the others. -/
theorem unlink_chain {id : Nat} {earlier : List (Nat × Stream)}
    (absent : id ∉ earlier.map Prod.fst) (base sink : Stream) (later : List (Nat × Stream)) :
    unlink id (chain base (earlier ++ (id, sink) :: later)) = chain base (earlier ++ later) := by
  rw [chain_append, unlink_append_of_not_mem (by simpa using absent), chain_append]
  congr 1
  cases later with
  | nil => simp [chain, unlink]
  | cons next rest => simp [chain, unlink]

theorem find?_chain {id : Nat} {earlier : List (Nat × Stream)}
    (absent : id ∉ earlier.map Prod.fst) (base sink : Stream) (later : List (Nat × Stream)) :
    (chain base (earlier ++ (id, sink) :: later)).find? (fun r => r.id = id) =
      some ⟨id, sink, top base earlier⟩ := by
  have skipped : (chain base earlier).find? (fun r => r.id = id) = none := by
    rw [List.find?_eq_none]
    intro r member
    have listed : r.id ∈ (chain base earlier).map Redirection.id := List.mem_map_of_mem member
    rw [map_id_chain] at listed
    simp only [decide_eq_true_eq]
    intro same
    exact absent (same ▸ listed)
  rw [chain_append, List.find?_append, skipped]
  simp [chain]

/-! ## The first redirection -/

/-- Whichever redirection is taken away, the first of the others returns to where the first one
returned. -/
theorem previous_head?_unlink {id : Nat} {redirections : List Redirection} {first : Redirection}
    (remains : (unlink id redirections).head? = some first) :
    redirections.head?.map Redirection.previous = some first.previous := by
  cases redirections with
  | nil => simp [unlink] at remains
  | cons r rest =>
      by_cases same : r.id = id
      · cases rest with
        | nil => simp [unlink, same] at remains
        | cons next later =>
            simp only [unlink, same, if_true, List.head?_cons, Option.some.injEq] at remains
            simp [← remains]
      · simp only [unlink, same, if_false, List.head?_cons, Option.some.injEq] at remains
        simp [remains]

/-- The number and the stream of a redirection. -/
def entry (r : Redirection) : Nat × Stream := (r.id, r.attached)

theorem map_entry_unlink {id : Nat} {redirections : List Redirection}
    {earlier later : List (Nat × Stream)} {sink : Stream}
    (absent : id ∉ earlier.map Prod.fst)
    (entries : redirections.map entry = earlier ++ (id, sink) :: later) :
    (unlink id redirections).map entry = earlier ++ later := by
  induction earlier generalizing redirections with
  | nil =>
      cases redirections with
      | nil => simp at entries
      | cons r rest =>
          simp only [List.map_cons, List.nil_append, List.cons.injEq] at entries
          have same : r.id = id := congrArg Prod.fst entries.1
          cases rest with
          | nil => simpa [unlink, same] using entries.2
          | cons next more => simpa [unlink, same, entry] using entries.2
  | cons first others ih =>
      cases redirections with
      | nil => simp at entries
      | cons r rest =>
          simp only [List.map_cons, List.cons_append, List.cons.injEq] at entries
          have different : r.id ≠ id := by
            intro same
            have listed : first.1 = id := by rw [← entries.1]; exact same
            exact absent (by simp [listed])
          have absentOthers : id ∉ others.map Prod.fst := by
            intro member
            exact absent (List.mem_cons_of_mem _ member)
          simp [unlink, different, entries.1, ih absentOthers entries.2]

end Redirection

/-! ## Detaching -/

namespace Routing

open Redirection

variable {routing : Routing} {id : Nat} {sink : Stream} {earlier later : List (Nat × Stream)}

theorem not_mem_of_entries (entries : routing.active.map entry = earlier ++ (id, sink) :: later) :
    id ∉ earlier.map Prod.fst ∧ id ∉ later.map Prod.fst := by
  have numbers : routing.active.map Redirection.id =
      earlier.map Prod.fst ++ id :: later.map Prod.fst := by
    simpa [List.map_map, Function.comp_def, entry] using congrArg (List.map Prod.fst) entries
  have ascending := (List.pairwise_append.mp routing.ascending).1
  rw [numbers, List.pairwise_append, List.pairwise_cons] at ascending
  obtain ⟨_, ⟨below, _⟩, across⟩ := ascending
  constructor
  · intro member
    exact Nat.lt_irrefl _ (across id member id List.mem_cons_self)
  · intro member
    exact Nat.lt_irrefl _ (below id member)

theorem find?_isSome_of_entries
    (entries : routing.active.map entry = earlier ++ (id, sink) :: later) :
    (routing.find? id).isSome := by
  have listed : (id, sink) ∈ routing.active.map entry := by simp [entries]
  obtain ⟨r, member, same⟩ := List.mem_map.mp listed
  simp only [find?, List.find?_isSome, decide_eq_true_eq]
  exact ⟨r, member, congrArg Prod.fst same⟩

theorem isInnermost_of_entries
    (entries : routing.active.map entry = earlier ++ (id, sink) :: later) :
    routing.isInnermost id = later.isEmpty := by
  have last : routing.active.getLast?.map Redirection.id =
      (earlier ++ (id, sink) :: later).getLast?.map Prod.fst := by
    rw [← entries, List.getLast?_map, Option.map_map]
    rfl
  rw [isInnermost, last]
  rcases List.eq_nil_or_concat later with rfl | ⟨front, final, rfl⟩
  · simp
  · have different : final.1 ≠ id := by
      intro same
      exact (not_mem_of_entries entries).2 (by simp [same])
    have final_last : earlier ++ (id, sink) :: front.concat final =
        (earlier ++ (id, sink) :: front) ++ [final] := by simp
    rw [final_last, List.getLast?_concat]
    simp [beq_false_of_ne different]

/-- Detaching an active redirection takes it away, and the answer tells whether it was the
innermost one. Only then the output changes. -/
theorem detach_of_entries
    (entries : routing.active.map entry = earlier ++ (id, sink) :: later) :
    ∃ r, routing.find? id = some r ∧ (routing.detach id).1 = later.isEmpty ∧
      (routing.detach id).2.active = unlink id routing.active ∧
      (routing.detach id).2.output = if later.isEmpty then r.previous else routing.output := by
  obtain ⟨r, found⟩ := Option.isSome_iff_exists.mp (find?_isSome_of_entries entries)
  refine ⟨r, found, ?_⟩
  have innermost := isInnermost_of_entries entries
  cases last : later.isEmpty <;> simp [detach, found, innermost, last]

/-- Taking the latest redirection away at once leaves everything as it was, but for the number of
the next one. -/
theorem detach_attach (routing : Routing) (sink : Stream) :
    ((routing.attach sink).2.detach (routing.attach sink).1).2.output = routing.output ∧
      ((routing.attach sink).2.detach (routing.attach sink).1).2.active = routing.active := by
  have entries : (routing.attach sink).2.active.map entry =
      routing.active.map entry ++ ((routing.attach sink).1, sink) :: [] := by
    simp [attach, entry]
  have absent : routing.nextId ∉ routing.active.map Redirection.id := by
    intro member
    have below := (List.pairwise_append.mp routing.ascending).2.2 _ member _ List.mem_cons_self
    exact Nat.lt_irrefl _ below
  obtain ⟨r, found, _, active, output⟩ := detach_of_entries entries
  have latest : r = ⟨routing.nextId, sink, routing.output⟩ := by
    have earlier : routing.active.find? (fun r => r.id = routing.nextId) = none := by
      rw [List.find?_eq_none]
      intro r member same
      exact absent (List.mem_map.mpr ⟨r, member, by simpa using same⟩)
    rw [find?, attach, List.find?_append, earlier] at found
    simpa [eq_comm] using found
  refine ⟨output.trans (by rw [latest]; rfl), active.trans ?_⟩
  exact (unlink_append_of_not_mem absent _).trans (by simp [unlink])

/-- What a detachment comes to does not depend on the numbers of redirections to come. -/
theorem detach_congr {routing other : Routing} (active : routing.active = other.active)
    (output : routing.output = other.output) (id : Nat) :
    (routing.detach id).1 = (other.detach id).1 ∧
      (routing.detach id).2.active = (other.detach id).2.active ∧
      (routing.detach id).2.output = (other.detach id).2.output := by
  have found : routing.find? id = other.find? id := by rw [find?, active, find?]
  have innermost : routing.isInnermost id = other.isInnermost id := by
    rw [isInnermost, active, isInnermost]
  cases remembered : other.find? id with
  | none => simp [detach, found, remembered, active, output]
  | some r =>
      cases last : other.isInnermost id <;>
        simp [detach, found, remembered, innermost, last, active, output]

end Routing

end ScriptHost
