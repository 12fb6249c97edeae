import ScriptHost.Stream

/-!
# Redirections

The output of an engine may be redirected several times over. Every redirection remembers the
stream to return to, and redirections end in any order: one that ends early hands its stream on
to the next, so the engine is back on its first stream once all have ended.
-/

set_option autoImplicit false

namespace ScriptHost

/-- One active redirection. -/
structure Redirection where
  /-- The number that tells it apart from all others of its engine. -/
  id : Nat
  attached : Stream
  /-- The stream to return to. -/
  previous : Stream
deriving DecidableEq, Repr, Inhabited

theorem Redirection.ascending_nil :
    (([] : List Redirection).map Redirection.id ++ [0]).Pairwise (· < ·) := by simp

structure Routing where
  output : Stream
  /-- The active redirections, the earliest first. -/
  active : List Redirection := []
  nextId : Nat := 0
  /-- Later redirections have greater numbers, and the next one has the greatest. -/
  ascending : (active.map Redirection.id ++ [nextId]).Pairwise (· < ·) := by
    exact Redirection.ascending_nil
deriving DecidableEq, Repr

instance : Inhabited Routing := ⟨{ output := default }⟩

/-- What a host keeps to end a redirection. -/
structure StreamGuard where
  engine : EngineId
  redirection : Nat
  attached : Stream
deriving DecidableEq, Repr, Inhabited

/-- Takes a redirection away. The next one returns to where it would have returned. -/
def Redirection.unlink (id : Nat) : List Redirection → List Redirection
  | [] => []
  | r :: rest =>
    if r.id = id then
      match rest with
      | [] => []
      | next :: later => { next with previous := r.previous } :: later
    else r :: unlink id rest

namespace Redirection

theorem map_id_unlink (id : Nat) (redirections : List Redirection) :
    (unlink id redirections).map Redirection.id = (redirections.map Redirection.id).erase id := by
  induction redirections with
  | nil => rfl
  | cons r rest ih =>
      by_cases same : r.id = id
      · cases rest with
        | nil => simp [unlink, same]
        | cons next later => simp [unlink, same]
      · simp [unlink, same, ih, List.erase_cons_tail]

theorem ascending_attach {redirections : List Redirection} {next : Nat}
    (ascending : (redirections.map Redirection.id ++ [next]).Pairwise (· < ·))
    (attached previous : Stream) :
    ((redirections ++ [Redirection.mk next attached previous]).map Redirection.id ++
      [next + 1]).Pairwise (· < ·) := by
  rw [List.map_append, List.pairwise_append]
  refine ⟨ascending, List.pairwise_singleton _ _, ?_⟩
  intro id member last isLast
  rw [List.mem_singleton.mp isLast]
  rcases List.mem_append.mp member with earlier | new
  · have below := (List.pairwise_append.mp ascending).2.2 id earlier next (by simp)
    omega
  · have same : id = next := by simpa using new
    omega

theorem ascending_unlink {redirections : List Redirection} {next : Nat} (id : Nat)
    (ascending : (redirections.map Redirection.id ++ [next]).Pairwise (· < ·)) :
    ((unlink id redirections).map Redirection.id ++ [next]).Pairwise (· < ·) := by
  rw [map_id_unlink]
  exact ascending.sublist (List.erase_sublist.append_right [next])

end Redirection

namespace Routing

def replaceOutput (routing : Routing) (stream : Stream) : Stream × Routing :=
  (routing.output, { routing with output := stream })

/-- Directs the output to a stream and yields the number of the redirection. -/
def attach (routing : Routing) (sink : Stream) : Nat × Routing :=
  (routing.nextId,
    { output := sink
      active := routing.active ++ [⟨routing.nextId, sink, routing.output⟩]
      nextId := routing.nextId + 1
      ascending := Redirection.ascending_attach routing.ascending sink routing.output })

def find? (routing : Routing) (id : Nat) : Option Redirection :=
  routing.active.find? fun r => r.id = id

/-- The stream that a redirection returns to. -/
def previous? (routing : Routing) (id : Nat) : Option Stream :=
  (routing.find? id).map Redirection.previous

/-- Whether a redirection is the latest one that is still active. -/
def isInnermost (routing : Routing) (id : Nat) : Bool :=
  (routing.active.getLast?.map Redirection.id) == some id

/-- Ends a redirection. Only the innermost one changes the current output; for every other one
the answer is false. -/
def detach (routing : Routing) (id : Nat) : Bool × Routing :=
  match routing.find? id with
  | none => (false, routing)
  | some r =>
    let active := Redirection.unlink id routing.active
    let ascending := Redirection.ascending_unlink id routing.ascending
    if routing.isInnermost id then (true, { routing with output := r.previous, active, ascending })
    else (false, { routing with active, ascending })

end Routing

end ScriptHost
