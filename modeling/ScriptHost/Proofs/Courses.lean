import ScriptHost.Proofs.Endings
import ScriptHost.Proofs.SafeRuns

/-!
# Courses of scripts

Where a part of a script comes to, one moment after another, on any stack that leaves room for its
calls. What goes on beside it, and whether the script may pause, makes no difference to it.
-/

set_option autoImplicit false

namespace ScriptHost

open Lua

namespace Host

/-- A script comes from one moment to another. -/
abbrev Comes (mayPause : Bool) (engine : EngineId) : Moment → Moment → Prop :=
  Relation.ReflTransGen (Follows mayPause engine)

/-- A part of a script arrives at an outcome with a property. So many calls may become active on top
of those that are. -/
def Arrives {α : Type} (mayPause : Bool) (engine : EngineId) (calls : Nat) (before : Host)
    (h : Heap) (m : Eval α) (property : Except Thrown α → Heap → Host → Prop) : Prop :=
  ∃ outcome after later, property outcome after later ∧
    ∀ paused frames waiting next,
      (Machine.depths frames).1 + calls < Machine.depthLimit →
      (Machine.depths frames).2 + calls < Machine.nestingLimit →
      Comes mayPause engine ⟨⟨h, paused⟩, ⟨frames, waiting⟩, m next, before⟩
        ⟨⟨after, paused⟩, ⟨frames, waiting⟩, settled next outcome, later⟩

/-- How a function of the library ends: in a way of its own, on a heap that has room for one more
call, or for want of memory, before it has done anything. -/
def WithRoom {α : Type} (before : Host) (h : Heap)
    (ends : Heap → Except Thrown α → Heap → Host → Prop) (outcome : Except Thrown α) (after : Heap)
    (later : Host) : Prop :=
  match Machine.fits h 0 with
  | (true, middle) => ends middle outcome after later
  | (false, full) => outcome = .error .outOfMemory ∧ after = full ∧ later = before

theorem WithRoom.cases {α : Type} {before later : Host} {h after : Heap}
    {ends : Heap → Except Thrown α → Heap → Host → Prop} {outcome : Except Thrown α}
    (held : WithRoom before h ends outcome after later) :
    (∃ middle, Machine.fits h 0 = (true, middle) ∧ ends middle outcome after later) ∨
      h.limit? ≠ none ∧ outcome = .error .outOfMemory ∧ later = before := by
  unfold WithRoom at held
  split at held
  · rename_i middle room
    exact .inl ⟨middle, room, held⟩
  · rename_i full room
    obtain ⟨failed, _, same⟩ := held
    exact .inr ⟨Heap.limit?_ne_none_of_fits room, failed, same⟩

theorem WithRoom.map {α β : Type} {before later : Host} {h after : Heap} (f : α → β)
    {ends : Heap → Except Thrown β → Heap → Host → Prop} {outcome : Except Thrown α}
    (held : WithRoom before h (fun middle outcome => ends middle (outcome.map f)) outcome after
      later) : WithRoom before h ends (outcome.map f) after later := by
  unfold WithRoom at held ⊢
  split
  · rename_i room
    rwa [room] at held
  · rename_i room
    rw [room] at held
    obtain ⟨rfl, same⟩ := held
    exact ⟨rfl, same⟩

theorem Raises.map {α β : Type} {after : Heap} {failure : Failure} {outcome : Except Thrown α}
    (raises : Raises after failure outcome) (f : α → β) : Raises after failure (outcome.map f) := by
  obtain ⟨uid, rfl, known⟩ := raises
  exact ⟨uid, rfl, known⟩

namespace Arrives

variable {α β : Type} {mayPause : Bool} {engine : EngineId} {calls : Nat} {before : Host}
  {h : Heap} {m : Eval α} {property : Except Thrown α → Heap → Host → Prop}
  {result : Except Thrown β → Heap → Host → Prop}

theorem pure {a : α} (holds : property (.ok a) h before) :
    Arrives mayPause engine calls before h (Pure.pure a) property :=
  ⟨.ok a, h, before, holds, fun _ _ _ _ _ _ => .refl⟩

theorem raise {thrown : Thrown} (holds : property (.error thrown) h before) :
    Arrives mayPause engine calls before h (Eval.raise thrown) property :=
  ⟨.error thrown, h, before, holds, fun _ _ _ _ _ _ => .refl⟩

theorem read {f : Heap → α} {rest : α → Eval β}
    (arrives : Arrives mayPause engine calls before h (rest (f h)) result) :
    Arrives mayPause engine calls before h (Eval.read f >>= rest) result := by
  obtain ⟨outcome, after, later, holds, comes⟩ := arrives
  exact ⟨outcome, after, later, holds, fun paused frames waiting next depth nesting =>
    .head (.step rfl) (comes paused frames waiting next depth nesting)⟩

theorem alter {f : Heap → α × Heap} {rest : α → Eval β}
    (arrives : Arrives mayPause engine calls before (f h).2 (rest (f h).1) result) :
    Arrives mayPause engine calls before h (Eval.alter f >>= rest) result := by
  obtain ⟨outcome, after, later, holds, comes⟩ := arrives
  exact ⟨outcome, after, later, holds, fun paused frames waiting next depth nesting =>
    .head (.step rfl) (comes paused frames waiting next depth nesting)⟩

theorem ask {request : Request} {rest : request.Reply → Eval β}
    (answers : ∀ index, request ≠ .callback index)
    (arrives : Arrives mayPause engine calls (before.reply engine request).2 h
      (rest (before.reply engine request).1) result) :
    Arrives mayPause engine calls before h (Eval.ask request >>= rest) result := by
  obtain ⟨outcome, after, later, holds, comes⟩ := arrives
  exact ⟨outcome, after, later, holds, fun paused frames waiting next depth nesting =>
    .head (@Follows.reply _ _ _ _ _ _ (fun reply => rest reply next) rfl (.inr answers))
      (comes paused frames waiting next depth nesting)⟩

theorem failure {f : Failure} (ordinary : f ≠ .memory)
    (holds : ∀ outcome after, Heap.Extends h after → Raises after f outcome →
      property outcome after before) :
    Arrives mayPause engine calls before h (Eval.failure f) property := by
  have raised : Arrives mayPause engine calls before h
      (Eval.alter (fun h => h.newUserdata (.failure f)) >>= fun uid =>
        Eval.raise (.error (.userdata uid))) property :=
    .alter (.raise (holds _ _ (.newUserdata h _) ⟨_, rfl, Heap.resource?_newUserdata h _⟩))
  cases f with
  | memory => exact absurd rfl ordinary
  | _ => exact raised

theorem mono {weaker : Except Thrown α → Heap → Host → Prop}
    (arrives : Arrives mayPause engine calls before h m property)
    (holds : ∀ outcome after later, property outcome after later → weaker outcome after later) :
    Arrives mayPause engine calls before h m weaker := by
  obtain ⟨outcome, after, later, held, comes⟩ := arrives
  exact ⟨outcome, after, later, holds outcome after later held, comes⟩

theorem bind {rest : α → Eval β}
    (first : Arrives mayPause engine calls before h m property)
    (second : ∀ a middle between, property (.ok a) middle between →
      Arrives mayPause engine calls between middle (rest a) result)
    (fails : ∀ thrown middle between, property (.error thrown) middle between →
      result (.error thrown) middle between) :
    Arrives mayPause engine calls before h (m >>= rest) result := by
  obtain ⟨outcome, middle, between, holds, comes⟩ := first
  cases outcome with
  | error thrown =>
      exact ⟨.error thrown, middle, between, fails thrown middle between holds,
        fun paused frames waiting next => comes paused frames waiting fun a => rest a next⟩
  | ok a =>
      obtain ⟨outcome, after, later, last, comes'⟩ := second a middle between holds
      refine ⟨outcome, after, later, last, fun paused frames waiting next depth nesting => ?_⟩
      have found := comes paused frames waiting (fun a => rest a next) depth nesting
      exact found.trans (comes' paused frames waiting next depth nesting)

theorem map {f : α → β}
    (arrives : Arrives mayPause engine calls before h m fun outcome after later =>
      result (outcome.map f) after later) :
    Arrives mayPause engine calls before h (m >>= fun a => Pure.pure (f a)) result :=
  arrives.bind (fun _ _ _ => .pure) fun _ _ _ => id

/-- What would follow a failure does not run. -/
theorem failed {f : Failure} {rest : α → Eval β} (ordinary : f ≠ .memory)
    (holds : ∀ outcome after, Heap.Extends h after → Raises after f outcome →
      result outcome after before) :
    Arrives mayPause engine calls before h (Eval.failure f >>= rest) result := by
  have raised : Arrives mayPause engine calls before h (Eval.failure f : Eval α)
      fun outcome after later => Heap.Extends h after ∧ Raises after f outcome ∧ later = before :=
    .failure ordinary fun _ _ extends_ raises => ⟨extends_, raises, rfl⟩
  refine raised.bind ?_ ?_
  · rintro _ _ _ ⟨_, ⟨_, same, _⟩, _⟩
    cases same
  · rintro _ _ _ ⟨extends_, raises, rfl⟩
    exact holds _ _ extends_ raises.error

/-- A part whose course is known, and what follows it. -/
theorem afterwards {a : α} {rest : α → Eval β} {middle : Heap} {between : Host}
    (first : Arrives mayPause engine calls before h m fun outcome after later =>
      outcome = .ok a ∧ after = middle ∧ later = between)
    (arrives : Arrives mayPause engine calls between middle (rest a) result) :
    Arrives mayPause engine calls before h (m >>= rest) result := by
  refine first.bind ?_ ?_
  · rintro _ _ _ ⟨same, rfl, rfl⟩
    cases same
    exact arrives
  · rintro _ _ _ ⟨same, _⟩
    cases same

/-- A call of a function of the library. -/
theorem call_builtin {f : Builtin} {arguments : List Value} {site : Site}
    {body : Eval (List Value)} {ends : Heap → Except Thrown (List Value) → Heap → Host → Prop}
    (runs : Library.run setting (.builtin f) f [] arguments = Eval.run body)
    (inner : ∀ middle, Heap.Extends h middle →
      Arrives mayPause engine calls before middle body (ends middle)) :
    Arrives mayPause engine (calls + 1) before h (Eval.call site (.builtin f) arguments)
      (WithRoom before h ends) := by
  have entered : Machine.body? setting h (.builtin f) arguments = some (Eval.run body) :=
    congrArg some runs
  let call (frames : List Frame) (next : List Value → Action) : Frame :=
    .call ((Machine.depths frames).1 + 1) (site.inner (Machine.depths frames).2) site next
  -- Whatever becomes of the body, one step leaves the function.
  have leaves : ∀ outcome after (later : Host) paused frames waiting next, Comes mayPause engine
      ⟨⟨after, paused⟩, ⟨call frames next :: frames, waiting⟩,
        settled (fun values => .done (.returned values)) outcome, later⟩
      ⟨⟨after, paused⟩, ⟨frames, waiting⟩, settled next outcome, later⟩ := by
    intro outcome after later paused frames waiting next
    cases outcome <;> exact .head (.step rfl) .refl
  have opened := Heap.Extends.fits h 0
  cases room : Machine.fits h 0 with
  | mk enough middle =>
      rw [room] at opened
      cases enough with
      | true =>
          obtain ⟨outcome, after, later, holds, comes⟩ := inner middle opened
          refine ⟨outcome, after, later, by simpa only [WithRoom, room] using holds,
            fun paused frames waiting next depth nesting => ?_⟩
          have deeper := site.inner_le (Machine.depths frames).2
          have stepped := @Machine.step_call setting h (.builtin f) arguments _ site entered frames
            (by omega) (by omega) paused waiting next
          rw [Machine.withRoom, room] at stepped
          have ran := comes paused (call frames next :: frames) waiting
            (fun values => .done (.returned values))
            (by show (Machine.depths frames).1 + 1 + calls < _; omega)
            (by show site.inner (Machine.depths frames).2 + calls < _; omega)
          exact .head (.step stepped) (ran.trans (leaves ..))
      | false =>
          refine ⟨.error .outOfMemory, middle, before, by simp only [WithRoom, room, and_self],
            fun paused frames waiting next depth nesting => ?_⟩
          have stepped := @Machine.step_call setting h (.builtin f) arguments _ site entered frames
            (by omega) (by omega) paused waiting next
          rw [Machine.withRoom, room] at stepped
          exact .head (.step stepped) (leaves (.error .outOfMemory) ..)

end Arrives

end Host

end ScriptHost
