import ScriptHost.Lua.Machine

/-!
# Evaluation on the machine

What a part of an action comes to, whatever goes on after it: it settles with a value or an error,
and with a heap, after a number of steps.
-/

set_option autoImplicit false

namespace ScriptHost.Lua

variable {α β : Type}

/-- What goes on after a value, or after an error. -/
def settled (next : α → Action) : Except Thrown α → Action
  | .ok a => next a
  | .error thrown => .raise thrown

/-- A part of an action settles with an outcome after so many steps, and the heap changes from `h`
to `after`. So many calls may become active on top of those that are. -/
def Evaluates (setting : Library.Setting) (calls steps : Nat) (h : Heap) (m : Eval α)
    (outcome : Except Thrown α) (after : Heap) : Prop :=
  ∀ paused frames waiting next fuel,
    (Machine.depths frames).1 + calls < Machine.depthLimit →
    (Machine.depths frames).2 + calls < Machine.nestingLimit →
    Machine.run setting (fuel + steps) ⟨h, paused⟩ ⟨frames, waiting⟩ (m next) =
      Machine.run setting fuel ⟨after, paused⟩ ⟨frames, waiting⟩ (settled next outcome)

/-- How many calls of operations and library functions are active inside a call. -/
def Site.inner (site : Site) (outer : Nat) : Nat := if site.nested then outer + 1 else outer

theorem Site.inner_le (site : Site) (outer : Nat) : site.inner outer ≤ outer + 1 := by
  unfold inner
  split <;> omega

theorem Machine.step_call {setting : Library.Setting} {h : Heap} {f : Value}
    {arguments : List Value} {action : Action} (site : Site)
    (body : body? setting h f arguments = some action) {frames : List Frame}
    (shallow : (depths frames).1 + 1 < depthLimit) (flat : (depths frames).2 + 1 < nestingLimit)
    (paused) (waiting : List Waiting) (next : List Value → Action) :
    step setting ⟨h, paused⟩ ⟨frames, waiting⟩ (Eval.call site f arguments next) =
      .next ⟨(withRoom h 0 action).1, paused⟩
        ⟨.call ((depths frames).1 + 1) (site.inner (depths frames).2) site next :: frames, waiting⟩
        (withRoom h 0 action).2 := by
  have deeper := site.inner_le (depths frames).2
  have below : ¬ depthLimit ≤ (depths frames).1 := by omega
  have above : ¬ nestingLimit ≤ site.inner (depths frames).2 := by omega
  unfold Site.inner at above ⊢
  simp only [Eval.call, step, call, body, below, above, if_false]

namespace Evaluates

variable {setting : Library.Setting} {calls steps more : Nat} {h middle after : Heap}

theorem pure (a : α) : Evaluates setting calls 0 h (Pure.pure a) (.ok a) h :=
  fun _ _ _ _ _ _ _ => rfl

theorem raise (thrown : Thrown) :
    Evaluates setting calls 0 h (Eval.raise thrown : Eval α) (.error thrown) h :=
  fun _ _ _ _ _ _ _ => rfl

theorem read (f : Heap → α) : Evaluates setting calls 1 h (Eval.read f) (.ok (f h)) h :=
  fun _ _ _ _ _ _ _ => rfl

theorem modify (f : Heap → Heap) : Evaluates setting calls 1 h (Eval.modify f) (.ok ()) (f h) :=
  fun _ _ _ _ _ _ _ => rfl

theorem alter (f : Heap → α × Heap) :
    Evaluates setting calls 1 h (Eval.alter f) (.ok (f h).1) (f h).2 :=
  fun _ _ _ _ _ _ _ => rfl

theorem bind {m : Eval α} {f : α → Eval β} {a : α} {outcome : Except Thrown β}
    (first : Evaluates setting calls steps h m (.ok a) middle)
    (rest : Evaluates setting calls more middle (f a) outcome after) :
    Evaluates setting calls (steps + more) h (m >>= f) outcome after := by
  intro paused frames waiting next fuel depth nesting
  have reached := first paused frames waiting (fun a => f a next) (fuel + more) depth nesting
  have settles := rest paused frames waiting next fuel depth nesting
  rw [Nat.add_comm steps more, ← Nat.add_assoc]
  exact reached.trans settles

theorem protect {body : Eval (List Value)} {outcome : Except Thrown (List Value)}
    (settles : Evaluates setting calls steps h body outcome after) :
    Evaluates setting calls (steps + 2) h (Eval.protect body) (.ok outcome) after := by
  intro paused frames waiting next fuel depth nesting
  have reached := settles paused (.guard next :: frames) waiting
    (fun values => .done (.returned values)) (fuel + 1) depth nesting
  have entered : Machine.run setting (fuel + (steps + 2)) ⟨h, paused⟩ ⟨frames, waiting⟩
      (Eval.protect body next) =
      Machine.run setting (fuel + 1 + steps) ⟨h, paused⟩ ⟨.guard next :: frames, waiting⟩
        (Eval.run body) := by
    rw [show fuel + (steps + 2) = fuel + 1 + steps + 1 by omega]
    rfl
  rw [entered]
  refine reached.trans ?_
  cases outcome <;> rfl

/-- A value that is only passed on leaves errors as they are. -/
theorem map {m : Eval α} {outcome : Except Thrown α}
    (settles : Evaluates setting calls steps h m outcome after) (f : α → β) :
    Evaluates setting calls steps h (m >>= fun a => Pure.pure (f a)) (outcome.map f) after := by
  intro paused frames waiting next fuel depth nesting
  refine (settles paused frames waiting (fun a => next (f a)) fuel depth nesting).trans ?_
  cases outcome <;> rfl

theorem bind_error {m : Eval α} {f : α → Eval β} {thrown : Thrown}
    (fails : Evaluates setting calls steps h m (.error thrown) after) :
    Evaluates setting calls steps h (m >>= f) (.error thrown) after :=
  fun paused frames waiting next fuel depth nesting =>
    fails paused frames waiting (fun a => f a next) fuel depth nesting

theorem failure {f : Failure} (ordinary : f ≠ .memory) :
    Evaluates setting calls 1 h (Eval.failure f : Eval α)
      (.error (.error (.userdata (h.newUserdata (.failure f)).1)))
      (h.newUserdata (.failure f)).2 := by
  cases f with
  | memory => exact absurd rfl ordinary
  | _ => exact fun _ _ _ _ _ _ _ => rfl

/-! ## Calls of library functions -/

section

variable {f : Builtin} {arguments : List Value} {site : Site}

theorem call_builtin {body : Eval (List Value)} {outcome : Except Thrown (List Value)}
    (runs : Library.run setting (.builtin f) f [] arguments = Eval.run body)
    (room : Machine.fits h 0 = (true, middle))
    (settles : Evaluates setting calls steps middle body outcome after) :
    Evaluates setting (calls + 1) (steps + 2) h (Eval.call site (.builtin f) arguments) outcome
      after := by
  intro paused frames waiting next fuel depth nesting
  have deeper := Site.inner_le site (Machine.depths frames).2
  -- One step enters the function, and one leaves it.
  have reached := settles paused
    (.call ((Machine.depths frames).1 + 1) (site.inner (Machine.depths frames).2) site next ::
      frames) waiting (fun values => .done (.returned values)) (fuel + 1)
    (by simp only [Machine.depths]; omega) (by simp only [Machine.depths]; omega)
  have entered : Machine.step setting ⟨h, paused⟩ ⟨frames, waiting⟩
      (Eval.call site (.builtin f) arguments next) =
      .next ⟨middle, paused⟩
        ⟨.call ((Machine.depths frames).1 + 1) (site.inner (Machine.depths frames).2) site next ::
          frames, waiting⟩ (Eval.run body) := by
    have builtin : Machine.body? setting h (.builtin f) arguments = some (Eval.run body) :=
      congrArg some runs
    rw [Machine.step_call site builtin (by omega) (by omega), Machine.withRoom, room]
  rw [show fuel + (steps + 2) = fuel + 1 + steps + 1 by omega, Machine.run, entered]
  refine reached.trans ?_
  cases outcome <;> rfl

theorem call_outOfMemory {f : Value} {action : Action}
    (body : Machine.body? setting h f arguments = some action)
    (full : Machine.fits h 0 = (false, after)) :
    Evaluates setting (calls + 1) 2 h (Eval.call site f arguments)
      (.error .outOfMemory) after := by
  intro paused frames waiting next fuel depth nesting
  have entered : Machine.step setting ⟨h, paused⟩ ⟨frames, waiting⟩
      (Eval.call site f arguments next) =
      .next ⟨after, paused⟩
        ⟨.call ((Machine.depths frames).1 + 1) (site.inner (Machine.depths frames).2) site next ::
          frames, waiting⟩ (.raise .outOfMemory) := by
    rw [Machine.step_call site body (by omega) (by omega), Machine.withRoom, full]
  rw [show fuel + 2 = fuel + 1 + 1 by omega, Machine.run, entered]
  rfl

end

/-- A function of the host, called for a host, fails with the failure that an error stands for. -/
theorem hostCall {f : Value} {arguments values : List Value}
    (settles : Evaluates setting calls steps h (Eval.callBack f arguments) (.ok values) after) :
    Evaluates setting calls (steps + 2) h (Library.hostCall f arguments) (.ok values) after := by
  unfold Library.hostCall
  rw [← Nat.add_zero (steps + 2)]
  refine settles.protect.bind ?_
  exact pure values

theorem hostCall_outOfMemory {f : Value} {arguments : List Value}
    (failed : Evaluates setting calls steps h (Eval.callBack f arguments) (.error .outOfMemory)
      after) :
    Evaluates setting calls (steps + 2) h (Library.hostCall f arguments) (.error .outOfMemory)
      after := by
  unfold Library.hostCall
  rw [← Nat.add_zero (steps + 2)]
  refine failed.protect.bind ?_
  exact raise .outOfMemory

theorem run {script : Eval (List Value)} {outcome : Except Thrown (List Value)} {fuel : Nat}
    (settles : Evaluates setting calls steps h script outcome after)
    (flat : calls < Machine.nestingLimit) (enough : steps < fuel) (paused) :
    Machine.run setting fuel ⟨h, paused⟩ {} (Eval.run script) =
      (⟨after, paused⟩, {}, some (.finished outcome)) := by
  have shallow : calls < Machine.depthLimit := by
    rw [Machine.nestingLimit] at flat
    rw [Machine.depthLimit]
    omega
  have reached := settles paused [] [] (fun values => .done (.returned values))
    (fuel - steps - 1 + 1) (by simpa [Machine.depths] using shallow)
    (by simpa [Machine.depths] using flat)
  rw [show fuel = fuel - steps - 1 + 1 + steps by omega]
  refine reached.trans ?_
  cases outcome <;> rfl

end Evaluates

end ScriptHost.Lua
