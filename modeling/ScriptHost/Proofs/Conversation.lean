import ScriptHost.Proofs.HostRuns

/-!
# Scripts that ask their host

What a part of a script comes to when its host answers what it asks on the way: a value or an
error, a heap, and a host.
-/

set_option autoImplicit false

namespace ScriptHost.Lua.Machine

theorem run_add {setting : Library.Setting} {fuel : Nat} {store after : Store} {stack left : Stack} {action : Action}
    {stop : Stop} (stops : run setting fuel store stack action = (after, left, some stop))
    (more : Nat) :
    run setting (fuel + more) store stack action = (after, left, some stop) := by
  induction fuel generalizing store stack action with
  | zero => cases stops
  | succ fuel ih =>
      rw [show fuel + 1 + more = fuel + more + 1 by omega, run]
      rw [run] at stops
      cases taken : step setting store stack action with
      | next store stack action =>
          simp only [taken] at stops ⊢
          exact ih stops
      | stop store stack reason =>
          simp only [taken] at stops ⊢
          exact stops

end ScriptHost.Lua.Machine

namespace ScriptHost.Host

open Lua

variable {α : Type}

/-- Goes on with a script that may take `fuel` steps until it asks for the first time. -/
def driveFrom (engine : EngineId) (fuel rounds : Nat) (store : Store) (stack : Stack)
    (action : Action) (h : Host) : Progress × Store × Host :=
  match Machine.run setting fuel store stack action with
  | (store, _, none) => (.exhausted, store, h)
  | (store, _, some (.finished result)) => (.ended result, store, h)
  | (store, stack, some (.asking request next)) =>
    let (answer, h) := h.reply engine request
    drive false engine rounds store stack (next answer) h

theorem drive_succ (engine : EngineId) (rounds : Nat) (store : Store) (stack : Stack)
    (action : Action) (h : Host) :
    drive false engine (rounds + 1) store stack action h =
      driveFrom engine h.stepLimit rounds store stack action h := by
  unfold drive driveFrom
  cases Machine.run setting h.stepLimit store stack action with
  | mk store rest =>
      obtain ⟨stack, stop⟩ := rest
      rcases stop with _ | _ | _ <;> rfl

/-- A part of a script settles with an outcome; the heap changes from `h` to `after`, and by what
it asks the host from `before` to `later`. It takes `steps` steps in all and at most `tail` of them
after it has asked. -/
structure Converses (engine : EngineId) (calls steps tail rounds : Nat) (before : Host) (h : Heap)
    (m : Eval α) (outcome : Except Thrown α) (after : Heap) (later : Host) : Prop where
  engines : later.engines = before.engines
  stepLimit : later.stepLimit = before.stepLimit
  reaches : ∀ paused frames waiting next fuel more,
    (Machine.depths frames).1 + calls < Machine.depthLimit →
    (Machine.depths frames).2 + calls < Machine.nestingLimit →
    steps ≤ fuel → tail ≤ before.stepLimit →
    ∃ left, min (fuel - steps) (before.stepLimit - tail) ≤ left ∧
      driveFrom engine fuel (more + rounds) ⟨h, paused⟩ ⟨frames, waiting⟩ (m next) before =
        driveFrom engine left more ⟨after, paused⟩ ⟨frames, waiting⟩ (settled next outcome) later

end ScriptHost.Host

namespace ScriptHost.Lua.Evaluates

open Host

variable {α : Type}

theorem converses {calls steps : Nat} {h after : Heap} {m : Eval α} {outcome : Except Thrown α}
    (settles : Evaluates setting calls steps h m outcome after) (engine : EngineId) (host : Host) :
    Converses engine calls steps 0 0 host h m outcome after host where
  engines := rfl
  stepLimit := rfl
  reaches paused frames waiting next fuel more depth nesting enough _ := by
    have reached := settles paused frames waiting next (fuel - steps) depth nesting
    rw [Nat.sub_add_cancel enough] at reached
    refine ⟨fuel - steps, Nat.min_le_left .., ?_⟩
    rw [driveFrom, reached, ← driveFrom, Nat.add_zero]

end ScriptHost.Lua.Evaluates

namespace ScriptHost.Host.Converses

open Lua

variable {α β : Type} {engine : EngineId} {calls steps tail rounds steps' tail' rounds' : Nat}
  {before between later : Host} {h middle after : Heap}

theorem ask {request : Request} {answer : request.Reply}
    (answers : before.reply engine request = (answer, later))
    (engines : later.engines = before.engines) (stepLimit : later.stepLimit = before.stepLimit) :
    Converses engine calls 1 0 1 before h (Eval.ask request) (.ok answer) h later where
  engines := engines
  stepLimit := stepLimit
  reaches paused frames waiting next fuel more depth nesting enough _ := by
    obtain ⟨fuel, rfl⟩ := Nat.exists_eq_add_of_le' enough
    refine ⟨later.stepLimit, by omega, ?_⟩
    have asks : Machine.run setting (fuel + 1) ⟨h, paused⟩ ⟨frames, waiting⟩
        (Eval.ask request next) =
        (⟨h, paused⟩, ⟨frames, waiting⟩, some (.asking request next)) := rfl
    rw [driveFrom, asks]
    dsimp only
    rw [answers]
    dsimp only
    rw [drive_succ]
    rfl

theorem bind {m : Eval α} {f : α → Eval β} {a : α} {outcome : Except Thrown β}
    (first : Converses engine calls steps tail rounds before h m (.ok a) middle between)
    (rest : Converses engine calls steps' tail' rounds' between middle (f a) outcome after later) :
    Converses engine calls (steps + steps') (max (tail + steps') tail') (rounds' + rounds) before h
      (m >>= f) outcome after later where
  engines := rest.engines.trans first.engines
  stepLimit := rest.stepLimit.trans first.stepLimit
  reaches paused frames waiting next fuel more depth nesting enough room := by
    obtain ⟨left, many, reached⟩ := first.reaches paused frames waiting (fun a => f a next) fuel
      (more + rounds') depth nesting (by omega) (by omega)
    obtain ⟨left', many', reached'⟩ := rest.reaches paused frames waiting next left more depth
      nesting (by omega) (by rw [first.stepLimit]; omega)
    rw [first.stepLimit] at many'
    refine ⟨left', by omega, ?_⟩
    rw [← Nat.add_assoc]
    exact reached.trans reached'

theorem bind_error {m : Eval α} {f : α → Eval β} {thrown : Thrown}
    (fails : Converses engine calls steps tail rounds before h m (.error thrown) after later) :
    Converses engine calls steps tail rounds before h (m >>= f) (.error thrown) after later where
  engines := fails.engines
  stepLimit := fails.stepLimit
  reaches paused frames waiting next fuel more depth nesting enough room :=
    fails.reaches paused frames waiting (fun a => f a next) fuel more depth nesting enough room

theorem driveFrom_next {fuel rounds : Nat} {store store' : Store} {stack stack' : Stack}
    {action action' : Action}
    (taken : Machine.step setting store stack action = .next store' stack' action') :
    driveFrom engine (fuel + 1) rounds store stack action before =
      driveFrom engine fuel rounds store' stack' action' before := by
  rw [driveFrom, Machine.run, taken, driveFrom]

/-- One step puts a frame around a part of a script, and one step takes it away. -/
theorem framed {m : Eval α} {outcome : Except Thrown α} {n : Eval β} {result : Except Thrown β}
    (deeper : Nat) (frame : List Frame → (β → Action) → Frame) (last : α → Action)
    (inner : Converses engine calls steps tail rounds before middle m outcome after later)
    (depth : ∀ frames next,
      (Machine.depths (frame frames next :: frames)).1 ≤ (Machine.depths frames).1 + deeper ∧
        (Machine.depths (frame frames next :: frames)).2 ≤ (Machine.depths frames).2 + deeper)
    (enter : ∀ paused frames waiting next,
      (Machine.depths frames).1 + (calls + deeper) < Machine.depthLimit →
      (Machine.depths frames).2 + (calls + deeper) < Machine.nestingLimit →
      Machine.step setting ⟨h, paused⟩ ⟨frames, waiting⟩ (n next) =
        .next ⟨middle, paused⟩ ⟨frame frames next :: frames, waiting⟩ (m last))
    (leave : ∀ paused frames waiting next,
      Machine.step setting ⟨after, paused⟩ ⟨frame frames next :: frames, waiting⟩
          (settled last outcome) =
        .next ⟨after, paused⟩ ⟨frames, waiting⟩ (settled next result)) :
    Converses engine (calls + deeper) (steps + 2) (tail + 1) rounds before h n result after
      later where
  engines := inner.engines
  stepLimit := inner.stepLimit
  reaches paused frames waiting next fuel more shallow flat enough room := by
    obtain ⟨fuel, rfl⟩ := Nat.exists_eq_add_of_le' (Nat.le_trans (Nat.le_add_left 1 _) enough)
    obtain ⟨below, above⟩ := depth frames next
    obtain ⟨left, many, reached⟩ := inner.reaches paused (frame frames next :: frames) waiting last
      fuel more (by omega) (by omega) (by omega) (by omega)
    obtain ⟨left, rfl⟩ := Nat.exists_eq_add_of_le' (show 1 ≤ left by omega)
    refine ⟨left, by omega, ?_⟩
    rw [driveFrom_next (enter paused frames waiting next shallow flat), reached,
      driveFrom_next (leave paused frames waiting next)]

theorem protect {body : Eval (List Value)} {outcome : Except Thrown (List Value)}
    (inner : Converses engine calls steps tail rounds before h body outcome after later) :
    Converses engine calls (steps + 2) (tail + 1) rounds before h (Eval.protect body) (.ok outcome)
      after later := by
  refine framed (n := Eval.protect body) 0 (fun _ next => .guard next)
    (fun values => .done (.returned values)) inner
    (fun _ _ => ⟨Nat.le_refl _, Nat.le_refl _⟩) (fun _ _ _ _ _ _ => rfl) fun _ _ _ _ => ?_
  cases outcome <;> rfl

theorem call {f : Value} {arguments : List Value} {site : Site} {m : Eval α}
    {outcome : Except Thrown α} (values : α → List Value)
    (body : Machine.body? setting h f arguments = some (m fun a => .done (.returned (values a))))
    (room : Machine.fits h 0 = (true, middle))
    (inner : Converses engine calls steps tail rounds before middle m outcome after later) :
    Converses engine (calls + 1) (steps + 2) (tail + 1) rounds before h
      (Eval.call site f arguments) (outcome.map values) after later := by
  refine framed (n := Eval.call site f arguments) 1 (fun frames next =>
      .call ((Machine.depths frames).1 + 1) (site.inner (Machine.depths frames).2) site next)
    (fun a => .done (.returned (values a))) inner
    (fun _ _ => ⟨Nat.le_refl _, Site.inner_le ..⟩)
    (fun paused frames waiting next shallow flat => ?_) fun _ _ _ _ => ?_
  · rw [Machine.step_call site body (by omega) (by omega), Machine.withRoom, room]
  · cases outcome <;> rfl

theorem call_builtin {f : Builtin} {arguments : List Value} {site : Site}
    {body : Eval (List Value)} {outcome : Except Thrown (List Value)}
    (runs : Library.run setting (.builtin f) f [] arguments = Eval.run body)
    (room : Machine.fits h 0 = (true, middle))
    (inner : Converses engine calls steps tail rounds before middle body outcome after later) :
    Converses engine (calls + 1) (steps + 2) (tail + 1) rounds before h
      (Eval.call site (.builtin f) arguments) outcome after later := by
  have entered : Machine.body? setting h (.builtin f) arguments = some (Eval.run body) :=
    congrArg some runs
  have called : Converses engine (calls + 1) (steps + 2) (tail + 1) rounds before h
      (Eval.call site (.builtin f) arguments) (outcome.map fun values => values) after later :=
    call (fun values => values) entered room inner
  cases outcome <;> exact called

theorem hostCall {f : Value} {arguments values : List Value}
    (inner : Converses engine calls steps tail rounds before h (Eval.callBack f arguments)
      (.ok values) after later) :
    Converses engine calls (steps + 2) (tail + 1) rounds before h (Library.hostCall f arguments)
      (.ok values) after later := by
  have returned : Converses engine calls 0 0 0 later after (Pure.pure values) (.ok values) after
      later := (Evaluates.pure values).converses engine later
  have whole : Converses engine calls (steps + 2 + 0) (max (tail + 1 + 0) 0) (0 + rounds) before h
      (Library.hostCall f arguments) (.ok values) after later := inner.protect.bind returned
  simpa using whole

end ScriptHost.Host.Converses

namespace ScriptHost.Host

open Lua

variable {engine : EngineId} {calls steps tail rounds : Nat} {h later : Host} {after : Heap}
  {script : Eval (List Value)} {outcome : Except Thrown (List Value)}

theorem Converses.driveFrom_run (settles : Converses engine calls steps tail rounds h
      (h.heap engine) script outcome after later) (flat : calls < Machine.nestingLimit)
    (lasting : tail < h.stepLimit) {fuel : Nat} (enough : steps < fuel) (more : Nat) (paused) :
    driveFrom engine fuel (more + rounds) ⟨h.heap engine, paused⟩ {} (Eval.run script) h =
      (.ended outcome, ⟨after, paused⟩, later) := by
  have shallow : calls < Machine.depthLimit := by
    rw [Machine.nestingLimit] at flat
    rw [Machine.depthLimit]
    omega
  obtain ⟨left, many, reached⟩ := settles.reaches paused [] []
    (fun values => .done (.returned values)) fuel more (by simpa [Machine.depths] using shallow)
    (by simpa [Machine.depths] using flat) (by omega) (by omega)
  obtain ⟨left, rfl⟩ := Nat.exists_eq_add_of_le' (show 1 ≤ left by omega)
  refine reached.trans ?_
  cases outcome <;> rfl

/-- What a host gets from a script that settles, unless the steps do not suffice to ask for
anything. -/
theorem perform_of_converses (settles : Converses engine calls steps tail rounds h
      (h.heap engine) script outcome after later) (flat : calls < Machine.nestingLimit)
    (lasting : tail < h.stepLimit) (few : rounds < h.stepLimit) :
    h.perform engine script =
        ((later.modifyHeap engine fun _ => after).outcome engine (.ended outcome),
          later.modifyHeap engine fun _ => after) ∨
      h.stepLimit ≤ steps ∧ ∃ store, h.perform engine script =
        (.error unfinished, h.modifyEngine engine fun e => { e with store }) := by
  have kept : (h.engine engine).store = ⟨h.heap engine, (h.engine engine).store.paused⟩ := rfl
  obtain ⟨more, split⟩ : ∃ more, h.stepLimit = more + rounds + 1 := ⟨h.stepLimit - rounds - 1, by omega⟩
  have driven : drive false engine h.stepLimit (h.engine engine).store {} (Eval.run script) h =
      driveFrom engine h.stepLimit (more + rounds) (h.engine engine).store {} (Eval.run script) h := by
    rw [show drive false engine h.stepLimit = drive false engine (more + rounds + 1) by rw [split],
      drive_succ]
  have performed {result : Progress × Store × Host}
      (ran : driveFrom engine h.stepLimit (more + rounds) (h.engine engine).store {}
        (Eval.run script) h = result) :
      h.perform engine script =
        ((result.2.2.modifyEngine engine fun e => { e with store := result.2.1 }).outcome engine
          result.1, result.2.2.modifyEngine engine fun e => { e with store := result.2.1 }) := by
    rw [perform, advance, driven, ran]
  have settled {fuel : Nat} (enough : steps < fuel) := settles.driveFrom_run flat lasting enough more
    (h.engine engine).store.paused
  have ended (ran : driveFrom engine h.stepLimit (more + rounds) (h.engine engine).store {}
        (Eval.run script) h = (.ended outcome, ⟨after, (h.engine engine).store.paused⟩, later)) :
      h.perform engine script =
        ((later.modifyHeap engine fun _ => after).outcome engine (.ended outcome),
          later.modifyHeap engine fun _ => after) := by
    have same : later.modifyEngine engine (fun e =>
        { e with store := ⟨after, (h.engine engine).store.paused⟩ }) =
        later.modifyHeap engine fun _ => after := by
      refine modifyEngine_congr ?_
      rw [show later.engine engine = h.engine engine by rw [Host.engine, settles.engines, Host.engine]]
      rfl
    rw [performed ran, same]
  by_cases enough : steps < h.stepLimit
  · exact .inl (ended (settled enough))
  · cases stopped : Machine.run setting h.stepLimit (h.engine engine).store {} (Eval.run script) with
    | mk store rest =>
        obtain ⟨stack, stop⟩ := rest
        cases stop with
        | none =>
            refine .inr ⟨Nat.not_lt.mp enough, store, ?_⟩
            rw [performed (by rw [driveFrom, stopped])]
            rfl
        | some stop =>
            refine .inl (ended ?_)
            have longer := Machine.run_add stopped (steps + 1)
            rw [← settled (show steps < h.stepLimit + (steps + 1) by omega), driveFrom, driveFrom,
              ← kept, longer, stopped]

end ScriptHost.Host
