import Mathlib.Logic.Relation
import ScriptHost.Proofs.HostRuns
import ScriptHost.Proofs.SafeSteps

/-!
# Runs that keep secrets

A script uses the globals in the ordinary way if it never calls a function that gets, sets or
circumvents their metatable. Such a script does not come to any secret table of its engine,
whatever else it does and whatever it asks its host for. Where nothing is tended, every script is
like this.
-/

set_option autoImplicit false

namespace ScriptHost.Host

open Lua

/-- One moment of a script: what the machine has still to do, and the host that it may ask. -/
structure Moment where
  store : Store
  stack : Stack
  action : Action
  host : Host

/-- Whether a host answers a request itself, or the script pauses to have it answered. -/
def Answers (mayPause : Bool) (request : Request) : Prop :=
  mayPause = false ∨ ∀ index, request ≠ .callback index

/-- A request for which a script does not pause has an answer at once. -/
theorem Answers.ofOthers {mayPause : Bool} {request : Request} {next : request.Reply → Action}
    (others : ∀ (index : Nat) (other : (Request.callback index).Reply → Action),
      mayPause = true → request = .callback index → next ≍ other → False) :
    Answers mayPause request := by
  cases mayPause with
  | false => exact .inl rfl
  | true =>
      refine .inr ?_
      rintro index rfl
      exact others index next rfl rfl .rfl

/-- One moment of a script on an engine follows another. -/
inductive Follows (mayPause : Bool) (engine : EngineId) : Moment → Moment → Prop where
  | step {m : Moment} {store : Store} {stack : Stack} {action : Action} :
      Machine.step setting m.store m.stack m.action = .next store stack action →
      Follows mayPause engine m ⟨store, stack, action, m.host⟩
  | reply {m : Moment} {store : Store} {stack : Stack} {request : Request}
      {next : request.Reply → Action} :
      Machine.step setting m.store m.stack m.action = .stop store stack (.asking request next) →
      Answers mayPause request →
      Follows mayPause engine m ⟨store, stack, next (m.host.reply engine request).1,
        (m.host.reply engine request).2⟩

/-- From a moment on, a script uses globals only by ordinary reads and assignments. -/
def StaysOrdinary (mayPause : Bool) (engine : EngineId) (m : Moment) : Prop :=
  ∀ later, Relation.ReflTransGen (Follows mayPause engine) m later →
    ¬ later.action.Bypasses later.store.heap

/-- A script uses globals only by ordinary reads and assignments when an engine performs it. -/
def Ordinary (h : Host) (engine : EngineId) (script : Eval (List Value)) : Prop :=
  StaysOrdinary false engine ⟨(h.engine engine).store, {}, Eval.run script, h⟩

variable {mayPause : Bool} {engine : EngineId} {V : Vault}

theorem StaysOrdinary.now {m : Moment} (ordinary : StaysOrdinary mayPause engine m) :
    ¬ m.action.Bypasses m.store.heap :=
  ordinary m .refl

theorem StaysOrdinary.next {m later : Moment} (ordinary : StaysOrdinary mayPause engine m)
    (follows : Follows mayPause engine m later) : StaysOrdinary mayPause engine later :=
  fun last reached => ordinary last (.head follows reached)

/-- How a script that keeps secrets may stop. -/
def SafeEnd (mayPause : Bool) (engine : EngineId) (V : Vault) (store : Store) (stack : Stack)
    (h : Host) : Option Stop → Prop
  | none => True
  | some (.finished result) => V.Shares result
  | some (.asking request next) =>
    V.SafeStack stack ∧ V.Grants request ∧ (∀ W reply, V.Later W → W.Safe (next reply)) ∧
      (V.tended → Answers mayPause request → StaysOrdinary mayPause engine
        ⟨store, stack, next (h.reply engine request).1, (h.reply engine request).2⟩)

structure SafeStore (V : Vault) (store : Store) : Prop where
  guards : V.Guards store.heap
  paused : V.SafePaused store.paused

structure Confines (V : Vault) (store after : Store) : Prop where
  passes : V.Passes store.heap after.heap
  paused : (V.on after.heap).SafePaused after.paused

theorem Confines.refl {store : Store} (safe : SafeStore V store) : Confines V store store :=
  ⟨.refl safe.guards, by rw [safe.guards.on_self]; exact safe.paused⟩

theorem Confines.trans {store middle after : Store} (first : Confines V store middle)
    (second : Confines (V.on middle.heap) middle after) : Confines V store after :=
  ⟨first.passes.trans second.passes, second.paused⟩

theorem Confines.safe {store after : Store} (confines : Confines V store after) :
    SafeStore (V.on after.heap) after :=
  ⟨confines.passes.guards, confines.paused⟩

theorem confines_run (fuel : Nat) {store : Store} {stack : Stack} {action : Action} (h : Host)
    (safeStore : SafeStore V store) (safeStack : V.SafeStack stack) (safe : V.Safe action)
    (ordinary : V.tended → StaysOrdinary mayPause engine ⟨store, stack, action, h⟩) :
    Confines V store (Machine.run setting fuel store stack action).1 ∧
      SafeEnd mayPause engine (V.on (Machine.run setting fuel store stack action).1.heap)
        (Machine.run setting fuel store stack action).1
        (Machine.run setting fuel store stack action).2.1 h
        (Machine.run setting fuel store stack action).2.2 := by
  -- Each step may add tables, so the vault grows along the run.
  induction fuel generalizing V store stack action with
  | zero => exact ⟨.refl safeStore, trivial⟩
  | succ fuel ih =>
      have keeps := Vault.keeps_step safeStore.guards safeStore.paused safeStack safe
        fun tended => (ordinary tended).now
      unfold Machine.run
      cases taken : Machine.step setting store stack action with
      | next store' stack' action' =>
          rw [taken] at keeps
          obtain ⟨passes, paused, safeStack, safe⟩ := keeps
          have confines : Confines V store store' := ⟨passes, paused⟩
          obtain ⟨rest, ends⟩ := ih confines.safe safeStack safe
            fun tended => (ordinary tended).next (.step taken)
          exact ⟨confines.trans rest, ends⟩
      | stop store' stack' reason =>
          rw [taken] at keeps
          obtain ⟨passes, paused, safeStack, stops⟩ := keeps
          refine ⟨⟨passes, paused⟩, ?_⟩
          cases reason with
          | finished result => exact stops
          | asking request next =>
              exact ⟨safeStack, stops.1, stops.2, fun tended answers =>
                (ordinary tended).next (.reply taken answers)⟩

/-- How far a script that keeps secrets may have come. -/
def SafeProgress (V : Vault) : Progress → Prop
  | .ended result => V.Shares result
  | .exhausted => True
  | .calling _ stack next => V.SafeStack stack ∧ ∀ answer W, V.Later W → W.Safe (next answer)

theorem confines_drive (rounds : Nat) {store : Store} {stack : Stack} {action : Action} {h : Host}
    (safeStore : SafeStore V store) (safeStack : V.SafeStack stack) (safe : V.Safe action)
    (ordinary : V.tended → StaysOrdinary mayPause engine ⟨store, stack, action, h⟩) :
    Confines V store (drive mayPause engine rounds store stack action h).2.1 ∧
      SafeProgress (V.on (drive mayPause engine rounds store stack action h).2.1.heap)
        (drive mayPause engine rounds store stack action h).1 := by
  induction rounds generalizing V store stack action h with
  | zero => exact ⟨.refl safeStore, trivial⟩
  | succ rounds ih =>
      obtain ⟨confines, ends⟩ := confines_run h.stepLimit h safeStore safeStack safe ordinary
      unfold drive
      split
      · rename_i ran
        rw [ran] at confines
        exact ⟨confines, trivial⟩
      · rename_i ran
        rw [ran] at confines ends
        exact ⟨confines, ends⟩
      · rename_i store' stack' request next ran
        rw [ran] at confines ends
        obtain ⟨safeStack, _, continues, further⟩ := ends
        split
        · exact ⟨confines, safeStack, fun answer W later => continues W answer later⟩
        · rename_i others
          have answers := Answers.ofOthers others
          obtain ⟨rest, progress⟩ := ih confines.safe safeStack
            (continues _ _ (.refl _)) fun tended => further tended answers
          exact ⟨confines.trans rest, progress⟩

/-- A script asks for nothing that it has no handle of. -/
theorem grants_drive (rounds : Nat) {store : Store} {stack : Stack} {action : Action} {h : Host}
    (safeStore : SafeStore V store) (safeStack : V.SafeStack stack) (safe : V.Safe action)
    (ordinary : V.tended → StaysOrdinary mayPause engine ⟨store, stack, action, h⟩) :
    ∀ request ∈ driveRequests mayPause engine rounds store stack action h, V.Grants request := by
  induction rounds generalizing V store stack action h with
  | zero => exact fun _ member => nomatch member
  | succ rounds ih =>
      obtain ⟨confines, ends⟩ := confines_run h.stepLimit h safeStore safeStack safe ordinary
      unfold driveRequests
      split
      · exact fun _ member => nomatch member
      · exact fun _ member => nomatch member
      · rename_i store' stack' request next ran
        rw [ran] at confines ends
        obtain ⟨safeStack, granted, continues, further⟩ := ends
        split
        · exact fun _ member => nomatch member
        · rename_i others
          have answers := Answers.ofOthers others
          intro other member
          rcases List.mem_cons.mp member with rfl | later
          · exact granted.of_on
          · exact (ih confines.safe safeStack (continues _ _ (.refl _))
              (fun tended => further tended answers) other later).of_on

variable {h after : Host}

/-- On one engine, nothing but the store has changed, and secrets have been kept. -/
structure ConfinesOn (V : Vault) (engine : EngineId) (h after : Host) : Prop where
  runsOn : RunsOn engine h after
  confines : Confines V (h.engine engine).store (after.engine engine).store

theorem ConfinesOn.safe (confines : ConfinesOn V engine h after) :
    SafeStore (V.on (after.heap engine)) (after.engine engine).store :=
  confines.confines.safe

theorem confines_advance (present : engine.index < h.engines.size)
    (safe : SafeStore V (h.engine engine).store) {stack : Stack} (safeStack : V.SafeStack stack)
    {action : Action} (safeAction : V.Safe action)
    (ordinary : V.tended → StaysOrdinary mayPause engine
      ⟨(h.engine engine).store, stack, action, h⟩) :
    ConfinesOn V engine h (h.advance mayPause engine stack action).2 ∧
      SafeProgress (V.on ((h.advance mayPause engine stack action).2.heap engine))
        (h.advance mayPause engine stack action).1 := by
  have driven := confines_drive h.stepLimit safe safeStack safeAction ordinary
  have kept := (h.uses_drive engine mayPause h.stepLimit (h.engine engine).store stack action).runsOn
  have stored : ((h.advance mayPause engine stack action).2.engine engine).store =
      (drive mayPause engine h.stepLimit (h.engine engine).store stack action h).2.1 := by
    simp only [advance]
    rw [engine_modifyEngine_self (by rw [kept.size]; exact present)]
  exact ⟨⟨runsOn_advance .., by rw [stored]; exact driven.1⟩,
    by rw [heap, stored]; exact driven.2⟩

/-- A script that an engine performs keeps the secrets of the engine, and yields none. If the
metatable of the globals is tended, the script has to use globals in the ordinary way. -/
theorem confines_perform (present : engine.index < h.engines.size)
    (safe : SafeStore V (h.engine engine).store) {script : Eval (List Value)}
    (yields : V.Yields script) (ordinary : V.tended → h.Ordinary engine script) :
    ConfinesOn V engine h (h.perform engine script).2 ∧
      ∀ values, (h.perform engine script).1 = .ok values →
        (V.on ((h.perform engine script).2.heap engine)).Shares values := by
  have empty : V.SafeStack {} :=
    ⟨fun _ member => absurd member List.not_mem_nil, fun _ member => absurd member List.not_mem_nil⟩
  obtain ⟨confines, progress⟩ := confines_advance present safe empty yields.run ordinary
  refine ⟨confines, fun values performed => ?_⟩
  unfold perform at performed ⊢
  generalize h.advance false engine {} (Eval.run script) = advanced at performed progress ⊢
  obtain ⟨reached, after⟩ := advanced
  cases reached with
  | ended result =>
      cases result with
      | ok found =>
          obtain rfl := Except.ok.inj performed
          exact progress
      | error thrown =>
          cases thrown with
          | outOfMemory => cases performed
          | error v =>
              simp only [outcome] at performed
              split at performed <;> cases performed
  | exhausted => cases performed
  | calling function stack next => cases performed

theorem grants_perform (safe : SafeStore V (h.engine engine).store) {script : Eval (List Value)}
    (yields : V.Yields script) (ordinary : V.tended → h.Ordinary engine script) :
    ∀ request ∈ h.performRequests engine script, V.Grants request := by
  have empty : V.SafeStack {} :=
    ⟨fun _ member => absurd member List.not_mem_nil, fun _ member => absurd member List.not_mem_nil⟩
  exact grants_drive h.stepLimit safe empty yields.run ordinary

end ScriptHost.Host
