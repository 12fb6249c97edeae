import ScriptHost.Proofs.Conversation
import ScriptHost.Proofs.JsonValues

/-!
# How parts of scripts end

A part of a script settles with a value or with an error. Either way something can be said of the
heap and of the host that it leaves, so errors are followed through a script as values are.
-/

set_option autoImplicit false

namespace ScriptHost

open Lua

namespace Lua.Heap

/-- Everything that was there is there and has not changed. -/
structure Extends (h after : Heap) : Prop extends Steady (fun _ _ => False) h after where
  limit? : after.limit? = h.limit?
  cellCount : h.cells.size ≤ after.cells.size
  cell : ∀ id : CellId, id.index < h.cells.size → after.cell id = h.cell id

namespace Extends

variable {h middle after : Heap}

theorem refl (h : Heap) : Extends h h :=
  ⟨Steady.refl .., rfl, Nat.le_refl _, fun _ _ => rfl⟩

theorem trans (first : Extends h middle) (second : Extends middle after) : Extends h after where
  toSteady := first.toSteady.andThen second.toSteady
  limit? := second.limit?.trans first.limit?
  cellCount := Nat.le_trans first.cellCount second.cellCount
  cell id present := by
    rw [second.cell id (Nat.lt_of_lt_of_le present first.cellCount), first.cell id present]

theorem ofCells (steady : Steady (fun _ _ => False) h after) (limit? : after.limit? = h.limit?)
    (cells : after.cells = h.cells) : Extends h after :=
  ⟨steady, limit?, Nat.le_of_eq (congrArg Array.size cells).symm, fun id _ => by
    rw [Heap.cell, cells, Heap.cell]⟩

theorem fits (h : Heap) (bytes : Nat) : Extends h (Machine.fits h bytes).2 := by
  refine ofCells (Steady.fits ..) (limit?_fits ..) ?_
  unfold Machine.fits
  split
  · rfl
  · split <;> rfl

theorem newCell (h : Heap) (v : Value) : Extends h (h.newCell v).2 := by
  refine ⟨⟨Keeps.ofTables rfl rfl rfl fun _ _ found => found, rfl, fun _ => rfl⟩, rfl, ?_, ?_⟩
  · simp [Heap.newCell]
  · intro id present
    simp [Heap.cell, Heap.newCell, Array.getElem?_push, Nat.ne_of_lt present]

theorem newClosure (h : Heap) (c : Closure) : Extends h (h.newClosure c).2 :=
  ofCells ⟨Keeps.ofTables rfl rfl rfl fun _ _ found => found, rfl, fun _ => rfl⟩ rfl rfl

theorem newUserdata (h : Heap) (r : Resource) : Extends h (h.newUserdata r).2 :=
  ofCells (Steady.newUserdata _ h r) rfl rfl

theorem newTable (h : Heap) (t : Table) : Extends h (h.newTable t).2 :=
  ofCells (Steady.newTable _ h t) rfl rfl

end Extends

end Lua.Heap

namespace Host

variable {α β : Type} {engine : EngineId} {calls bound more rounds rounds' : Nat}
  {before : Host} {h : Heap}

/-- A part of a script settles, and a property tells with what outcome and what becomes of the heap
and of the host. -/
def Ends (engine : EngineId) (calls bound rounds : Nat) (before : Host) (h : Heap) (m : Eval α)
    (property : Except Thrown α → Heap → Host → Prop) : Prop :=
  ∃ steps tail asked outcome after later,
    Converses engine calls steps tail asked before h m outcome after later ∧
      steps ≤ bound ∧ tail ≤ bound ∧ asked ≤ rounds ∧ property outcome after later

/-- The outcome is a failure of the host that scripts can catch. -/
def Raises (after : Heap) (failure : Failure) (outcome : Except Thrown α) : Prop :=
  ∃ uid, outcome = .error (.error (.userdata uid)) ∧ after.resource? uid = some (.failure failure)

theorem Raises.error {after : Heap} {failure : Failure} {thrown : Thrown}
    (raises : Raises after failure (.error thrown : Except Thrown α)) :
    Raises after failure (.error thrown : Except Thrown β) := by
  obtain ⟨uid, raised, known⟩ := raises
  cases raised
  exact ⟨uid, rfl, known⟩

namespace Ends

variable {m : Eval α} {property : Except Thrown α → Heap → Host → Prop}

theorem ofEvaluates {steps : Nat} {outcome : Except Thrown α} {after : Heap}
    (settles : Evaluates setting calls steps h m outcome after)
    (holds : property outcome after before) : Ends engine calls steps 0 before h m property :=
  ⟨steps, 0, 0, outcome, after, before, settles.converses engine before, Nat.le_refl _,
    Nat.zero_le _, Nat.le_refl _, holds⟩

theorem pure {a : α} (holds : property (.ok a) h before) :
    Ends engine calls 0 0 before h (Pure.pure a) property :=
  ofEvaluates (.pure a) holds

theorem failure {f : Failure} (ordinary : f ≠ .memory)
    (holds : ∀ outcome after, Heap.Extends h after → Raises after f outcome →
      property outcome after before) :
    Ends engine calls 1 0 before h (Eval.failure f) property :=
  ofEvaluates (.failure ordinary)
    (holds _ _ (.newUserdata h _) ⟨_, rfl, Heap.resource?_newUserdata h _⟩)

theorem mono {result : Except Thrown α → Heap → Host → Prop}
    (ends : Ends engine calls bound rounds before h m property) (few : bound ≤ more)
    (seldom : rounds ≤ rounds')
    (weaker : ∀ outcome after later, property outcome after later → result outcome after later) :
    Ends engine calls more rounds' before h m result := by
  obtain ⟨steps, tail, asked, outcome, after, later, settles, few', short, seldom', holds⟩ := ends
  exact ⟨steps, tail, asked, outcome, after, later, settles, by omega, by omega, by omega,
    weaker outcome after later holds⟩

theorem bind {f : α → Eval β} {result : Except Thrown β → Heap → Host → Prop}
    (first : Ends engine calls bound rounds before h m property)
    (rest : ∀ a middle between, property (.ok a) middle between →
      Ends engine calls more rounds' between middle (f a) result)
    (fails : ∀ thrown middle between, property (.error thrown) middle between →
      result (.error thrown) middle between) :
    Ends engine calls (bound + more) (rounds + rounds') before h (m >>= f) result := by
  obtain ⟨steps, tail, asked, outcome, middle, between, settles, few, short, seldom, holds⟩ := first
  cases outcome with
  | ok a =>
      obtain ⟨steps', tail', asked', outcome', after, later, settles', few', short', seldom',
        ends⟩ := rest a middle between holds
      exact ⟨_, _, _, outcome', after, later, settles.bind settles', by omega, by omega, by omega,
        ends⟩
  | error thrown =>
      exact ⟨_, _, _, _, middle, between, settles.bind_error, by omega, by omega, by omega,
        fails thrown middle between holds⟩

theorem afterwards {f : α → Eval β} {result : Except Thrown β → Heap → Host → Prop} {steps : Nat}
    {a : α} {middle : Heap} (settles : Evaluates setting calls steps h m (.ok a) middle)
    (rest : Ends engine calls more rounds before middle (f a) result) :
    Ends engine calls (steps + more) rounds before h (m >>= f) result := by
  obtain ⟨steps', tail, asked, outcome, after, later, settles', few, short, seldom, ends⟩ := rest
  exact ⟨_, _, _, outcome, after, later, (settles.converses engine before).bind settles', by omega,
    by omega, by omega, ends⟩

theorem answered {request : Request} {f : request.Reply → Eval β}
    {result : Except Thrown β → Heap → Host → Prop} {answer : request.Reply} {later : Host}
    (answers : before.reply engine request = (answer, later))
    (engines : later.engines = before.engines) (stepLimit : later.stepLimit = before.stepLimit)
    (rest : Ends engine calls bound rounds later h (f answer) result) :
    Ends engine calls (1 + bound) (1 + rounds) before h (Eval.ask request >>= f) result := by
  obtain ⟨steps, tail, asked, outcome, after, last, settles, few, short, seldom, ends⟩ := rest
  have asks : Converses engine calls 1 0 1 before h (Eval.ask request) (.ok answer) h later :=
    .ask answers engines stepLimit
  exact ⟨_, _, _, outcome, after, last, asks.bind settles, by omega, by omega, by omega, ends⟩

/-- A call of a function: its body runs, unless the memory does not suffice for one more call. -/
theorem call {f : Value} {arguments : List Value} {site : Site}
    {result : Except Thrown (List Value) → Heap → Host → Prop} (values : α → List Value)
    (body : Machine.body? setting h f arguments = some (m fun a => .done (.returned (values a))))
    (inner : ∀ middle, Heap.Extends h middle →
      Ends engine calls bound rounds before middle m fun outcome => result (outcome.map values))
    (full : ∀ after, Heap.Extends h after → h.limit? ≠ none →
      result (.error .outOfMemory) after before) :
    Ends engine (calls + 1) (bound + 2) rounds before h (Eval.call site f arguments) result := by
  have opened := Heap.Extends.fits h 0
  cases room : Machine.fits h 0 with
  | mk enough middle =>
      rw [room] at opened
      cases enough with
      | true =>
          obtain ⟨steps, tail, asked, outcome, after, later, settles, few, short, seldom, holds⟩ :=
            inner middle opened
          exact ⟨_, _, _, _, after, later, settles.call values body room, by omega, by omega,
            seldom, holds⟩
      | false =>
          have failed : Evaluates setting (calls + 1) 2 h (Eval.call site f arguments)
              (.error .outOfMemory) middle := .call_outOfMemory body room
          exact ⟨2, 0, 0, _, middle, before, failed.converses engine before, by omega, by omega,
            Nat.zero_le _, full middle opened (Heap.limit?_ne_none_of_fits room)⟩

theorem call_builtin {f : Builtin} {arguments : List Value} {site : Site}
    {body : Eval (List Value)} {result : Except Thrown (List Value) → Heap → Host → Prop}
    (runs : Library.run setting (.builtin f) f [] arguments = Eval.run body)
    (inner : ∀ middle, Heap.Extends h middle →
      Ends engine calls bound rounds before middle body result)
    (full : ∀ after, Heap.Extends h after → h.limit? ≠ none →
      result (.error .outOfMemory) after before) :
    Ends engine (calls + 1) (bound + 2) rounds before h (Eval.call site (.builtin f) arguments)
      result := by
  have entered : Machine.body? setting h (.builtin f) arguments = some (Eval.run body) :=
    congrArg some runs
  refine .call (fun values => values) entered (fun middle opened => ?_) full
  refine (inner middle opened).mono (Nat.le_refl _) (Nat.le_refl _) fun outcome _ _ holds => ?_
  cases outcome <;> exact holds

/-- Only strings and numbers count as texts. -/
theorem textArgument_error {function? : Option String} {args : Arguments} {i : Nat} {e : Failure}
    {property : Except Thrown String → Heap → Host → Prop}
    (wrong : Conversion.toText (args.get i) = .error e)
    (holds : ∀ failure outcome after, Heap.Extends h after → Raises after failure outcome →
      property outcome after before) :
    Ends engine calls 1 0 before h (Library.textArgument function? args i) property := by
  simp only [Library.textArgument, wrong]
  exact .failure nofun fun outcome after => holds _ outcome after

end Ends

end Host

end ScriptHost
