import ScriptHost.Proofs.Courses
import ScriptHost.Proofs.TableTraversal

/-!
# Loops over tables out of the reach of scripts

The table that a loop goes through may be known to nobody but the loop. Then nothing that the body
does can change it, and the loop comes to every entry of the table, once and in their order,
whatever the body does to anything else and wherever it calls, pauses or fails in between.
-/

set_option autoImplicit false

namespace ScriptHost

open Lua

namespace Host

variable {mayPause : Bool} {engine : EngineId} {V W : Vault}

/-! ## Moments -/

/-- Nothing secret is held at a moment, in the heap or by what is still to be done. -/
structure SafeMoment (V : Vault) (m : Moment) : Prop where
  store : SafeStore V m.store
  stack : V.SafeStack m.stack
  action : V.Safe m.action

namespace SafeMoment

variable {m later : Moment}

theorem follows (untended : ¬ V.tended) (safe : SafeMoment V m)
    (next : Follows mayPause engine m later) :
    V.Passes m.store.heap later.store.heap ∧ SafeMoment (V.on later.store.heap) later := by
  have keeps := Vault.keeps_step safe.store.guards safe.store.paused safe.stack safe.action
    fun tended => absurd tended untended
  cases next with
  | step taken =>
      rw [taken] at keeps
      obtain ⟨passes, paused, stack, action⟩ := keeps
      exact ⟨passes, ⟨passes.guards, paused⟩, stack, action⟩
  | reply taken _ =>
      rw [taken] at keeps
      obtain ⟨passes, paused, stack, _, continues⟩ := keeps
      exact ⟨passes, ⟨passes.guards, paused⟩, stack, continues _ _ (.refl _)⟩

theorem comes (untended : ¬ V.tended) (safe : SafeMoment V m) (run : Comes mayPause engine m later) :
    V.Passes m.store.heap later.store.heap ∧ SafeMoment (V.on later.store.heap) later := by
  induction run with
  | refl =>
      refine ⟨.refl safe.store.guards, ?_⟩
      rw [safe.store.guards.on_self]
      exact safe
  | tail _ next ih =>
      obtain ⟨passes, safe⟩ := ih
      obtain ⟨further, last⟩ := safe.follows (show ¬ (V.on _).tended from untended) next
      exact ⟨passes.trans further, last⟩

end SafeMoment

/-! ## Parts of scripts on stacks that they cannot tell apart -/

/-- What goes on beside a part of a script: all of a moment but the action and the stack. -/
structure Surroundings where
  store : Store
  waiting : List Waiting
  host : Host

namespace Surroundings

def heap (s : Surroundings) : Heap := s.store.heap

def withHeap (s : Surroundings) (h : Heap) : Surroundings :=
  { s with store := ⟨h, s.store.paused⟩ }

def moment (s : Surroundings) (frames : List Frame) (action : Action) : Moment :=
  ⟨s.store, ⟨frames, s.waiting⟩, action, s.host⟩

structure Safe (V : Vault) (s : Surroundings) : Prop where
  store : SafeStore V s.store
  waiting : ∀ w ∈ s.waiting, V.SafeWaiting w

/-- A change of the heap that keeps secrets. -/
theorem Safe.withHeap {s : Surroundings} {h : Heap} (safe : s.Safe V) (passes : V.Passes s.heap h) :
    (s.withHeap h).Safe (V.on h) := by
  have later := safe.store.guards.later passes
  exact ⟨⟨passes.guards, safe.store.paused.mono later⟩,
    fun w member => (safe.waiting w member).mono later⟩

end Surroundings

/-- A part of a script cannot tell a stack from another one, and cannot leave the functions on it by
a call in the place of a result. -/
structure Resembles (frames others : List Frame) : Prop where
  depths : Machine.depths others = Machine.depths frames
  sites : Machine.sites others = Machine.sites frames
  barred : Machine.toFunction? others = none

/-- The calls of a stack, with nothing to be done after them. -/
def quietCalls : List Frame → List Frame
  | [] => []
  | .call depth nesting site _ :: frames =>
    .call depth nesting site (fun _ => .done .normal) :: quietCalls frames
  | _ :: frames => quietCalls frames

theorem resembles_quiet (frames : List Frame) :
    Resembles frames (.closing .nil (.done .normal) :: quietCalls frames) := by
  have same : Machine.depths (quietCalls frames) = Machine.depths frames ∧
      Machine.sites (quietCalls frames) = Machine.sites frames := by
    induction frames with
    | nil => exact ⟨rfl, rfl⟩
    | cons frame frames ih =>
        cases frame with
        | call depth nesting site next => exact ⟨rfl, congrArg (site :: ·) ih.2⟩
        | _ => exact ih
  exact ⟨same.1, same.2, rfl⟩

theorem safe_quietCalls (frames : List Frame) : V.SafeFrames (quietCalls frames) := by
  induction frames with
  | nil => exact fun _ member => nomatch member
  | cons frame frames ih =>
      cases frame with
      | call depth nesting site next => exact .cons (fun _ _ _ _ => .done trivial) ih
      | _ => exact ih

/-- A part of a script comes to its ending, on every stack that it cannot tell from the one it is
on. -/
def Completes (mayPause : Bool) (engine : EngineId) (frames : List Frame) (s : Surroundings)
    (action ending : Action) (t : Surroundings) : Prop :=
  ∀ others, Resembles frames others →
    Comes mayPause engine (s.moment others action) (t.moment others ending)

/-- It does not matter what else is on the stack: what is secret to a part of a script, it leaves
as it is. -/
theorem Completes.passes {frames : List Frame} {s t : Surroundings} {action ending : Action}
    (completes : Completes mayPause engine frames s action ending t) (untended : ¬ V.tended)
    (safe : s.Safe V) (action_safe : V.Safe action) :
    V.Passes s.heap t.heap ∧ t.Safe (V.on t.heap) := by
  have frame : V.SafeFrame (.closing .nil (.done .normal)) := ⟨trivial, fun _ _ => .done trivial⟩
  have start : SafeMoment V
      (s.moment (.closing .nil (.done .normal) :: quietCalls frames) action) :=
    ⟨safe.store, ⟨.cons frame (safe_quietCalls frames), safe.waiting⟩, action_safe⟩
  obtain ⟨passes, last⟩ := start.comes untended (completes _ (resembles_quiet frames))
  exact ⟨passes, last.store, last.stack.waiting⟩

/-! ## The function that gives the next entry -/

section

variable {s : Surroundings} {frames : List Frame} {site : Site} {id : TableId} {control : Value}
  {next : List Value → Action} {middle : Heap}

theorem comes_next (shallow : (Machine.depths frames).1 + 1 < Machine.depthLimit)
    (flat : (Machine.depths frames).2 + 1 < Machine.nestingLimit)
    (room : Machine.fits s.heap 0 = (true, middle)) {pair? : Option (Value × Value)}
    (found : (middle.table id).entryAfter control = .ok pair?) :
    Comes mayPause engine
      (s.moment frames (.call (.builtin (.base .next)) [.table id, control] site next))
      ((s.withHeap middle).moment frames (next (Library.nextValues pair?))) := by
  let call : Frame := .call ((Machine.depths frames).1 + 1) (site.inner (Machine.depths frames).2)
    site next
  let results (values : List Value) : Action := .done (.returned values)
  have entered : Machine.step setting s.store ⟨frames, s.waiting⟩
      (.call (.builtin (.base .next)) [.table id, control] site next) =
      .next (s.withHeap middle).store ⟨call :: frames, s.waiting⟩
        (Library.next ⟨Library.nameOf (.base .next), [.table id, control]⟩ results) := by
    have stepped := @Machine.step_call setting s.heap (.builtin (.base .next)) [.table id, control]
      _ site rfl frames shallow flat s.store.paused s.waiting next
    rw [Machine.withRoom, room] at stepped
    exact stepped
  have looked : Machine.step setting (s.withHeap middle).store ⟨call :: frames, s.waiting⟩
      (Library.next ⟨Library.nameOf (.base .next), [.table id, control]⟩ results) =
      .next (s.withHeap middle).store ⟨call :: frames, s.waiting⟩
        (results (Library.nextValues pair?)) := by
    rw [Library.next_table]
    simp only [Eval.read, Machine.step, Surroundings.withHeap, found]
  exact .head (.step entered) (.head (.step looked) (.head (.step rfl) .refl))

theorem comes_next_full (shallow : (Machine.depths frames).1 + 1 < Machine.depthLimit)
    (flat : (Machine.depths frames).2 + 1 < Machine.nestingLimit)
    (full : Machine.fits s.heap 0 = (false, middle)) :
    Comes mayPause engine
      (s.moment frames (.call (.builtin (.base .next)) [.table id, control] site next))
      ((s.withHeap middle).moment frames (.raise .outOfMemory)) := by
  have entered := @Machine.step_call setting s.heap (.builtin (.base .next)) [.table id, control]
    _ site rfl frames shallow flat s.store.paused s.waiting next
  rw [Machine.withRoom, full] at entered
  exact .head (.step entered) (.head (.step rfl) .refl)

end

/-! ## The loop -/

end Host

/-- A loop over a table: where it stands, what runs for each entry, and what goes on after it. -/
structure TableLoop where
  site : Site
  locals : Locals
  block : Activation.Block
  table : TableId
  frames : List Frame
  next : Action

namespace TableLoop

/-- One turn of the loop, after the entry with a key or, for nil, before the first one. -/
def turn (l : TableLoop) (control : List Value) : Action :=
  .call (.builtin (.base .next)) [.table l.table, firstOf control] l.site fun vs =>
    if (firstOf vs).isNil then .done .broke
    else .heap fun h =>
      let (locals, h) := h.newCells l.locals (adjust 2 vs)
      (h, l.block.enter locals fun () => .done (.again [firstOf vs]))

/-- The stack while the loop runs. -/
def inside (l : TableLoop) : List Frame :=
  .loop l.turn (.done .normal) :: .closing .nil l.next :: l.frames

/-- The end of a turn: the loop goes on after the entry. -/
def again (field : String × Value) : Action := .done (.again [.ofText field.1])

/-- What runs for an entry, with the variables in scope. -/
def visit (l : TableLoop) (locals : Locals) (field : String × Value) : Action :=
  l.block.enter locals fun () => again field

/-- The key after which a loop goes on that has seen some entries. -/
def control (seen : List (String × Value)) : Value :=
  (seen.getLast?.map fun field => Value.ofText field.1).getD .nil

/-- Another call can be made where the loop stands. -/
structure Shallow (l : TableLoop) : Prop where
  depth : (Machine.depths l.frames).1 + 1 < Machine.depthLimit
  nesting : (Machine.depths l.frames).2 + 1 < Machine.nestingLimit

/-- The variables of an entry, new ones in front of those in scope, and the heap with them. -/
def openVariables (l : TableLoop) (field : String × Value) (h : Heap) : Locals × Heap :=
  h.newCells l.locals [.ofText field.1, field.2]

/-- The same loop over another table. -/
def through (l : TableLoop) (table : TableId) : TableLoop := { l with table }

/-- The loop that a statement of a program is, once the values of its expressions are known: the
function `next`, and a table. -/
def ofStatement (a : Activation) (locals : Locals) (body : List Stat) (line : Nat)
    (table : TableId) (frames : List Frame) (next : Action) : TableLoop where
  site := a.site line (some ⟨"for iterator", "for iterator"⟩)
  locals := locals
  block := a.blockOf body
  table := table
  frames := frames
  next := next

/-- The loop with the values of its expressions, before it is known what it goes through. -/
def begin (l : TableLoop) (place : Place) (values : List Value) : Action :=
  Activation.eachLoop place l.site 2 (adjust 4 values) l.locals l.block fun () => l.next

/-- A loop statement over the values of a call finds these values, and then runs the loop. -/
theorem statement_eachLoop (a : Activation) (locals : Locals) (f e : Expr) (body : List Stat)
    (line callLine : Nat) (table : TableId) (frames : List Frame) (next : Unit → Action) :
    a.statement locals (.eachLoop 2 [.call f [e] callLine] body line) next =
      a.values locals f fun fs => a.values locals e fun arguments =>
        Eval.call (a.site callLine f.label?) (firstOf fs) arguments
          ((ofStatement a locals body line table frames (next ())).begin (a.place line)) :=
  rfl

/-- The variables of an entry hold its key and its value. -/
theorem cells_openVariables (l : TableLoop) (field : String × Value) (h : Heap) :
    (l.openVariables field h).2.cell (Activation.localCell (l.openVariables field h).1 1) =
        .ofText field.1 ∧
      (l.openVariables field h).2.cell (Activation.localCell (l.openVariables field h).1 0) =
        field.2 := by
  constructor
  · have there : h.cells.size < (h.cells.push (Value.ofText field.1)).size := by simp
    have first : ((h.cells.push (Value.ofText field.1)).push field.2)[h.cells.size]? =
        some (Value.ofText field.1) := by
      rw [Array.getElem?_push_lt there, Array.getElem_push_eq]
    exact congrArg (fun found => found.getD .nil) first
  · have second : ((h.cells.push (Value.ofText field.1)).push field.2)[
        (h.cells.push (Value.ofText field.1)).size]? = some field.2 := Array.getElem?_push_size
    exact congrArg (fun found => found.getD .nil) second

end TableLoop

namespace Host

variable {mayPause : Bool} {engine : EngineId} {V W : Vault} {l : TableLoop}
  {fields seen rest : List (String × Value)} {field : String × Value}
  {start s t : Surroundings} {opened middle : Heap}

theorem comes_start (place : Place) :
    Comes mayPause engine
      (s.moment l.frames (l.begin place [.builtin (.base .next), .table l.table, .nil]))
      (s.moment l.inside (l.turn [.nil])) :=
  .head (.step rfl) (.head (.step rfl) .refl)

theorem comes_over : Comes mayPause engine (s.moment l.inside (.done .broke))
    (s.moment l.frames l.next) :=
  .head (.step rfl) (.head (.step rfl) .refl)

theorem comes_raised {thrown : Thrown} : Comes mayPause engine
    (s.moment l.inside (.raise thrown)) (s.moment l.frames (.raise thrown)) :=
  .head (.step rfl) (.head (.step rfl) .refl)

theorem comes_again (room : Machine.fits t.heap 0 = (true, middle)) :
    Comes mayPause engine (t.moment l.inside (TableLoop.again field))
      ((t.withHeap middle).moment l.inside (l.turn [.ofText field.1])) := by
  have stepped : Machine.step setting t.store ⟨l.inside, t.waiting⟩ (TableLoop.again field) =
      .next (t.withHeap middle).store ⟨l.inside, t.waiting⟩ (l.turn [.ofText field.1]) := by
    change Step.next ⟨(Machine.withRoom t.heap 0 _).1, _⟩ _ (Machine.withRoom t.heap 0 _).2 = _
    rw [Machine.withRoom, room]
    rfl
  exact .head (.step stepped) .refl

theorem comes_again_full (full : Machine.fits t.heap 0 = (false, middle)) :
    Comes mayPause engine (t.moment l.inside (TableLoop.again field))
      ((t.withHeap middle).moment l.frames (.raise .outOfMemory)) := by
  have stepped : Machine.step setting t.store ⟨l.inside, t.waiting⟩ (TableLoop.again field) =
      .next (t.withHeap middle).store ⟨l.inside, t.waiting⟩ (.raise .outOfMemory) := by
    change Step.next ⟨(Machine.withRoom t.heap 0 _).1, _⟩ _ (Machine.withRoom t.heap 0 _).2 = _
    rw [Machine.withRoom, full]
    rfl
  exact .head (.step stepped) comes_raised

/-- What runs for an entry keeps secrets. -/
def SafeVisits (V : Vault) (l : TableLoop) : Prop :=
  ∀ (W : Vault) h (field : String × Value), V.Later W → W.Guards h → W.Shares field.2 →
    (W.on (l.openVariables field h).2).Safe (l.visit (l.openVariables field h).1 field)

/-- What a loop does with the entries of one table, it does with those of every other. -/
theorem safeVisits_begin {place : Place}
    (safe : ∀ (W : Vault) (values : List Value), V.Later W → W.Shares values →
      W.Safe (l.begin place values)) : SafeVisits V l := by
  intro W h field later guards shared
  have public_ : W.Shares [Value.builtin (.base .next), .table W.globals, .nil] := by
    intro v member
    simp only [List.mem_cons, List.not_mem_nil, or_false] at member
    rcases member with rfl | rfl | rfl
    · trivial
    · exact guards.open_globals
    · trivial
  cases safe W _ later public_ with
  | closing _ looping _ =>
      cases looping with
      | loop _ turns _ =>
          cases turns W [.nil] (.refl W) (Vault.shares_singleton trivial) with
          | call _ _ found =>
              have pair : W.Shares [Value.ofText field.1, field.2] :=
                Vault.shares_pair trivial shared
              cases found W [.ofText field.1, field.2] (.refl W) pair with
              | heap _ visits => exact visits W h (.refl W) guards

/-- Nobody but a loop holds the table that it goes through, and the table has these fields. -/
structure Conceals (V : Vault) (l : TableLoop) (fields : List (String × Value))
    (s : Surroundings) : Prop where
  untended : ¬ V.tended
  safe : s.Safe V
  hidden : V.scope l.table
  lists : (s.heap.table l.table).Lists fields
  visits : SafeVisits V l

namespace Conceals

theorem passes (conceals : Conceals V l fields s) (passes : V.Passes s.heap t.heap)
    (safe : t.Safe (V.on t.heap)) : Conceals (V.on t.heap) l fields t where
  untended := conceals.untended
  safe := safe
  hidden := conceals.hidden
  lists := by
    rw [Surroundings.heap, ← Surroundings.heap, passes.secret _ (.inr conceals.hidden)]
    exact conceals.lists
  visits W h field later :=
    conceals.visits W h field ((conceals.safe.store.guards.later passes).trans later)

theorem withHeap (conceals : Conceals V l fields s) (passes : V.Passes s.heap middle) :
    Conceals (V.on middle) l fields (s.withHeap middle) :=
  conceals.passes (t := s.withHeap middle) passes (conceals.safe.withHeap passes)

theorem shares (conceals : Conceals V l fields s) (member : field ∈ fields) : V.Shares field.2 := by
  obtain ⟨i, found⟩ := List.mem_iff_getElem?.mp member
  have shared := (conceals.safe.store.guards.scope _ conceals.hidden).2 (.ofText field.1)
  rw [Heap.rawGet] at shared
  rw [← conceals.lists.get found]
  exact shared

/-- The variables of an entry are made, and the body runs. -/
theorem visit (conceals : Conceals V l fields s) (member : field ∈ fields)
    (completes : Completes mayPause engine l.inside
      (s.withHeap (l.openVariables field s.heap).2)
      (l.visit (l.openVariables field s.heap).1 field) (TableLoop.again field) t) :
    ∃ W, V.Later W ∧ Conceals W l fields t := by
  have shared : V.Shares [Value.ofText field.1, field.2] :=
    Vault.shares_pair trivial (conceals.shares member)
  have made := conceals.safe.store.guards.newCells l.locals shared
  have within := conceals.withHeap made
  have safe : (V.on (l.openVariables field s.heap).2).Safe
      (l.visit (l.openVariables field s.heap).1 field) :=
    conceals.visits V s.heap field (.refl V) conceals.safe.store.guards (conceals.shares member)
  obtain ⟨ran, last⟩ := completes.passes within.untended within.safe safe
  have later := conceals.safe.store.guards.later made
  exact ⟨_, later.trans (within.safe.store.guards.later ran), within.passes ran last⟩

end Conceals

/-- A loop that began in some surroundings has seen some entries, and the rest is before it. -/
inductive Rounds (mayPause : Bool) (engine : EngineId) (l : TableLoop)
    (fields : List (String × Value)) (start : Surroundings) :
    List (String × Value) → List (String × Value) → Surroundings → Prop where
  | start : Rounds mayPause engine l fields start [] fields start
  | next {seen rest field s t opened reopened} :
      Rounds mayPause engine l fields start seen (field :: rest) s →
      Machine.fits s.heap 0 = (true, opened) →
      Completes mayPause engine l.inside (s.withHeap (l.openVariables field opened).2)
        (l.visit (l.openVariables field opened).1 field) (TableLoop.again field) t →
      Machine.fits t.heap 0 = (true, reopened) →
      Rounds mayPause engine l fields start (seen ++ [field]) rest (t.withHeap reopened)

namespace Rounds

theorem split (rounds : Rounds mayPause engine l fields start seen rest s) :
    seen ++ rest = fields := by
  induction rounds with
  | start => rfl
  | next _ _ _ _ ih => rw [← ih, List.append_assoc, List.singleton_append]

theorem conceals (rounds : Rounds mayPause engine l fields start seen rest s)
    (conceals : Conceals V l fields start) : ∃ W, V.Later W ∧ Conceals W l fields s := by
  induction rounds with
  | start => exact ⟨V, .refl V, conceals⟩
  | @next seen rest field s t opened reopened before room completes more ih =>
      obtain ⟨W, later, within⟩ := ih
      have member : field ∈ fields := by
        rw [← before.split]
        exact List.mem_append_right _ List.mem_cons_self
      have fitted := within.safe.store.guards.fits 0
      rw [show s.store.heap = s.heap from rfl, room] at fitted
      obtain ⟨X, further, visited⟩ := (within.withHeap fitted).visit member completes
      have refitted := visited.safe.store.guards.fits 0
      rw [show t.store.heap = t.heap from rfl, more] at refitted
      refine ⟨_, ?_, visited.withHeap refitted⟩
      exact later.trans ((within.safe.store.guards.later fitted).trans
        (further.trans (visited.safe.store.guards.later refitted)))

/-- A turn asks for the entry after those that have been seen. -/
theorem comes_found (rounds : Rounds mayPause engine l fields start seen rest s)
    (conceals : Conceals V l fields start) (shallow : l.Shallow)
    (room : Machine.fits s.heap 0 = (true, opened)) {next : List Value → Action}
    (turns : l.turn [TableLoop.control seen] =
      .call (.builtin (.base .next)) [.table l.table, TableLoop.control seen] l.site next) :
    Comes mayPause engine (s.moment l.inside (l.turn [TableLoop.control seen]))
      ((s.withHeap opened).moment l.inside (next (Library.nextValues
        (rest.head?.map fun field => (.ofText field.1, field.2))))) := by
  obtain ⟨W, _, within⟩ := rounds.conceals conceals
  have fitted := within.safe.store.guards.fits 0
  rw [show s.store.heap = s.heap from rfl, room] at fitted
  have lists := (within.withHeap fitted).lists
  rw [← rounds.split] at lists
  have depth : (Machine.depths l.inside).1 + 1 < Machine.depthLimit := shallow.depth
  have nesting : (Machine.depths l.inside).2 + 1 < Machine.nestingLimit := shallow.nesting
  rw [turns]
  exact comes_next depth nesting room lists.entryAfter

/-- The next turn makes the variables of the next entry. -/
theorem comes_visit (rounds : Rounds mayPause engine l fields start seen (field :: rest) s)
    (conceals : Conceals V l fields start) (shallow : l.Shallow)
    (room : Machine.fits s.heap 0 = (true, opened)) :
    Comes mayPause engine (s.moment l.inside (l.turn [TableLoop.control seen]))
      ((s.withHeap (l.openVariables field opened).2).moment l.inside
        (l.visit (l.openVariables field opened).1 field)) :=
  (rounds.comes_found conceals shallow room rfl).trans (.head (.step rfl) .refl)

/-- After the last entry a turn ends the loop. -/
theorem comes_end (rounds : Rounds mayPause engine l fields start seen [] s)
    (conceals : Conceals V l fields start) (shallow : l.Shallow)
    (room : Machine.fits s.heap 0 = (true, opened)) :
    Comes mayPause engine (s.moment l.inside (l.turn [TableLoop.control seen]))
      ((s.withHeap opened).moment l.frames l.next) :=
  (rounds.comes_found conceals shallow room rfl).trans comes_over

theorem comes (rounds : Rounds mayPause engine l fields start seen rest s)
    (conceals : Conceals V l fields start) (shallow : l.Shallow) :
    Comes mayPause engine (start.moment l.inside (l.turn [.nil]))
      (s.moment l.inside (l.turn [TableLoop.control seen])) := by
  induction rounds with
  | start => exact .refl
  | @next seen rest field s t opened reopened before room completes more ih =>
      have turned := before.comes_visit conceals shallow room
      have visited := completes l.inside ⟨rfl, rfl, rfl⟩
      have control : TableLoop.control (seen ++ [field]) = .ofText field.1 := by
        rw [TableLoop.control, List.getLast?_concat]
        rfl
      rw [control]
      exact ih.trans (turned.trans (visited.trans (comes_again more)))

/-- When the body has completed for an entry, there is one more round behind the loop. -/
theorem goesOn (rounds : Rounds mayPause engine l fields start seen (field :: rest) s)
    (room : Machine.fits s.heap 0 = (true, opened))
    (completes : Completes mayPause engine l.inside (s.withHeap (l.openVariables field opened).2)
      (l.visit (l.openVariables field opened).1 field) (TableLoop.again field) t) :
    match Machine.fits t.heap 0 with
    | (true, reopened) =>
      Rounds mayPause engine l fields start (seen ++ [field]) rest (t.withHeap reopened)
    | (false, reopened) =>
      Comes mayPause engine (t.moment l.inside (TableLoop.again field))
        ((t.withHeap reopened).moment l.frames (.raise .outOfMemory)) := by
  cases more : Machine.fits t.heap 0 with
  | mk enough reopened =>
      cases enough with
      | true => exact rounds.next room completes more
      | false => exact comes_again_full more

end Rounds

/-- What comes next in a loop that has seen some entries and has the rest before it: the body for
the next entry or, after the last one, what follows the loop; an error if the memory is full. -/
def Proceeds (mayPause : Bool) (engine : EngineId) (l : TableLoop)
    (seen rest : List (String × Value)) (s : Surroundings) : Prop :=
  Comes mayPause engine (s.moment l.inside (l.turn [TableLoop.control seen]))
    (match Machine.fits s.heap 0, rest with
    | (false, opened), _ => (s.withHeap opened).moment l.frames (.raise .outOfMemory)
    | (true, opened), [] => (s.withHeap opened).moment l.frames l.next
    | (true, opened), field :: _ => (s.withHeap (l.openVariables field opened).2).moment l.inside
        (l.visit (l.openVariables field opened).1 field))

theorem Rounds.proceeds (rounds : Rounds mayPause engine l fields start seen rest s)
    (conceals : Conceals V l fields start) (shallow : l.Shallow) :
    Proceeds mayPause engine l seen rest s := by
  unfold Proceeds
  cases room : Machine.fits s.heap 0 with
  | mk enough opened =>
      cases enough with
      | false =>
          have depth : (Machine.depths l.inside).1 + 1 < Machine.depthLimit := shallow.depth
          have nesting : (Machine.depths l.inside).2 + 1 < Machine.nestingLimit := shallow.nesting
          have failed : Comes mayPause engine
              (s.moment l.inside (l.turn [TableLoop.control seen])) _ :=
            comes_next_full depth nesting room
          exact failed.trans comes_raised
      | true =>
          cases rest with
          | nil => exact rounds.comes_end conceals shallow room
          | cons field rest => exact rounds.comes_visit conceals shallow room

/-- A body that always completes, with memory enough, lets the loop see all entries. -/
theorem Rounds.all (rounds : Rounds mayPause engine l fields start seen rest s)
    (each : ∀ seen field rest s, Rounds mayPause engine l fields start seen (field :: rest) s →
      ∃ opened t reopened, Machine.fits s.heap 0 = (true, opened) ∧
        Completes mayPause engine l.inside (s.withHeap (l.openVariables field opened).2)
          (l.visit (l.openVariables field opened).1 field) (TableLoop.again field) t ∧
        Machine.fits t.heap 0 = (true, reopened)) :
    ∃ last, Rounds mayPause engine l fields start fields [] last := by
  induction rest generalizing seen s with
  | nil =>
      have split := rounds.split
      rw [List.append_nil] at split
      exact ⟨s, split ▸ rounds⟩
  | cons field rest ih =>
      obtain ⟨opened, t, reopened, room, completes, more⟩ := each seen field rest s rounds
      exact ih (rounds.next room completes more)

/-- A loop that starts at the first of its entries comes to each of them, once and to no other,
whatever its body does to anything that it can reach. -/
structure VisitsAll (mayPause : Bool) (engine : EngineId) (l : TableLoop)
    (fields : List (String × Value)) (start : Surroundings) : Prop where
  split : ∀ {seen rest s}, Rounds mayPause engine l fields start seen rest s → seen ++ rest = fields
  comes : ∀ {seen rest s}, Rounds mayPause engine l fields start seen rest s →
    Comes mayPause engine (start.moment l.inside (l.turn [.nil]))
      (s.moment l.inside (l.turn [TableLoop.control seen]))
  proceeds : ∀ {seen rest s}, Rounds mayPause engine l fields start seen rest s →
    Proceeds mayPause engine l seen rest s
  /-- A body that completes leads to the next round, unless the memory is full. -/
  goesOn : ∀ {field seen rest s t opened}, Rounds mayPause engine l fields start seen (field :: rest) s →
    Machine.fits s.heap 0 = (true, opened) →
    Completes mayPause engine l.inside (s.withHeap (l.openVariables field opened).2)
      (l.visit (l.openVariables field opened).1 field) (TableLoop.again field) t →
    match Machine.fits t.heap 0 with
    | (true, reopened) =>
      Rounds mayPause engine l fields start (seen ++ [field]) rest (t.withHeap reopened)
    | (false, reopened) =>
      Comes mayPause engine (t.moment l.inside (TableLoop.again field))
        ((t.withHeap reopened).moment l.frames (.raise .outOfMemory))
  /-- The variables of the body hold the key and the value of the entry. -/
  holds : ∀ (field : String × Value) (h : Heap),
    (l.openVariables field h).2.cell (Activation.localCell (l.openVariables field h).1 1) =
        .ofText field.1 ∧
      (l.openVariables field h).2.cell (Activation.localCell (l.openVariables field h).1 0) = field.2

theorem Conceals.visitsAll (conceals : Conceals V l fields start) (shallow : l.Shallow) :
    VisitsAll mayPause engine l fields start where
  split rounds := rounds.split
  comes rounds := rounds.comes conceals shallow
  proceeds rounds := rounds.proceeds conceals shallow
  goesOn rounds := rounds.goesOn
  holds := l.cells_openVariables

end Host

end ScriptHost
