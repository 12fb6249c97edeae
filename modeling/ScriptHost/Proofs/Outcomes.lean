import ScriptHost.Proofs.Endings

/-!
# Scripts that come to a value

A part of a script that asks for nothing out of the ordinary comes to a value, unless the memory
of its engine is limited and runs out. It may make new objects, but no field changes.
-/

set_option autoImplicit false

namespace ScriptHost

open Lua

namespace Host

variable {α β : Type} {engine : EngineId} {calls bound more rounds rounds' : Nat}
  {before : Host} {h : Heap}

/-- A part of a script comes to a value with a property, or the memory runs out. -/
def Attains (engine : EngineId) (calls bound rounds : Nat) (before : Host) (h : Heap) (m : Eval α)
    (property : α → Heap → Host → Prop) : Prop :=
  ∃ steps tail asked outcome after later,
    Converses engine calls steps tail asked before h m outcome after later ∧
      steps ≤ bound ∧ tail ≤ bound ∧ asked ≤ rounds ∧ Heap.Extends h after ∧
      ((∃ a, outcome = .ok a ∧ property a after later) ∨
        outcome = .error .outOfMemory ∧ h.limit? ≠ none)

/-- The outcome is a value with a property, or the memory has run out. What was there is there. -/
def Attained (h : Heap) (property : α → Heap → Host → Prop) (outcome : Except Thrown α)
    (after : Heap) (later : Host) : Prop :=
  Heap.Extends h after ∧ ((∃ a, outcome = .ok a ∧ property a after later) ∨
    outcome = .error .outOfMemory ∧ h.limit? ≠ none)

theorem Attained.extends {middle after : Heap} {property : α → Heap → Host → Prop}
    {outcome : Except Thrown α} {later : Host} (extends_ : Heap.Extends h middle)
    (attained : Attained middle property outcome after later) :
    Attained h property outcome after later := by
  obtain ⟨extends', ends⟩ := attained
  rw [extends_.limit?] at ends
  exact ⟨extends_.trans extends', ends⟩

namespace Attains

variable {m : Eval α} {property : α → Heap → Host → Prop}

theorem iff_ends : Attains engine calls bound rounds before h m property ↔
    Ends engine calls bound rounds before h m (Attained h property) :=
  Iff.rfl

/-- What is attained on a heap is attained as seen from a heap that it extends. -/
theorem ends {middle : Heap} (extends_ : Heap.Extends h middle)
    (attains : Attains engine calls bound rounds before middle m property) :
    Ends engine calls bound rounds before middle m (Attained h property) :=
  (iff_ends.mp attains).mono (Nat.le_refl _) (Nat.le_refl _) fun _ _ _ => .extends extends_

theorem ofEvaluates {steps : Nat} {a : α} {after : Heap}
    (settles : Evaluates setting calls steps h m (.ok a) after) (extends_ : Heap.Extends h after)
    (holds : property a after before) : Attains engine calls steps 0 before h m property :=
  iff_ends.mpr (.ofEvaluates settles ⟨extends_, .inl ⟨a, rfl, holds⟩⟩)

theorem pure {a : α} (holds : property a h before) :
    Attains engine calls 0 0 before h (Pure.pure a) property :=
  ofEvaluates (.pure a) (.refl h) holds

theorem bind {f : α → Eval β} {result : β → Heap → Host → Prop}
    (first : Attains engine calls bound rounds before h m property)
    (rest : ∀ a middle between, Heap.Extends h middle → property a middle between →
      Attains engine calls more rounds' between middle (f a) result) :
    Attains engine calls (bound + more) (rounds + rounds') before h (m >>= f) result := by
  refine iff_ends.mpr ((iff_ends.mp first).bind ?_ ?_)
  · rintro a middle between ⟨extends_, ⟨_, same, holds⟩ | ⟨none, _⟩⟩
    · cases same
      exact (rest a middle between extends_ holds).ends extends_
    · cases none
  · rintro thrown middle between ⟨extends_, ⟨_, none, _⟩ | ⟨same, limited⟩⟩
    · cases none
    · cases same
      exact ⟨extends_, .inr ⟨rfl, limited⟩⟩

theorem afterwards {f : α → Eval β} {result : β → Heap → Host → Prop} {steps : Nat} {a : α}
    {middle : Heap} (settles : Evaluates setting calls steps h m (.ok a) middle)
    (extends_ : Heap.Extends h middle)
    (rest : Attains engine calls more rounds before middle (f a) result) :
    Attains engine calls (steps + more) rounds before h (m >>= f) result :=
  iff_ends.mpr (.afterwards settles (rest.ends extends_))

theorem answered {request : Request} {f : request.Reply → Eval β}
    {result : β → Heap → Host → Prop} {answer : request.Reply} {later : Host}
    (answers : before.reply engine request = (answer, later))
    (engines : later.engines = before.engines) (stepLimit : later.stepLimit = before.stepLimit)
    (rest : Attains engine calls bound rounds later h (f answer) result) :
    Attains engine calls (1 + bound) (1 + rounds) before h (Eval.ask request >>= f) result :=
  iff_ends.mpr (.answered answers engines stepLimit (iff_ends.mp rest))

theorem mono {result : α → Heap → Host → Prop}
    (attains : Attains engine calls bound rounds before h m property)
    (few : bound ≤ more) (seldom : rounds ≤ rounds')
    (weaker : ∀ a after later, Heap.Extends h after → property a after later →
      result a after later) : Attains engine calls more rounds' before h m result := by
  refine iff_ends.mpr ((iff_ends.mp attains).mono few seldom ?_)
  rintro outcome after later ⟨extends_, ⟨a, rfl, holds⟩ | full⟩
  · exact ⟨extends_, .inl ⟨a, rfl, weaker a after later extends_ holds⟩⟩
  · exact ⟨extends_, .inr full⟩

theorem call {f : Value} {arguments : List Value} {site : Site}
    {result : List Value → Heap → Host → Prop} (values : α → List Value)
    (body : Machine.body? setting h f arguments = some (m fun a => .done (.returned (values a))))
    (inner : ∀ middle, Heap.Extends h middle →
      Attains engine calls bound rounds before middle m fun a => result (values a)) :
    Attains engine (calls + 1) (bound + 2) rounds before h (Eval.call site f arguments) result := by
  refine iff_ends.mpr (.call values body (fun middle opened => ?_) fun after opened limited =>
    ⟨opened, .inr ⟨rfl, limited⟩⟩)
  refine ((inner middle opened).ends opened).mono (Nat.le_refl _) (Nat.le_refl _) ?_
  rintro outcome after later ⟨extends_, ⟨a, rfl, holds⟩ | ⟨rfl, limited⟩⟩
  · exact ⟨extends_, .inl ⟨values a, rfl, holds⟩⟩
  · exact ⟨extends_, .inr ⟨rfl, limited⟩⟩

theorem hostCall {f : Value} {arguments : List Value} {result : List Value → Heap → Host → Prop}
    (inner : Attains engine calls bound rounds before h (Eval.callBack f arguments) result) :
    Attains engine calls (bound + 2) rounds before h (Library.hostCall f arguments) result := by
  obtain ⟨steps, tail, asked, outcome, after, later, settles, few, short, seldom, extends_,
    ⟨values, rfl, holds⟩ | ⟨rfl, limited⟩⟩ := inner
  · exact ⟨_, _, _, _, after, later, settles.hostCall, by omega, by omega, seldom, extends_,
      .inl ⟨values, rfl, holds⟩⟩
  · have raised : Converses engine calls 0 0 0 later after
        (Eval.raise .outOfMemory : Eval (List Value)) (.error .outOfMemory) after later :=
      (Evaluates.raise .outOfMemory).converses engine later
    have whole : Converses engine calls (steps + 2 + 0) (max (tail + 1 + 0) 0) (0 + asked) before h
        (Library.hostCall f arguments) (.error .outOfMemory) after later :=
      settles.protect.bind raised
    exact ⟨_, _, _, _, after, later, whole, by omega, by omega, by omega, extends_,
      .inr ⟨rfl, limited⟩⟩

end Attains

theorem perform_of_attains {h : Host} {script : Eval (List Value)}
    {property : List Value → Heap → Host → Prop}
    (attains : Attains engine calls bound rounds h (h.heap engine) script property)
    (flat : calls < Machine.nestingLimit) (few : bound < 10000) (seldom : rounds < 10000) :
    (∃ values after, ∃ later : Host, h.perform engine script =
        (.ok values, later.modifyHeap engine fun _ => after) ∧
      Heap.Extends (h.heap engine) after ∧ later.engines = h.engines ∧
        property values after later) ∨
    (h.heap engine).limit? ≠ none ∧
      ∃ after, ∃ later : Host, h.perform engine script =
        (.error (.ofRun .memory), later.modifyHeap engine fun _ => after) := by
  obtain ⟨steps, tail, asked, outcome, after, later, settles, few', short, seldom', extends_, ends⟩ :=
    attains
  have large := h.stepLimit_large
  rcases perform_of_converses settles flat (by omega) (by omega) with performed | ⟨shortage, _⟩
  · rcases ends with ⟨values, rfl, holds⟩ | ⟨rfl, limited⟩
    · exact .inl ⟨values, after, later, performed, extends_, settles.engines, holds⟩
    · exact .inr ⟨limited, after, later, performed⟩
  · omega

end Host

end ScriptHost
