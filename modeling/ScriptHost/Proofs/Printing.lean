import ScriptHost.Proofs.Conversation
import ScriptHost.Proofs.HeapFrame

/-!
# Printing

What printing texts comes to: one line is written to the output of the engine, or nothing at all.
-/

set_option autoImplicit false

namespace ScriptHost.Lua

/-- Texts are printed as they are: they have no metamethod that makes other texts of them. -/
def Heap.PlainTexts (h : Heap) : Prop :=
  ∀ m, h.stringMetatable? = some m → h.rawGetText m "__tostring" = .nil

namespace Heap.PlainTexts

variable {h : Heap}

theorem metamethod (plain : h.PlainTexts) (s : ByteArray) :
    h.metamethod (.string s) "__tostring" = .nil := by
  cases linked : h.stringMetatable? with
  | none => simp [Heap.metamethod, Heap.metatable?, linked]
  | some m => simp [Heap.metamethod, Heap.metatable?, linked, plain m linked]

theorem fits (plain : h.PlainTexts) (bytes : Nat) : (Machine.fits h bytes).2.PlainTexts := by
  unfold Machine.fits
  split
  · exact plain
  · split
    · exact plain
    · intro m linked
      refine (rawGetText_collect true fun marks => ?_).trans (plain m linked)
      rw [plain m linked]
      rfl

end Heap.PlainTexts

/-- What printing texts writes: the texts with tabs between them, and a line feed. -/
def printedLine (texts : List ByteArray) : List UInt8 :=
  ([9] : List UInt8).intercalate (texts.map ByteArray.toList) ++ [10]

theorem printedLine_singleton (s : ByteArray) : printedLine [s] = s.toList ++ [10] := by
  simp [printedLine, List.intercalate]

theorem printedLine_cons_cons (s t : ByteArray) (texts : List ByteArray) :
    printedLine (s :: t :: texts) = s.toList ++ 9 :: printedLine (t :: texts) := by
  simp [printedLine, List.intercalate]

variable {α β : Type} {setting : Library.Setting} {calls bound more : Nat} {h : Heap}

/-- A part of an action comes to a value within so many steps, unless the memory runs out. It
leaves texts to be printed as they are. -/
def Yields (setting : Library.Setting) (calls bound : Nat) (h : Heap) (m : Eval α) (a : α) : Prop :=
  ∃ steps outcome after, Evaluates setting calls steps h m outcome after ∧ steps ≤ bound ∧
    after.PlainTexts ∧ after.limit? = h.limit? ∧
    (outcome = .ok a ∨ outcome = .error .outOfMemory ∧ h.limit? ≠ none)

namespace Yields

theorem bind {m : Eval α} {f : α → Eval β} {a : α} {b : β}
    (first : Yields setting calls bound h m a)
    (rest : ∀ middle : Heap, middle.PlainTexts → middle.limit? = h.limit? →
      Yields setting calls more middle (f a) b) :
    Yields setting calls (bound + more) h (m >>= f) b := by
  obtain ⟨steps, outcome, middle, evaluates, few, plain, limit, rfl | ⟨rfl, limited⟩⟩ := first
  · obtain ⟨steps', outcome, after, evaluates', few', plain, limit', result⟩ := rest middle plain limit
    refine ⟨steps + steps', outcome, after, evaluates.bind evaluates', by omega, plain,
      limit'.trans limit, ?_⟩
    rwa [limit] at result
  · exact ⟨steps, _, middle, evaluates.bind_error, by omega, plain, limit, .inr ⟨rfl, limited⟩⟩

theorem pure (plain : h.PlainTexts) (a : α) : Yields setting calls 0 h (Pure.pure a) a :=
  ⟨0, _, h, Evaluates.pure a, Nat.le_refl _, plain, rfl, .inl rfl⟩

theorem tostring (plain : h.PlainTexts) (s : ByteArray) :
    Yields setting 1 6 h (Library.hostCall (.builtin (.base .tostring)) [.string s]) [.string s] := by
  have room := plain.fits 0
  have limit := Heap.limit?_fits h 0
  cases fits : Machine.fits h 0 with
  | mk enough middle =>
      rw [fits] at room limit
      cases enough with
      | true =>
          have text : Evaluates setting 0 (1 + 1) middle (Operation.toText (.string s)) (.ok s)
              middle := by
            refine (Evaluates.read fun h => h.metamethod (.string s) "__tostring").bind ?_
            rw [room.metamethod]
            exact Evaluates.read fun h => Operation.plainText h (.string s)
          have called : Evaluates setting 1 4 h
              (Eval.callBack (.builtin (.base .tostring)) [.string s]) (.ok [.string s]) middle :=
            Evaluates.call_builtin
              (show Library.run setting _ _ [] _ =
                Eval.run (do return [.string (← Operation.toText (.string s))]) from rfl)
              fits (text.map fun t => [Value.string t])
          exact ⟨6, _, middle, called.hostCall, Nat.le_refl _, room, limit, .inl rfl⟩
      | false =>
          have limited := Heap.limit?_ne_none_of_fits fits
          have failed : Evaluates setting 1 2 h
              (Eval.callBack (.builtin (.base .tostring)) [.string s]) (.error .outOfMemory) middle :=
            Evaluates.call_outOfMemory rfl fits
          exact ⟨4, _, middle, failed.hostCall_outOfMemory, by omega, room, limit, .inr ⟨rfl, limited⟩⟩

theorem lineOf (texts : List ByteArray) :
    ∀ h : Heap, h.PlainTexts →
      Yields setting 1 (6 * texts.length) h (Library.lineOf (texts.map Value.string))
        (printedLine texts) := by
  induction texts with
  | nil => exact fun h plain => Yields.pure plain [10]
  | cons s rest ih =>
      intro h plain
      have text : Yields setting 1 (6 + 0) h (Library.lineOf.textOf (.string s)) s.toList :=
        (Yields.tostring plain s).bind fun middle plain _ => Yields.pure plain s.toList
      cases rest with
      | nil =>
          have whole : Yields setting 1 (6 + 0 + 0) h (Library.lineOf [.string s])
              (s.toList ++ [10]) :=
            text.bind fun middle plain _ => Yields.pure plain (s.toList ++ [10])
          rw [printedLine_singleton]
          exact whole
      | cons t rest =>
          rw [printedLine_cons_cons]
          have whole : Yields setting 1 (6 + 0 + (6 * (t :: rest).length + 0)) h
              (Library.lineOf ((s :: t :: rest).map Value.string))
              (s.toList ++ 9 :: printedLine (t :: rest)) :=
            text.bind fun middle plain _ => (ih middle plain).bind fun last plain _ =>
              Yields.pure plain (s.toList ++ 9 :: printedLine (t :: rest))
          simp only [List.length_cons] at whole ⊢
          rwa [show 6 * (rest.length + 1 + 1) = 6 + 0 + (6 * (rest.length + 1) + 0) by omega]

end Yields

end ScriptHost.Lua

namespace ScriptHost.Host

open Lua

/-- Prints texts on an engine. -/
def print (h : Host) (engine : EngineId) (texts : List ByteArray) :
    Except EngineError (List Value) × Host :=
  h.callFunction engine (.builtin (.host .print)) (texts.map Value.string)

/-- What printing texts leads to. -/
inductive Printed (h : Host) (engine : EngineId) (texts : List ByteArray) :
    Except EngineError (List Value) × Host → Prop
  /-- The line has been written. -/
  | written {heap : Heap} (plain : heap.PlainTexts)
      (accepted : (h.write (h.output engine) (Utf8.text (printedLine texts))).1 = .ok ()) :
      Printed h engine texts
        (.ok [], (h.write (h.output engine) (Utf8.text (printedLine texts))).2.modifyHeap engine
          fun _ => heap)
  /-- Nothing has been written. -/
  | failed {heap : Heap} (plain : heap.PlainTexts) (error : EngineError)
      (reason : (h.heap engine).limit? ≠ none ∨
        (h.write (h.output engine) (Utf8.text (printedLine texts))).1 ≠ .ok ()) :
      Printed h engine texts (.error error, h.modifyHeap engine fun _ => heap)
  /-- There were not enough steps to come to the end of it. -/
  | unfinished (store : Store) (few : h.stepLimit ≤ 6 * texts.length + 20) :
      Printed h engine texts
        (.error Host.unfinished, h.modifyEngine engine fun e => { e with store })

section

variable {engine : EngineId} {calls steps tail rounds : Nat} {before later : Host} {h after : Heap}

theorem engines_write (before : Host) (stream : Stream) (text : String) :
    (before.write stream text).2.engines = before.engines := by
  unfold write
  split <;> rfl

theorem stepLimit_write (before : Host) (stream : Stream) (text : String) :
    (before.write stream text).2.stepLimit = before.stepLimit := by
  unfold write
  split <;> rfl

theorem write_of_error {before : Host} {stream : Stream} {text : String} {fault : WriteFault}
    (refused : (before.write stream text).1 = .error fault) :
    (before.write stream text).2 = before := by
  unfold write at refused ⊢
  split <;> simp_all

theorem Converses.write {bytes : ByteArray}
    (accepted : (before.write (before.output engine) (Utf8.text bytes.data.toList)).1 = .ok ()) :
    Converses engine calls 1 0 1 before h (Library.write bytes) (.ok ()) h
      (before.write (before.output engine) (Utf8.text bytes.data.toList)).2 := by
  have answers : before.reply engine (.write bytes) =
      ((.ok () : Except String Unit),
        (before.write (before.output engine) (Utf8.text bytes.data.toList)).2) := by
    rw [reply]
    exact Prod.ext (congrArg (Except.mapError WriteFault.message) accepted) rfl
  have asked : Converses engine calls 1 0 1 before h (Eval.ask (.write bytes)) (.ok (.ok ())) h _ :=
    .ask answers (engines_write ..) (stepLimit_write ..)
  have whole : Converses engine calls (1 + 0) (max (0 + 0) 0) (0 + 1) before h (Library.write bytes)
      (.ok ()) h (before.write (before.output engine) (Utf8.text bytes.data.toList)).2 :=
    asked.bind ((Evaluates.pure ()).converses engine _)
  exact whole

theorem Converses.write_error {bytes : ByteArray} {fault : WriteFault}
    (refused : (before.write (before.output engine) (Utf8.text bytes.data.toList)).1 =
      .error fault) :
    Converses engine calls 2 1 1 before h (Library.write bytes)
      (.error (.error (.userdata (h.newUserdata (.failure (.host fault.message))).1)))
      (h.newUserdata (.failure (.host fault.message))).2 before := by
  have answers : before.reply engine (.write bytes) =
      ((.error fault.message : Except String Unit), before) := by
    rw [reply]
    exact Prod.ext (congrArg (Except.mapError WriteFault.message) refused) (write_of_error refused)
  have asked : Converses engine calls 1 0 1 before h (Eval.ask (.write bytes))
      (.ok (.error fault.message)) h before := .ask answers rfl rfl
  have fails : Evaluates setting calls 1 h (Eval.failure (.host fault.message) : Eval Unit)
      (.error (.error (.userdata (h.newUserdata (.failure (.host fault.message))).1)))
      (h.newUserdata (.failure (.host fault.message))).2 := .failure (by simp)
  have whole : Converses engine calls (1 + 1) (max (0 + 1) 0) (0 + 1) before h (Library.write bytes)
      (.error (.error (.userdata (h.newUserdata (.failure (.host fault.message))).1)))
      (h.newUserdata (.failure (.host fault.message))).2 before :=
    asked.bind (fails.converses engine before)
  exact whole

/-- The failure of a function called for a host is raised anew. -/
theorem Converses.hostCall_failure {f : Value} {arguments : List Value} {id : UserdataId}
    {failure : Failure}
    (inner : Converses engine calls steps tail rounds before h (Eval.callBack f arguments)
      (.error (.error (.userdata id))) after later)
    (known : after.resource? id = some (.failure failure)) (ordinary : failure ≠ .memory) :
    Converses engine calls (steps + 4) (tail + 3) rounds before h (Library.hostCall f arguments)
      (.error (.error (.userdata (after.newUserdata (.failure failure)).1)))
      (after.newUserdata (.failure failure)).2 later := by
  have reported : Evaluates setting calls (1 + 0) after
      (Library.failureOf (.error (.userdata id))) (.ok failure) after := by
    refine (Evaluates.read fun h => Library.failure? h (.userdata id)).bind ?_
    simp only [Library.failure?, known]
    exact Evaluates.pure failure
  have fails : Evaluates setting calls 1 after (Eval.failure failure : Eval (List Value))
      (.error (.error (.userdata (after.newUserdata (.failure failure)).1)))
      (after.newUserdata (.failure failure)).2 := .failure ordinary
  have whole : Converses engine calls (steps + 2 + (1 + 0 + 1)) (max (tail + 1 + (1 + 0 + 1)) 0)
      (0 + rounds) before h (Library.hostCall f arguments)
      (.error (.error (.userdata (after.newUserdata (.failure failure)).1)))
      (after.newUserdata (.failure failure)).2 later :=
    inner.protect.bind ((reported.bind fails).converses engine later)
  simpa using whole

end

theorem exists_outcome_error (h : Host) (engine : EngineId) (thrown : Thrown) :
    ∃ e, h.outcome engine (.ended (.error thrown)) = .error e := by
  cases thrown with
  | outOfMemory => exact ⟨_, rfl⟩
  | error v =>
      simp only [outcome]
      split <;> exact ⟨_, rfl⟩

theorem toList_printedLine (texts : List ByteArray) :
    (printedLine texts).toByteArray.data.toList = printedLine texts := by
  simp

section

variable {h : Host} {engine : EngineId} {texts : List ByteArray} {after : Heap}

/-- A call that ends with an error, for want of memory or because the output cannot be written to. -/
theorem printed_of_error {steps tail rounds : Nat} {thrown : Thrown} (plain : after.PlainTexts)
    (reason : (h.heap engine).limit? ≠ none ∨
      (h.write (h.output engine) (Utf8.text (printedLine texts))).1 ≠ .ok ())
    (fails : Converses engine 2 steps tail rounds h (h.heap engine)
      (Library.hostCall (.builtin (.host .print)) (texts.map Value.string)) (.error thrown) after h)
    (few : steps ≤ 6 * texts.length + 20) (lasting : tail < 10000) (seldom : rounds < 10000) :
    Printed h engine texts (h.print engine texts) := by
  have large := h.stepLimit_large
  rcases perform_of_converses fails (by decide) (by omega) (by omega) with
    ended | ⟨short, store, unfinished⟩
  · obtain ⟨e, outcome⟩ := exists_outcome_error (h.modifyHeap engine fun _ => after) engine thrown
    rw [print, callFunction, ended, outcome]
    exact .failed plain e reason
  · rw [print, callFunction, unfinished]
    exact .unfinished store (by omega)

theorem printed_of_line {steps : Nat} {entered : Heap}
    (fits : Machine.fits (h.heap engine) 0 = (true, entered)) (plain : after.PlainTexts)
    (line : Evaluates setting 1 steps entered (Library.lineOf (texts.map Value.string))
      (.ok (printedLine texts)) after)
    (few : steps ≤ 6 * texts.length) : Printed h engine texts (h.print engine texts) := by
  have large := h.stepLimit_large
  have bytes := toList_printedLine texts
  cases sent : (h.write (h.output engine) (Utf8.text (printedLine texts))).1 with
  | ok _ =>
      have written : Converses engine 1 1 0 1 h after
          (Library.write (printedLine texts).toByteArray) (.ok ()) after
          (h.write (h.output engine) (Utf8.text (printedLine texts).toByteArray.data.toList)).2 :=
        .write (by rw [bytes]; exact sent)
      rw [bytes] at written
      have body : Converses engine 1 (steps + (1 + 0)) (max (0 + (1 + 0)) (max (0 + 0) 0)) (0 + 1 + 0) h
          entered (Library.print ⟨Library.nameOf (.host .print), texts.map Value.string⟩) (.ok [])
          after (h.write (h.output engine) (Utf8.text (printedLine texts))).2 :=
        (line.converses engine h).bind (written.bind ((Evaluates.pure []).converses engine _))
      have called : Converses engine 2 (steps + (1 + 0) + 2) (max (0 + (1 + 0)) (max (0 + 0) 0) + 1)
          (0 + 1 + 0) h (h.heap engine)
          (Eval.callBack (.builtin (.host .print)) (texts.map Value.string)) (.ok []) after
          (h.write (h.output engine) (Utf8.text (printedLine texts))).2 :=
        Converses.call_builtin rfl fits body
      rcases perform_of_converses called.hostCall (by decide) (by omega) (by omega) with
        ended | ⟨short, store, unfinished⟩
      · rw [print, callFunction, ended]
        exact .written plain sent
      · rw [print, callFunction, unfinished]
        exact .unfinished store (by omega)
  | error fault =>
      let failure : Failure := .host fault.message
      let first := after.newUserdata (.failure failure)
      let last := first.2.newUserdata (.failure failure)
      have refused : Converses engine 1 2 1 1 h after
          (Library.write (printedLine texts).toByteArray) (.error (.error (.userdata first.1)))
          first.2 h :=
        Converses.write_error (by rw [bytes]; exact sent)
      have body : Converses engine 1 (steps + 2) (max (0 + 2) 1) (1 + 0) h entered
          (Library.print ⟨Library.nameOf (.host .print), texts.map Value.string⟩)
          (.error (.error (.userdata first.1))) first.2 h :=
        (line.converses engine h).bind refused.bind_error
      have called : Converses engine 2 (steps + 2 + 2) (max (0 + 2) 1 + 1) (1 + 0) h (h.heap engine)
          (Eval.callBack (.builtin (.host .print)) (texts.map Value.string))
          (.error (.error (.userdata first.1))) first.2 h :=
        Converses.call_builtin rfl fits body
      have known : first.2.resource? first.1 = some (.failure failure) := by
        simp [first, Heap.newUserdata, Heap.resource?]
      have plainLast : last.2.PlainTexts := plain
      exact printed_of_error plainLast (.inr (by simp [sent]))
        (called.hostCall_failure known (by simp [failure])) (by omega) (by decide) (by decide)

end

/-- Printing writes one line to the output of the engine or fails without writing anything. -/
theorem print_printed (h : Host) (engine : EngineId) (texts : List ByteArray)
    (plain : (h.heap engine).PlainTexts) : Printed h engine texts (h.print engine texts) := by
  have large := h.stepLimit_large
  have roomy := plain.fits 0
  have limit := Heap.limit?_fits (h.heap engine) 0
  cases fits : Machine.fits (h.heap engine) 0 with
  | mk enough entered =>
      rw [fits] at roomy limit
      cases enough with
      | false =>
          have limited := Heap.limit?_ne_none_of_fits fits
          have failed : Evaluates setting 2 2 (h.heap engine)
              (Eval.callBack (.builtin (.host .print)) (texts.map Value.string))
              (.error .outOfMemory) entered := Evaluates.call_outOfMemory rfl fits
          exact printed_of_error roomy (.inl limited)
            (failed.hostCall_outOfMemory.converses engine h) (by omega) (by decide) (by decide)
      | true =>
          obtain ⟨steps, outcome, after, line, few, plain, limit', result⟩ :=
            @Yields.lineOf setting texts entered roomy
          rcases result with rfl | ⟨rfl, limited⟩
          · exact printed_of_line fits plain line few
          · have failed : Evaluates setting 2 (steps + 2) (h.heap engine)
                (Eval.callBack (.builtin (.host .print)) (texts.map Value.string))
                (.error .outOfMemory) after :=
              Evaluates.call_builtin
                (show Library.run setting _ _ [] _ = Eval.run (Library.print
                  ⟨Library.nameOf (.host .print), texts.map Value.string⟩) from rfl)
                fits line.bind_error
            rw [limit] at limited
            exact printed_of_error plain (.inl limited)
              (failed.hostCall_outOfMemory.converses engine h) (by omega) (by decide) (by decide)

end ScriptHost.Host
