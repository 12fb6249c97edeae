import Mathlib.Data.List.Forall2
import ScriptHost.Proofs.Delivery

/-!
# Writing values

What a call that writes strings and numbers comes to: their texts reach the output of the engine
one after another, each of them repaired on its own.
-/

set_option autoImplicit false

namespace ScriptHost

open Lua

namespace Lua.Value

/-- What is written for a value. -/
inductive Written : Value → ByteArray → Prop
  | string (s : ByteArray) : Written (.string s) s
  | integer (n : Int64) : Written (.integer n) (Number.integerText n).toUTF8
  | float (x : Float) : Written (.float x) (Decimal.plain x).toUTF8

theorem written_strings (texts : List ByteArray) :
    List.Forall₂ Written (texts.map Value.string) texts :=
  List.forall₂_map_left_iff.mpr (List.forall₂_same.mpr fun s _ => .string s)

end Lua.Value

namespace Host

variable {engine : EngineId} {calls : Nat} {h before : Host} {heap : Heap} {values : List Value}
  {texts : List ByteArray} {stream : Stream}

/-- Writes byte strings to a stream one after another. -/
def writeAll (h : Host) (stream : Stream) : List ByteArray → Host
  | [] => h
  | bytes :: rest => writeAll (h.write stream (Utf8.text bytes.data.toList)).2 stream rest

/-- Calls the function that writes values. -/
def writeValues (h : Host) (engine : EngineId) (values : List Value) :
    Except EngineError (List Value) × Host :=
  h.callFunction engine (.builtin (.host .write)) values

theorem output_write (h : Host) (stream : Stream) (text : String) (engine : EngineId) :
    (h.write stream text).2.output engine = h.output engine := by
  rw [output, routing, Host.engine, engines_write, output, routing, Host.engine]

theorem writer_write_ne_broken (sound : h.writer stream.writer ≠ .broken) (text : String) :
    (h.write stream text).2.writer stream.writer ≠ .broken := by
  cases kind : h.writer stream.writer with
  | buffer content =>
      rw [writer_write_self kind]
      nofun
  | broken => exact absurd kind sound
  | standard | discard =>
      unfold write
      rw [kind]
      exact sound

/-- A buffer receives the repaired strings. -/
theorem writer_writeAll {content : ByteArray} (texts : List ByteArray) (h : Host)
    (buffer : h.writer stream.writer = .buffer content) :
    (h.writeAll stream texts).writer stream.writer =
      .buffer (content ++ (texts.flatMap fun s => Utf8.lossy s.data.toList).toByteArray) := by
  induction texts generalizing h content with
  | nil => simpa [writeAll] using buffer
  | cons bytes rest ih =>
      have repaired : (Utf8.text bytes.data.toList).toUTF8 =
          (Utf8.lossy bytes.data.toList).toByteArray := by
        rw [← Utf8.bytes_text, Utf8.toByteArray_bytes]
        rfl
      rw [writeAll, ih _ (writer_write_self buffer), repaired, List.flatMap_cons,
        List.toByteArray_append, ByteArray.append_assoc]

/-- Each value takes one step, in which the host is asked to write it. -/
theorem converses_writeValues (written : List.Forall₂ Value.Written values texts)
    (sound : before.writer (before.output engine).writer ≠ .broken) (i : Nat) :
    Converses engine calls texts.length (texts.length - 1) texts.length before heap
      (Library.writeValues i values) (.ok []) heap
      (before.writeAll (before.output engine) texts) := by
  induction written generalizing before i with
  | nil => exact (Evaluates.pure []).converses engine before
  | @cons v bytes values texts one _ ih =>
      have written : Converses engine calls 1 0 1 before heap (Library.write bytes) (.ok ()) heap _ :=
        .write (write_ok sound)
      have later : (before.write (before.output engine) (Utf8.text bytes.data.toList)).2.writer
          ((before.write (before.output engine) (Utf8.text bytes.data.toList)).2.output
            engine).writer ≠ .broken := by
        rw [output_write]
        exact writer_write_ne_broken sound _
      have rest := ih later (i + 1)
      rw [output_write] at rest
      have whole := written.bind (f := fun _ => Library.writeValues (i + 1) values) rest
      rw [show max (0 + texts.length) (texts.length - 1) = (bytes :: texts).length - 1 by
        simp only [List.length_cons]; omega, Nat.add_comm 1] at whole
      cases one <;> exact whole

/-- What a call that writes values leads to. -/
inductive Wrote (h : Host) (engine : EngineId) (texts : List ByteArray) :
    Except EngineError (List Value) × Host → Prop
  /-- All texts have been written. -/
  | written (heap : Heap) :
      Wrote h engine texts
        (.ok [], (h.writeAll (h.output engine) texts).modifyHeap engine fun _ => heap)
  /-- There was no memory for the call. -/
  | failed (heap : Heap) (error : EngineError) (limited : (h.heap engine).limit? ≠ none) :
      Wrote h engine texts (.error error, h.modifyHeap engine fun _ => heap)
  /-- There were not enough steps to come to the end of it. -/
  | unfinished (store : Store) (few : h.stepLimit ≤ texts.length + 4) :
      Wrote h engine texts (.error Host.unfinished, h.modifyEngine engine fun e => { e with store })

theorem writeValues_wrote (written : List.Forall₂ Value.Written values texts)
    (sound : h.writer (h.output engine).writer ≠ .broken) (enough : texts.length + 1 < h.stepLimit) :
    Wrote h engine texts (h.writeValues engine values) := by
  have large := h.stepLimit_large
  cases fits : Machine.fits (h.heap engine) 0 with
  | mk enough entered =>
      cases enough with
      | false =>
          have limited := Heap.limit?_ne_none_of_fits fits
          have failed : Evaluates setting 1 2 (h.heap engine)
              (Eval.callBack (.builtin (.host .write)) values) (.error .outOfMemory) entered :=
            Evaluates.call_outOfMemory rfl fits
          rcases perform_of_converses (failed.hostCall_outOfMemory.converses engine h) (by decide)
            (by omega) (by omega) with ended | ⟨short, _⟩
          · obtain ⟨e, outcome⟩ :=
              exists_outcome_error (h.modifyHeap engine fun _ => entered) engine .outOfMemory
            rw [writeValues, callFunction, ended, outcome]
            exact .failed entered e limited
          · omega
      | true =>
          have body : Converses engine 0 texts.length (texts.length - 1) texts.length h entered
              (Library.writeValues 1 values) (.ok []) entered
              (h.writeAll (h.output engine) texts) := converses_writeValues written sound 1
          have called : Converses engine 1 (texts.length + 2) (texts.length - 1 + 1) texts.length h
              (h.heap engine) (Eval.callBack (.builtin (.host .write)) values) (.ok []) entered
              (h.writeAll (h.output engine) texts) :=
            Converses.call_builtin rfl fits body
          rcases perform_of_converses called.hostCall (by decide) (by omega) (by omega) with
            ended | ⟨short, store, unfinished⟩
          · rw [writeValues, callFunction, ended]
            exact .written entered
          · rw [writeValues, callFunction, unfinished]
            exact .unfinished store short

/-- Without a limit of the heap, with enough steps and with an output that can be written, a call
succeeds. -/
theorem writeValues_succeeds (written : List.Forall₂ Value.Written values texts)
    (sound : h.writer (h.output engine).writer ≠ .broken)
    (unlimited : (h.heap engine).limit? = none) (enough : texts.length + 4 < h.stepLimit) :
    ∃ heap : Heap, h.writeValues engine values =
      (.ok [], (h.writeAll (h.output engine) texts).modifyHeap engine fun _ => heap) := by
  have wrote := writeValues_wrote written sound (by omega)
  generalize h.writeValues engine values = result at wrote ⊢
  cases wrote with
  | written heap => exact ⟨heap, rfl⟩
  | failed _ _ limited => exact absurd unlimited limited
  | unfinished _ few => omega

/-- A host with an engine whose output goes to a buffer. -/
def bufferAttached : Host := (PrintHistory.twoBuffers.attach ⟨0⟩ ⟨"inner", ⟨1⟩⟩).2

end Host

end ScriptHost
