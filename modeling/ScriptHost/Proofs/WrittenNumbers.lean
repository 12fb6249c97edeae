import ScriptHost.Proofs.NumberTexts
import ScriptHost.Proofs.Outcomes
import ScriptHost.Proofs.Writing

/-!
# Writing and printing numbers

What reaches the output of an engine when a script writes a number, and when it prints one: texts
that need not be the same.
-/

set_option autoImplicit false

namespace ScriptHost

open Lua

namespace Host

variable {engine : EngineId} {calls : Nat} {h before : Host} {heap : Heap} {content : ByteArray}

theorem written_number (n : Number) : Value.Written n.value n.writtenText.toUTF8 := by
  cases n with
  | integer n => exact .integer n
  | float x => exact .float x

/-- Numbers have no metamethods, so they have a text of their own. -/
theorem evaluates_toText_number (n : Number) :
    Evaluates setting calls 2 heap (Operation.toText n.value) (.ok n.text.toUTF8) heap := by
  have none : heap.metamethod n.value "__tostring" = .nil := by
    cases n <;> rfl
  have plain : Operation.plainText heap n.value = n.text.toUTF8 := by
    cases n <;> rfl
  have read : Evaluates setting calls 1 heap (Eval.read fun h => Operation.plainText h n.value)
      (.ok n.text.toUTF8) heap := plain ▸ Evaluates.read fun h => Operation.plainText h n.value
  change Evaluates setting calls (1 + 1) heap (Eval.read _ >>= _) _ heap
  refine (Evaluates.read fun h => h.metamethod n.value "__tostring").bind ?_
  rw [none]
  exact read

theorem attains_tostring_number (calls : Nat) (n : Number) :
    Attains engine (calls + 1) 6 0 before heap
      (Library.hostCall (.builtin (.base .tostring)) [n.value]) fun values _ later =>
        values = [.string n.text.toUTF8] ∧ later = before := by
  have entered : Machine.body? setting heap (.builtin (.base .tostring)) [n.value] =
      some ((do return [.string (← Operation.toText n.value)] : Eval (List Value)) fun values =>
        .done (.returned values)) := rfl
  refine .hostCall (.call (fun values => values) entered fun middle _ => ?_)
  exact .ofEvaluates ((evaluates_toText_number n).map fun t => [Value.string t]) (.refl middle)
    ⟨rfl, rfl⟩

theorem attains_write {bytes : ByteArray}
    (accepted : (before.write (before.output engine) (Utf8.text bytes.data.toList)).1 = .ok ()) :
    Attains engine calls 1 1 before heap (Library.write bytes) fun _ _ later =>
      later = (before.write (before.output engine) (Utf8.text bytes.data.toList)).2 :=
  ⟨1, 0, 1, .ok (), heap, _, .write accepted, by decide, by decide, by decide, .refl heap,
    .inl ⟨(), rfl, rfl⟩⟩

theorem attains_lineOf_number (n : Number) :
    Attains engine (calls + 1) 6 0 before heap (Library.lineOf [n.value]) fun bytes _ later =>
      bytes = n.text.toUTF8.toList ++ [10] ∧ later = before := by
  have text : Attains engine (calls + 1) (6 + 0) (0 + 0) before heap
      (Library.lineOf.textOf n.value) fun bytes _ later =>
        bytes = n.text.toUTF8.toList ∧ later = before := by
    refine .bind (attains_tostring_number calls n) ?_
    rintro _ _ _ _ ⟨rfl, rfl⟩
    exact .pure ⟨rfl, rfl⟩
  change Attains engine (calls + 1) (6 + 0) (0 + 0) before heap
    (Library.lineOf.textOf n.value >>= _) _
  refine .bind text ?_
  rintro _ _ _ _ ⟨rfl, rfl⟩
  exact .pure ⟨rfl, rfl⟩

/-- The text of a line. -/
theorem text_line (text : String) :
    Utf8.text (text.toUTF8.toList ++ [10]).toByteArray.data.toList = text ++ "\n" := by
  have feed : Utf8.bytes "\n" = [10] := by decide +kernel
  have line : (text.toUTF8.toList ++ [10]).toByteArray.data.toList = Utf8.bytes (text ++ "\n") := by
    rw [Utf8.bytes_append, feed, Utf8.bytes]
    simp
  rw [line, Utf8.text_bytes]

theorem attains_print_number {n : Number} (calls : Nat)
    (accepted : (before.write (before.output engine) (n.text ++ "\n")).1 = .ok ()) :
    Attains engine (calls + 2) 11 1 before heap
      (Library.hostCall (.builtin (.host .print)) [n.value]) fun values _ later =>
        values = [] ∧ later = (before.write (before.output engine) (n.text ++ "\n")).2 := by
  have entered : Machine.body? setting heap (.builtin (.host .print)) [n.value] =
      some (Library.print ⟨Library.nameOf (.host .print), [n.value]⟩ fun values =>
        .done (.returned values)) := rfl
  have body (middle : Heap) : Attains engine (calls + 1) (6 + (1 + 0)) (0 + (1 + 0))
      before middle (Library.print ⟨Library.nameOf (.host .print), [n.value]⟩) fun values _ later =>
        values = [] ∧ later = (before.write (before.output engine) (n.text ++ "\n")).2 := by
    refine .bind (attains_lineOf_number n) ?_
    rintro _ _ _ _ ⟨rfl, rfl⟩
    rw [← text_line] at accepted ⊢
    refine .bind (attains_write accepted) ?_
    rintro _ _ _ _ rfl
    exact .pure ⟨rfl, rfl⟩
  exact .hostCall (.call (fun values => values) entered fun middle _ => body middle)

theorem lossy_text (text : String) :
    (Utf8.lossy text.toUTF8.data.toList).toByteArray = text.toUTF8 := by
  rw [← Utf8.toList_eq, ← Utf8.bytes, Utf8.bytes_eq_encode, Utf8.lossy_encode,
    ← Utf8.bytes_eq_encode, Utf8.toByteArray_bytes]
  rfl

/-- What is written for a number, the text that it is made, and what is printed for it, on an
engine with a buffer. What is written and what is printed are the same text exactly for integers,
infinite floats, and floats whose shortest decimal number has a fraction, no more than 14 digits,
and a digit in the first four places after the point or in front of it. -/
theorem number_texts (buffer : h.writer (h.output engine).writer = .buffer content)
    (unlimited : (h.heap engine).limit? = none) (n : Number) :
    (∃ after, h.writeValues engine [n.value] = (.ok [], after) ∧
      after.writer (h.output engine).writer = .buffer (content ++ n.writtenText.toUTF8)) ∧
    (∃ after, h.callFunction engine (.builtin (.base .tostring)) [n.value] =
      (.ok [.string n.text.toUTF8], after)) ∧
    (∃ after, h.callFunction engine (.builtin (.host .print)) [n.value] = (.ok [], after) ∧
      after.writer (h.output engine).writer = .buffer (content ++ (n.text ++ "\n").toUTF8)) ∧
    (n.writtenText = n.text ↔ n.HasOneText) := by
  have sound : h.writer (h.output engine).writer ≠ .broken := by
    rw [buffer]
    nofun
  refine ⟨?_, ?_, ?_, n.writtenText_eq_text_iff⟩
  · have large := h.stepLimit_large
    obtain ⟨heap, wrote⟩ := writeValues_succeeds (List.Forall₂.cons (written_number n) .nil) sound
      unlimited (by simp only [List.length_cons, List.length_nil]; omega)
    refine ⟨_, wrote, (writer_writeAll _ h buffer).trans ?_⟩
    rw [List.flatMap_singleton, lossy_text]
  · rcases perform_of_attains (attains_tostring_number 0 n) (by decide) (by decide)
      (by decide) with ⟨_, after, _, performed, _, _, rfl, rfl⟩ | ⟨limited, _⟩
    · exact ⟨_, performed⟩
    · exact absurd unlimited limited
  · rcases perform_of_attains (attains_print_number 0 (write_ok sound)) (by decide)
      (by decide) (by decide) with ⟨_, after, _, performed, _, _, rfl, rfl⟩ | ⟨limited, _⟩
    · exact ⟨_, performed, writer_write_self buffer⟩
    · exact absurd unlimited limited

/-- One half has one text. -/
theorem number_texts_half :
    bufferAttached.writer (bufferAttached.output ⟨0⟩).writer = .buffer .empty ∧
      (bufferAttached.heap ⟨0⟩).limit? = none ∧
      ∃ after, bufferAttached.writeValues ⟨0⟩ [.float 0.5] = (.ok [], after) ∧
        after.writer ⟨1⟩ = .buffer "0.5".toUTF8 ∧
        (Number.float 0.5).writtenText = (Number.float 0.5).text := by
  have sink : (bufferAttached.output ⟨0⟩).writer = ⟨1⟩ := rfl
  have buffer : bufferAttached.writer (bufferAttached.output ⟨0⟩).writer = .buffer .empty := rfl
  have unlimited : (bufferAttached.heap ⟨0⟩).limit? = none := by decide +kernel
  obtain ⟨⟨after, wrote, arrived⟩, _, _, same⟩ := number_texts buffer unlimited (.float 0.5)
  have text : ByteArray.empty ++ (Number.float 0.5).writtenText.toUTF8 = "0.5".toUTF8 := by
    decide +kernel
  rw [text, sink] at arrived
  exact ⟨buffer, unlimited, after, wrote, arrived, same.mpr (by decide +kernel)⟩

/-- Two, as a float, is written without the fraction with which it is printed. -/
theorem whole_float_texts_differ :
    ((bufferAttached.writeValues ⟨0⟩ [.float 2.0]).2.writer ⟨1⟩).contents = "2" ∧
      ((bufferAttached.callFunction ⟨0⟩ (.builtin (.host .print)) [.float 2.0]).2.writer
        ⟨1⟩).contents = "2.0\n" := by
  decide +kernel

end Host

end ScriptHost
