import ScriptHost.Proofs.Writing

/-!
# Texts written in pieces

What a buffer has when a text is written to it in pieces. Each piece is repaired on its own, so
the text arrives as it is exactly if no piece ends inside a character.
-/

set_option autoImplicit false

namespace ScriptHost

open Lua

namespace Utf8

variable {b x : UInt8} {rest more : List UInt8} {n want seen : Nat}

/-! ## How much of a text a chunk takes -/

/-- What a chunk turns into when bytes follow that do not continue it. -/
def Chunk.ended : Chunk → Chunk
  | .cut n => .bad n
  | chunk => chunk

theorem continueChunk_append (foreign : isContinuation x = false) (want seen : Nat)
    (rest more : List UInt8) :
    continueChunk want seen (rest ++ x :: more) = (continueChunk want seen rest).ended := by
  induction want generalizing seen rest with
  | zero => rfl
  | succ want ih =>
      cases rest with
      | nil => simp [continueChunk, foreign, Chunk.ended]
      | cons b rest =>
          simp only [List.cons_append, continueChunk]
          split
          · exact ih ..
          · rfl

theorem isContinuation_of_second {first : UInt8} (second : Second first x) :
    isContinuation x = true := by
  rw [second_iff] at second
  exact isContinuation_iff.mpr ⟨second.1, second.2.1⟩

theorem chunk_append (foreign : isContinuation x = false) (b : UInt8) (rest more : List UInt8) :
    chunk b (rest ++ x :: more) = (chunk b rest).ended := by
  cases first : following? b with
  | none => simp [chunk, first, Chunk.ended]
  | some count =>
      cases count with
      | zero => simp [chunk, first, Chunk.ended]
      | succ want =>
          cases rest with
          | nil =>
              have unfit : ¬ ((secondBounds b).1 ≤ x ∧ x ≤ (secondBounds b).2) :=
                  fun second : Second b x => by
                rw [isContinuation_of_second second] at foreign
                cases foreign
              simp [chunk, first, Chunk.ended, unfit]
          | cons c rest =>
              simp only [chunk, first, List.cons_append]
              split
              · exact continueChunk_append foreign ..
              · rfl

/-- The number of bytes in a chunk after the first one. -/
def Chunk.further : Chunk → Nat
  | .scalar n | .bad n | .cut n => n

/-- Whether what a chunk takes is replaced. -/
def Chunk.IllFormed (chunk : Chunk) (n : Nat) : Prop := chunk = .bad n ∨ chunk = .cut n

theorem further_continueChunk_le (want seen : Nat) (rest : List UInt8) :
    (continueChunk want seen rest).further ≤ seen + rest.length := by
  induction want generalizing seen rest with
  | zero => simp [continueChunk, Chunk.further]
  | succ want ih =>
      cases rest with
      | nil => simp [continueChunk, Chunk.further]
      | cons b rest =>
          simp only [continueChunk, List.length_cons]
          split
          · have bound := ih (seen + 1) rest
            omega
          · simp only [Chunk.further]
            omega

theorem further_chunk_le (b : UInt8) (rest : List UInt8) :
    (chunk b rest).further ≤ rest.length := by
  cases first : following? b with
  | none => simp [chunk, first, Chunk.further]
  | some count =>
      cases count with
      | zero => simp [chunk, first, Chunk.further]
      | succ want =>
          cases rest with
          | nil => simp [chunk, first, Chunk.further]
          | cons c rest =>
              simp only [chunk, first]
              split
              · have bound := further_continueChunk_le want 1 rest
                rw [List.length_cons]
                omega
              · simp [Chunk.further]

theorem Chunk.IllFormed.lt_of_continueChunk
    (ill : (continueChunk want seen rest).IllFormed n) : n < seen + want := by
  induction want generalizing seen rest with
  | zero => simp [continueChunk, IllFormed] at ill
  | succ want ih =>
      cases rest with
      | nil =>
          simp only [continueChunk, IllFormed, reduceCtorEq, Chunk.cut.injEq, false_or] at ill
          omega
      | cons b rest =>
          simp only [continueChunk] at ill
          split at ill
          · have bound := ih ill
            omega
          · simp only [IllFormed, Chunk.bad.injEq, reduceCtorEq, or_false] at ill
            omega

/-- An ill formed sequence has at most three bytes. -/
theorem Chunk.IllFormed.le_two (ill : (chunk b rest).IllFormed n) : n ≤ 2 := by
  cases first : following? b with
  | none =>
      simp only [chunk, first, IllFormed, Chunk.bad.injEq, reduceCtorEq, or_false] at ill
      omega
  | some count =>
      have range := range_of_following? first
      cases count with
      | zero => simp [chunk, first, IllFormed] at ill
      | succ want =>
          cases rest with
          | nil =>
              simp only [chunk, first, IllFormed, Chunk.cut.injEq, reduceCtorEq, false_or] at ill
              omega
          | cons c rest =>
              simp only [chunk, first] at ill
              split at ill
              · have bound := ill.lt_of_continueChunk
                omega
              · simp only [IllFormed, Chunk.bad.injEq, reduceCtorEq, or_false] at ill
                omega

/-! ## Repairing a text piece by piece -/

/-- A text is not repaired differently when bytes follow that do not continue it. -/
theorem lossy_append_foreign (foreign : isContinuation x = false) (more : List UInt8) :
    ∀ bs, lossy (bs ++ x :: more) = lossy bs ++ lossy (x :: more)
  | [] => by rw [List.nil_append, lossy_nil, List.nil_append]
  | b :: rest => by
      have ended := chunk_append foreign b rest more
      have within := further_chunk_le b rest
      have replaced {n : Nat} (ill : (chunk b rest).IllFormed n)
          (short : n ≤ rest.length) (bad : chunk b (rest ++ x :: more) = .bad n) :
          lossy (b :: rest ++ x :: more) = lossy (b :: rest) ++ lossy (x :: more) := by
        have later := lossy_append_foreign foreign more (rest.drop n)
        rw [List.cons_append, lossy_ill_formed (.inl bad), lossy_ill_formed ill,
          List.drop_append_of_le_length short, later, List.append_assoc]
      cases found : chunk b rest with
      | scalar n =>
          rw [found] at ended within
          have within : n ≤ rest.length := within
          have later := lossy_append_foreign foreign more (rest.drop n)
          rw [List.cons_append, lossy_scalar ended, lossy_scalar found,
            List.take_append_of_le_length within, List.drop_append_of_le_length within, later,
            List.append_assoc]
      | bad n =>
          rw [found] at ended within
          exact replaced (.inl found) within ended
      | cut n =>
          rw [found] at ended within
          exact replaced (.inr found) within ended
termination_by bs => bs.length
decreasing_by all_goals simp only [List.length_drop, List.length_cons]; omega

/-- Whole characters are kept, whatever stands before and after them. -/
theorem lossy_around {cs : List Char} (some_ : cs ≠ []) (front back : List UInt8) :
    lossy (front ++ encode cs ++ back) = lossy front ++ encode cs ++ lossy back := by
  obtain ⟨c, rest, rfl⟩ := List.exists_cons_of_ne_nil some_
  obtain ⟨a, more, encoded, sequence⟩ := sequence_encodeChar c
  have foreign : isContinuation a = false := by
    rw [Bool.eq_false_iff, Ne, isContinuation_iff]
    cases sequence <;>
      simp only [UInt8.lt_iff_toNat_lt, UInt8.le_iff_toNat_le, UInt8.reduceToNat] at * <;> omega
  have first : encode (c :: rest) ++ back = a :: (more ++ encode rest ++ back) := by
    simp [encode, encoded]
  rw [List.append_assoc, first, lossy_append_foreign foreign, ← first, lossy_encode_append,
    List.append_assoc]

theorem length_le_length_lossy : ∀ bs, bs.length ≤ (lossy bs).length
  | [] => Nat.zero_le _
  | b :: rest => by
      have within := further_chunk_le b rest
      have replaced {n : Nat} (ill : (chunk b rest).IllFormed n) (short : n ≤ rest.length) :
          (b :: rest).length ≤ (lossy (b :: rest)).length := by
        have later := length_le_length_lossy (rest.drop n)
        have few := ill.le_two
        rw [lossy_ill_formed ill, List.length_append]
        simp only [List.length_drop, replacement, List.length_cons, List.length_nil] at later ⊢
        omega
      cases found : chunk b rest with
      | scalar n =>
          rw [found] at within
          have within : n ≤ rest.length := within
          have later := length_le_length_lossy (rest.drop n)
          rw [lossy_scalar found, List.length_append]
          simp only [List.length_drop, List.length_cons, List.length_take] at later ⊢
          omega
      | bad n =>
          rw [found] at within
          exact replaced (.inl found) within
      | cut n =>
          rw [found] at within
          exact replaced (.inr found) within
termination_by bs => bs.length
decreasing_by all_goals simp only [List.length_drop, List.length_cons]; omega

theorem length_flatten_le_flatMap_lossy (pieces : List (List UInt8)) :
    pieces.flatten.length ≤ (pieces.flatMap lossy).length := by
  induction pieces with
  | nil => exact Nat.le_refl _
  | cons piece rest ih =>
      rw [List.flatten_cons, List.flatMap_cons, List.length_append, List.length_append]
      exact Nat.add_le_add (length_le_length_lossy piece) ih

/-- Pieces that are repaired one by one make up the same text exactly if each of them is well
formed. Repairing never makes a piece shorter, so no piece can make up for another one. -/
theorem flatMap_lossy_eq_flatten_iff (pieces : List (List UInt8)) :
    pieces.flatMap lossy = pieces.flatten ↔ ∀ piece ∈ pieces, ∃ cs, piece = encode cs := by
  induction pieces with
  | nil => simp
  | cons piece rest ih =>
      rw [List.flatMap_cons, List.flatten_cons, List.forall_mem_cons, ← ih]
      constructor
      · intro same
        have lengths := congrArg List.length same
        have first := length_le_length_lossy piece
        have others := length_flatten_le_flatMap_lossy rest
        rw [List.length_append, List.length_append] at lengths
        obtain ⟨kept, later⟩ := List.append_inj same (by omega)
        obtain ⟨cs, repaired⟩ := exists_encode_lossy piece
        exact ⟨⟨cs, kept.symm.trans repaired⟩, later⟩
      · rintro ⟨⟨cs, rfl⟩, later⟩
        rw [lossy_encode, later]

end Utf8

/-! ## Pieces that reach a buffer -/

/-- A host, and what has been written to a writer since the start. -/
structure PieceHistory where
  host : Host
  pieces : List ByteArray

namespace PieceHistory

/-- What repairing makes of a piece. -/
def repaired (piece : ByteArray) : List UInt8 := Utf8.lossy piece.data.toList

/-- The text that the pieces make up. -/
def joined (pieces : List ByteArray) : ByteArray :=
  (pieces.flatMap fun piece => piece.data.toList).toByteArray

/-- Some pieces are written by one call on an engine whose output goes to the writer. In between,
anything may happen that writes nothing there. -/
inductive Step (w : WriterId) : PieceHistory → PieceHistory → Prop where
  | write {s after} (engine : EngineId) (pieces : List ByteArray) :
      (s.host.output engine).writer = w → pieces.length + 1 < s.host.stepLimit →
      s.host.writeValues engine (pieces.map Value.string) = (.ok [], after) →
      Step w s ⟨after, s.pieces ++ pieces⟩
  | pause {s after} : after.writer w = s.host.writer w → Step w s ⟨after, s.pieces⟩

/-- What is reached by steps from a host. -/
inductive Run (w : WriterId) (start : Host) : PieceHistory → Prop where
  | start : Run w start ⟨start, []⟩
  | step {s t} : Run w start s → Step w s t → Run w start t

variable {w : WriterId} {start : Host} {s t : PieceHistory} {content : ByteArray}

/-- A buffer has the content it had at the start, and every piece, repaired on its own. -/
def Received (w : WriterId) (content : ByteArray) (s : PieceHistory) : Prop :=
  s.host.writer w = .buffer (content ++ (s.pieces.flatMap repaired).toByteArray)

theorem Received.step (received : Received w content s) (taken : Step w s t) :
    Received w content t := by
  cases taken with
  | @write after engine pieces reaches enough writes =>
      subst reaches
      have sound : s.host.writer (s.host.output engine).writer ≠ .broken := by
        rw [received]
        nofun
      have wrote := Host.writeValues_wrote (Value.written_strings pieces) sound enough
      rw [writes] at wrote
      cases wrote with
      | written heap =>
          refine (Host.writer_writeAll pieces s.host received).trans ?_
          rw [List.flatMap_append, List.toByteArray_append, ByteArray.append_assoc]
          rfl
  | pause kept => exact kept.trans received

theorem Run.received (buffer : start.writer w = .buffer content) (run : Run w start s) :
    Received w content s := by
  induction run with
  | start => simpa [Received] using buffer
  | step _ taken ih => exact ih.step taken

theorem step_write {engine : EngineId} {pieces : List ByteArray}
    (reaches : (s.host.output engine).writer = w) (sound : s.host.writer w ≠ .broken)
    (unlimited : (s.host.heap engine).limit? = none)
    (enough : pieces.length + 4 < s.host.stepLimit) :
    ∃ after, Step w s ⟨after, s.pieces ++ pieces⟩ := by
  subst reaches
  obtain ⟨heap, writes⟩ :=
    Host.writeValues_succeeds (Value.written_strings pieces) sound unlimited enough
  exact ⟨_, .write engine pieces rfl (by omega) writes⟩

theorem exists_encode_iff (piece : ByteArray) :
    (∃ cs, piece.data.toList = Utf8.encode cs) ↔ ∃ text : String, text.toUTF8 = piece := by
  constructor
  · rintro ⟨cs, same⟩
    refine ⟨String.ofList cs, ?_⟩
    rw [← Utf8.bytes_ofList] at same
    exact (Utf8.toByteArray_bytes _).symm.trans (by rw [← same]; ext1; simp)
  · rintro ⟨text, rfl⟩
    exact ⟨text.toList, (Utf8.toList_eq _).symm.trans (Utf8.bytes_eq_encode text)⟩

theorem repaired_around {text : String} (some_ : text ≠ "") (front back : ByteArray) :
    repaired (front ++ text.toUTF8 ++ back) =
      repaired front ++ Utf8.bytes text ++ repaired back := by
  have nonempty : text.toList ≠ [] := fun none => some_ (String.toList_eq_nil_iff.mp none)
  have kept := Utf8.lossy_around nonempty front.data.toList back.data.toList
  rw [← Utf8.bytes_eq_encode] at kept
  rw [repaired, ByteArray.data_append, ByteArray.data_append, Array.toList_append,
    Array.toList_append, ← Utf8.toList_eq text.toUTF8]
  exact kept

theorem toByteArray_inj {xs ys : List UInt8} : xs.toByteArray = ys.toByteArray ↔ xs = ys := by
  refine ⟨fun same => ?_, fun same => same ▸ rfl⟩
  simpa using congrArg (fun b => b.data.toList) same

/-- Over every run of writing calls: a buffer receives all pieces in order, each repaired on its
own. It has the text that they make up exactly if every piece is valid UTF-8; repairing a piece
keeps every whole character in it. The next call succeeds if nothing prevents it. -/
theorem written_pieces_received (run : Run w start s) (buffer : start.writer w = .buffer content) :
    s.host.writer w = .buffer (content ++ (s.pieces.flatMap repaired).toByteArray) ∧
    (s.host.writer w = .buffer (content ++ joined s.pieces) ↔
      ∀ piece ∈ s.pieces, ∃ text : String, text.toUTF8 = piece) ∧
    (∀ (front back : ByteArray) (text : String), text ≠ "" →
      repaired (front ++ text.toUTF8 ++ back) =
        repaired front ++ Utf8.bytes text ++ repaired back) ∧
    ∀ engine pieces, (s.host.output engine).writer = w → (s.host.heap engine).limit? = none →
      pieces.length + 4 < s.host.stepLimit → ∃ after, Step w s ⟨after, s.pieces ++ pieces⟩ := by
  have received := run.received buffer
  refine ⟨received, ?_, ?_, ?_⟩
  · have exact_ := Utf8.flatMap_lossy_eq_flatten_iff (s.pieces.map fun piece => piece.data.toList)
    rw [List.flatMap_map, ← List.flatMap_def, List.forall_mem_map] at exact_
    simp only [exists_encode_iff] at exact_
    rw [← exact_, received, joined, Writer.buffer.injEq, ByteArray.append_right_inj, toByteArray_inj]
    rfl
  · intro front back text some_
    exact repaired_around some_ front back
  · intro engine pieces reaches unlimited enough
    refine step_write reaches ?_ unlimited enough
    rw [received]
    nofun

/-- Two pieces of one call that are texts of their own arrive as they are. -/
theorem written_pieces_received_whole :
    Host.bufferAttached.writer ⟨1⟩ = .buffer .empty ∧
      ∃ s, Run ⟨1⟩ Host.bufferAttached s ∧ s.pieces = ["caf".toUTF8, "é".toUTF8] ∧
        s.host.writer ⟨1⟩ = .buffer "café".toUTF8 := by
  have buffer : Host.bufferAttached.writer ⟨1⟩ = .buffer .empty := rfl
  obtain ⟨after, taken⟩ := (written_pieces_received .start buffer).2.2.2 ⟨0⟩
    ["caf".toUTF8, "é".toUTF8] (by decide +kernel) (by decide +kernel) (by decide +kernel)
  have run : Run ⟨1⟩ Host.bufferAttached _ := .step .start taken
  have arrived := (written_pieces_received run buffer).2.1.mpr (by simp)
  have text : ByteArray.empty ++ joined ["caf".toUTF8, "é".toUTF8] = "café".toUTF8 := by
    decide +kernel
  rw [← text]
  exact ⟨buffer, _, run, rfl, arrived⟩

/-- The two bytes of a character, written as two pieces of one call, are replaced both. -/
theorem split_character_replaced :
    joined [⟨#[0xC3]⟩, ⟨#[0xA9]⟩] = "é".toUTF8 ∧
      (Host.bufferAttached.writeValues ⟨0⟩ [.string ⟨#[0xC3]⟩, .string ⟨#[0xA9]⟩]).1.toOption.isSome =
        true ∧
      ((Host.bufferAttached.writeValues ⟨0⟩ [.string ⟨#[0xC3]⟩, .string ⟨#[0xA9]⟩]).2.writer
        ⟨1⟩).contents = "\uFFFD\uFFFD" := by
  decide +kernel

end PieceHistory

end ScriptHost
