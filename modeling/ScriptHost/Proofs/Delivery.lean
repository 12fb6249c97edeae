import ScriptHost.Proofs.OutputHistory
import ScriptHost.Proofs.Printing
import ScriptHost.Proofs.Utf8Text

/-!
# Delivery of printed lines

Where printed lines arrive while streams are attached to engines and detached in any order. Every
line goes to the writer of the stream attached latest among those still active on its engine, and
to no other writer.
-/

set_option autoImplicit false

namespace ScriptHost

open Lua

namespace Host

variable {h : Host} {engine : EngineId} {texts : List ByteArray} {stream : Stream} {text : String}
  {w : WriterId}

theorem writer_write_of_ne (elsewhere : stream.writer ≠ w) :
    (h.write stream text).2.writer w = h.writer w := by
  have positions : stream.writer.index ≠ w.index := fun same =>
    elsewhere (congrArg WriterId.mk same)
  unfold write
  split <;> simp [writer, modifyWriter, Array.getElem?_modify, positions]

theorem writer_write_self {content : ByteArray} (buffer : h.writer stream.writer = .buffer content) :
    (h.write stream text).2.writer stream.writer = .buffer (content ++ text.toUTF8) := by
  have present := buffer
  rw [writer] at present
  cases found : h.writers[stream.writer.index]? with
  | none => simp [found] at present
  | some _ =>
      obtain rfl : _ = Writer.buffer content := by simpa [found] using present
      simp [write, writer, modifyWriter, Array.getElem?_modify, found]

theorem write_ok (sound : h.writer stream.writer ≠ .broken) : (h.write stream text).1 = .ok () := by
  unfold write
  split <;> simp_all

theorem print_ok (plain : (h.heap engine).PlainTexts)
    (succeeds : (h.print engine texts).1 = .ok []) :
    ∃ heap : Heap, heap.PlainTexts ∧ (h.print engine texts).2 =
      (h.write (h.output engine) (Utf8.text (printedLine texts))).2.modifyHeap engine
        fun _ => heap := by
  have printed := print_printed h engine texts plain
  generalize h.print engine texts = result at printed succeeds ⊢
  cases printed with
  | written plain _ => exact ⟨_, plain, rfl⟩
  | failed | unfinished => cases succeeds

theorem print_error (plain : (h.heap engine).PlainTexts) {e : EngineError}
    (fails : (h.print engine texts).1 = .error e) (finished : e ≠ unfinished) :
    ∃ heap : Heap, heap.PlainTexts ∧ (h.print engine texts).2 =
      h.modifyHeap engine fun _ => heap := by
  have printed := print_printed h engine texts plain
  generalize h.print engine texts = result at printed fails ⊢
  cases printed with
  | written => cases fails
  | failed plain _ _ => exact ⟨_, plain, rfl⟩
  | unfinished => exact absurd (Except.error.inj fails).symm finished

/-- Without a limit of the heap, with enough steps and with an output that accepts the line, a call
succeeds. -/
theorem print_succeeds (plain : (h.heap engine).PlainTexts)
    (unlimited : (h.heap engine).limit? = none)
    (accepted : (h.write (h.output engine) (Utf8.text (printedLine texts))).1 = .ok ())
    (enough : 6 * texts.length + 20 < h.stepLimit) : (h.print engine texts).1 = .ok [] := by
  have printed := print_printed h engine texts plain
  generalize h.print engine texts = result at printed ⊢
  cases printed with
  | written => rfl
  | failed _ _ reason => simp [unlimited, accepted] at reason
  | unfinished _ few => omega

theorem heap_write (h : Host) (stream : Stream) (text : String) (engine : EngineId) :
    (h.write stream text).2.heap engine = h.heap engine := by
  rw [heap, Host.engine, engines_write, heap, Host.engine]

theorem writer_print_of_ne (plain : (h.heap engine).PlainTexts)
    (elsewhere : (h.output engine).writer ≠ w) :
    (h.print engine texts).2.writer w = h.writer w := by
  have printed := print_printed h engine texts plain
  generalize h.print engine texts = result at printed ⊢
  cases printed with
  | written => exact writer_write_of_ne elsewhere
  | failed | unfinished => rfl

theorem routing_print (h : Host) (engine other : EngineId) (texts : List ByteArray) :
    (h.print engine texts).2.routing other = h.routing other := by
  have ran : RunsOn engine h (h.print engine texts).2 := runsOn_callFunction ..
  by_cases same : other = engine
  · rw [same, ran.routing]
  · rw [routing, ran.others other same, routing]

theorem size_engines_print (h : Host) (engine : EngineId) (texts : List ByteArray) :
    (h.print engine texts).2.engines.size = h.engines.size :=
  (runsOn_callFunction h engine _ _).size

theorem heap_modifyHeap_all {holds : Heap → Prop} (all : ∀ engine, holds (h.heap engine))
    {heap : Heap} (new : holds heap) (other : EngineId) :
    holds ((h.modifyHeap engine fun _ => heap).heap other) := by
  by_cases present : engine.index < h.engines.size
  · by_cases same : other = engine
    · rw [same, heap_modifyHeap present]
      exact new
    · rw [Host.heap, modifyHeap, engine_modifyEngine_of_ne same]
      exact all other
  · rw [modifyHeap, modifyEngine_of_le (Nat.not_lt.mp present)]
    exact all other

theorem writer_attach (h : Host) (engine : EngineId) (sink : Stream) (w : WriterId) :
    (h.attach engine sink).2.writer w = h.writer w := rfl

theorem writer_detach (h : Host) (engine : EngineId) (guard : StreamGuard) (w : WriterId) :
    (h.detach engine guard).2.writer w = h.writer w := by
  by_cases own : guard.engine = engine
  · rw [detach_self guard own]
    rfl
  · rw [detach_of_ne own]

end Host

/-- One line that has been printed. -/
structure Delivery where
  engine : EngineId
  texts : List ByteArray
  /-- The stream that was to receive the output of the engine then. -/
  sink : Stream

/-- The texts with tabs between them and a line feed, ill formed bytes replaced. -/
def Delivery.text (d : Delivery) : String := Utf8.text (printedLine d.texts)

/-- What has been printed to a writer, in order. -/
def Delivery.to (w : WriterId) (printed : List Delivery) : String :=
  String.join ((printed.filter fun d => d.sink.writer = w).map text)

/-- A history of attachments, and the lines printed in the meantime. -/
structure PrintHistory where
  outputs : OutputHistory
  printed : List Delivery

namespace PrintHistory

open Attachment (sink)

def host (s : PrintHistory) : Host := s.outputs.host

/-- Attaching a stream, handing a guard back, and printing texts on an engine. A line counts as
printed if the call succeeds; then it is printed to the stream attached latest among those that
are active. -/
inductive Step (start : Host) : PrintHistory → PrintHistory → Prop where
  | route {s outputs} : s.outputs.Step outputs → Step start s ⟨outputs, s.printed⟩
  | print {s} (engine : EngineId) (texts : List ByteArray) :
      engine.index < s.host.engines.size → (s.host.print engine texts).1 = .ok [] →
      Step start s ⟨⟨(s.host.print engine texts).2, s.outputs.log⟩,
        s.printed ++ [⟨engine, texts, sink start engine s.outputs.log⟩]⟩
  | fail {s} (engine : EngineId) (texts : List ByteArray) (error : EngineError) :
      engine.index < s.host.engines.size → (s.host.print engine texts).1 = .error error →
      error ≠ Host.unfinished →
      Step start s ⟨⟨(s.host.print engine texts).2, s.outputs.log⟩, s.printed⟩

/-- What is reached by steps from a host to which nothing has been attached. -/
inductive Run (start : Host) : PrintHistory → Prop where
  | start : Run start ⟨⟨start, []⟩, []⟩
  | step {s t} : Run start s → Step start s t → Run start t

variable {start : Host} {s t : PrintHistory}

/-- What a run keeps: outputs follow the attachments, texts are printed as they are, and every
buffer has what has been printed to it. -/
structure Delivered (start : Host) (s : PrintHistory) : Prop where
  tracked : OutputHistory.Tracked s.outputs
  chained : OutputHistory.Chained start.output s.outputs
  plain : ∀ engine, (s.host.heap engine).PlainTexts
  buffers : ∀ w content, start.writer w = .buffer content →
    s.host.writer w = .buffer (content ++ (Delivery.to w s.printed).toUTF8)

theorem Delivered.output (delivered : Delivered start s) (engine : EngineId) :
    s.host.output engine = sink start engine s.outputs.log :=
  (delivered.chained engine).2.trans (Attachment.sink_eq_top ..).symm

theorem delivered_start (idle : OutputHistory.Idle start)
    (plain : ∀ engine, (start.heap engine).PlainTexts) : Delivered start ⟨⟨start, []⟩, []⟩ where
  tracked := OutputHistory.tracked_start idle
  chained := OutputHistory.chained_start idle
  plain := plain
  buffers w content buffer := by simpa [Delivery.to, String.join, PrintHistory.host] using buffer

theorem Delivered.route {outputs : OutputHistory} (delivered : Delivered start s)
    (taken : s.outputs.Step outputs) : Delivered start ⟨outputs, s.printed⟩ where
  tracked := delivered.tracked.step taken
  chained := delivered.chained.step delivered.tracked taken
  plain engine := by
    cases taken with
    | attach other sink present =>
        exact (Host.heap_attach s.host other engine sink).symm ▸ delivered.plain engine
    | detach other earlier split held =>
        exact (Host.heap_detach s.host other engine _).symm ▸ delivered.plain engine
  buffers w content buffer := by
    refine Eq.trans ?_ (delivered.buffers w content buffer)
    cases taken with
    | attach other sink present => exact Host.writer_attach s.host other sink w
    | detach other earlier split held => exact Host.writer_detach s.host other _ w

theorem Delivered.rehost {after : Host} (delivered : Delivered start s)
    (size : after.engines.size = s.host.engines.size)
    (routing : ∀ engine, after.routing engine = s.host.routing engine) :
    OutputHistory.Tracked ⟨after, s.outputs.log⟩ ∧
      OutputHistory.Chained start.output ⟨after, s.outputs.log⟩ := by
  refine ⟨delivered.tracked.rehost (Nat.le_of_eq size.symm) fun engine => ?_, fun engine => ?_⟩
  · rw [routing]
    rfl
  · obtain ⟨active, output⟩ := delivered.chained engine
    exact ⟨(congrArg Routing.active (routing engine)).trans active,
      (congrArg Routing.output (routing engine)).trans output⟩

theorem Delivery.to_append (w : WriterId) (printed : List Delivery) (d : Delivery) :
    Delivery.to w (printed ++ [d]) =
      Delivery.to w printed ++ (if d.sink.writer = w then d.text else "") := by
  by_cases here : d.sink.writer = w
  · simp [Delivery.to, here, String.join]
  · simp [Delivery.to, here]

theorem Delivered.print (delivered : Delivered start s) (engine : EngineId)
    (texts : List ByteArray) (succeeds : (s.host.print engine texts).1 = .ok []) :
    Delivered start ⟨⟨(s.host.print engine texts).2, s.outputs.log⟩,
      s.printed ++ [⟨engine, texts, sink start engine s.outputs.log⟩]⟩ := by
  obtain ⟨tracked, chained⟩ := delivered.rehost (Host.size_engines_print s.host engine texts)
    fun other => Host.routing_print s.host engine other texts
  obtain ⟨heap, plain, after⟩ := Host.print_ok (delivered.plain engine) succeeds
  have heaps (other : EngineId) : ((s.host.write (s.host.output engine)
      (Utf8.text (printedLine texts))).2.heap other).PlainTexts := by
    rw [Host.heap_write]
    exact delivered.plain other
  refine ⟨tracked, chained, fun other => ?_, fun w content buffer => ?_⟩
  · change ((s.host.print engine texts).2.heap other).PlainTexts
    rw [after]
    exact Host.heap_modifyHeap_all heaps plain other
  · change (s.host.print engine texts).2.writer w = _
    have before := delivered.buffers w content buffer
    have here := delivered.output engine
    rw [after, Delivery.to_append]
    by_cases reached : (s.host.output engine).writer = w
    · subst reached
      have joined : content ++ (Delivery.to (s.host.output engine).writer s.printed ++
          Utf8.text (printedLine texts)).toUTF8 =
          content ++ (Delivery.to (s.host.output engine).writer s.printed).toUTF8 ++
            (Utf8.text (printedLine texts)).toUTF8 := by
        simp [ByteArray.append_assoc]
      rw [← here, if_pos rfl, Delivery.text, joined]
      exact Host.writer_write_self before
    · rw [← here, if_neg reached, String.append_empty, ← before]
      exact Host.writer_write_of_ne reached

theorem Delivered.fail (delivered : Delivered start s) (engine : EngineId) (texts : List ByteArray)
    {e : EngineError} (fails : (s.host.print engine texts).1 = .error e)
    (finished : e ≠ Host.unfinished) :
    Delivered start ⟨⟨(s.host.print engine texts).2, s.outputs.log⟩, s.printed⟩ := by
  obtain ⟨tracked, chained⟩ := delivered.rehost (Host.size_engines_print s.host engine texts)
    fun other => Host.routing_print s.host engine other texts
  obtain ⟨heap, plain, after⟩ := Host.print_error (delivered.plain engine) fails finished
  refine ⟨tracked, chained, fun other => ?_, fun w content buffer => ?_⟩
  · change ((s.host.print engine texts).2.heap other).PlainTexts
    rw [after]
    exact Host.heap_modifyHeap_all delivered.plain plain other
  · change (s.host.print engine texts).2.writer w = _
    rw [after]
    exact delivered.buffers w content buffer

theorem Delivered.step (delivered : Delivered start s) (taken : Step start s t) :
    Delivered start t := by
  cases taken with
  | route taken => exact delivered.route taken
  | print engine texts present succeeds => exact delivered.print engine texts succeeds
  | fail engine texts error present fails finished => exact delivered.fail engine texts fails finished

theorem Run.delivered (idle : OutputHistory.Idle start)
    (plain : ∀ engine, (start.heap engine).PlainTexts) (run : Run start s) : Delivered start s := by
  induction run with
  | start => exact delivered_start idle plain
  | step _ taken ih => exact ih.step taken

/-- Over every run of attachments, detachments and printed texts: what is read from a buffer is
what it had at the start and then, in order, the lines that were printed while its stream was the
one attached latest among the active ones of the printing engine; repairing it again changes
nothing. The next line reaches no other writer, and it is printed if nothing prevents it. -/
theorem printed_lines_delivered (idle : OutputHistory.Idle start)
    (plain : ∀ engine, (start.heap engine).PlainTexts) (run : Run start s) :
    (∀ w (text : String), start.writer w = .buffer text.toUTF8 →
      (s.host.writer w).contents = text ++ Delivery.to w s.printed ∧
      ∃ bytes, s.host.writer w = .buffer bytes ∧
        Utf8.lossy bytes.data.toList = bytes.data.toList) ∧
    ∀ engine texts,
      (∀ w, w ≠ (sink start engine s.outputs.log).writer →
        (s.host.print engine texts).2.writer w = s.host.writer w) ∧
      ((s.host.heap engine).limit? = none →
        s.host.writer (sink start engine s.outputs.log).writer ≠ .broken →
        6 * texts.length + 20 < s.host.stepLimit → (s.host.print engine texts).1 = .ok []) := by
  have delivered := run.delivered idle plain
  refine ⟨fun w text buffer => ?_, fun engine texts => ⟨fun w elsewhere => ?_, ?_⟩⟩
  · have now := delivered.buffers w _ buffer
    have joined : text.toUTF8 ++ (Delivery.to w s.printed).toUTF8 =
        (text ++ Delivery.to w s.printed).toUTF8 := by simp
    have bytes : (text ++ Delivery.to w s.printed).toUTF8.data.toList =
        Utf8.bytes (text ++ Delivery.to w s.printed) := (Utf8.toList_eq _).symm
    rw [joined] at now
    refine ⟨?_, _, now, ?_⟩
    · rw [now, Writer.contents, bytes, Utf8.text_bytes]
    · rw [bytes, Utf8.bytes_eq_encode, Utf8.lossy_encode]
  · rw [← delivered.output engine] at elsewhere
    exact Host.writer_print_of_ne (delivered.plain engine) (Ne.symm elsewhere)
  · intro unlimited sound enough
    rw [← delivered.output engine] at sound
    exact Host.print_succeeds (delivered.plain engine) unlimited (Host.write_ok sound) enough

/-- Two engines and two buffers. -/
def twoBuffers : Host :=
  { engines := #[default, default], writers := #[.buffer .empty, .buffer .empty], files := default }

theorem heap_twoBuffers : ∀ engine, twoBuffers.heap engine = default
  | ⟨0⟩ => rfl
  | ⟨1⟩ => rfl
  | ⟨_ + 2⟩ => rfl

theorem idle_twoBuffers : OutputHistory.Idle twoBuffers
  | ⟨0⟩ => rfl
  | ⟨1⟩ => rfl
  | ⟨_ + 2⟩ => rfl

theorem plainTexts_twoBuffers (engine : EngineId) : (twoBuffers.heap engine).PlainTexts := by
  rw [heap_twoBuffers]
  rintro m ⟨⟩

/-- Both buffers are attached to the first engine. -/
def bothAttached : OutputHistory :=
  ((⟨twoBuffers, []⟩ : OutputHistory).attach ⟨0⟩ ⟨"outer", ⟨0⟩⟩).attach ⟨0⟩ ⟨"inner", ⟨1⟩⟩

/-- The guard of the first buffer has been handed back first. -/
def outerReturned : OutputHistory where
  host := (bothAttached.host.detach ⟨0⟩ ⟨⟨0⟩, 0, ⟨"outer", ⟨0⟩⟩⟩).2
  log := bothAttached.log.modifyHead (Attachment.handedTo ⟨0⟩)

theorem run_outerReturned : Run twoBuffers ⟨outerReturned, []⟩ := by
  have both : Run twoBuffers ⟨bothAttached, []⟩ :=
    .step (.step .start (.route (.attach ⟨0⟩ _ (by decide)))) (.route (.attach ⟨0⟩ _ (by decide)))
  have returned : OutputHistory.Step bothAttached _ :=
    OutputHistory.Step.detach (s := bothAttached) ⟨0⟩ [] rfl rfl
  exact both.step (.route returned)

theorem sink_outerReturned :
    sink twoBuffers ⟨0⟩ outerReturned.log = ⟨"inner", ⟨1⟩⟩ := by
  decide +kernel

/-- A line printed then reaches the second buffer and not the first one. -/
theorem printed_lines_delivered_inner :
    ∃ s, OutputHistory.Idle twoBuffers ∧ (∀ engine, (twoBuffers.heap engine).PlainTexts) ∧
      Run twoBuffers s ∧ (s.host.writer ⟨0⟩).contents = "" ∧
      (s.host.writer ⟨1⟩).contents = "a\tb\n" := by
  have sound : outerReturned.host.writer ⟨1⟩ = .buffer .empty := rfl
  have ready := ((printed_lines_delivered idle_twoBuffers plainTexts_twoBuffers
    run_outerReturned).2 ⟨0⟩ ["a".toUTF8, "b".toUTF8]).2 (by decide +kernel)
    (by rw [sink_outerReturned, PrintHistory.host, sound]; nofun) (by decide +kernel)
  have printed := run_outerReturned.step
    (.print ⟨0⟩ ["a".toUTF8, "b".toUTF8] (by decide +kernel) ready)
  have contents := (printed_lines_delivered idle_twoBuffers plainTexts_twoBuffers printed).1
  have line : printedLine ["a".toUTF8, "b".toUTF8] = Utf8.bytes "a\tb\n" := by decide +kernel
  refine ⟨_, idle_twoBuffers, plainTexts_twoBuffers, printed, ?_, ?_⟩
  · rw [(contents ⟨0⟩ "" rfl).1]
    simp [Delivery.to, sink_outerReturned]
  · rw [(contents ⟨1⟩ "" rfl).1, Delivery.to_append, sink_outerReturned, if_pos rfl, Delivery.text,
      line, Utf8.text_bytes]
    rfl

end PrintHistory

end ScriptHost
