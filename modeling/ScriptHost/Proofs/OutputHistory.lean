import ScriptHost.Proofs.HostState
import ScriptHost.Proofs.RedirectionChain

/-!
# Histories of attachments

What a host sees when it attaches streams to its engines and hands the guards back in any order,
also to the wrong engine. The output of an engine is always the stream attached latest among
those whose guards its own engine has not received.
-/

set_option autoImplicit false

namespace ScriptHost

/-- One attachment of a stream to an engine, and what has become of it. -/
structure Attachment where
  guard : StreamGuard
  /-- The output of the engine right before. -/
  before : Stream
  /-- Whether no redirection of the engine was active then. -/
  opens : Bool
  /-- Whether the guard is still to be handed back. -/
  held : Bool := true
  /-- Whether the guard has not been handed back to its own engine. -/
  active : Bool := true

namespace Attachment

def activeOn (engine : EngineId) (a : Attachment) : Bool := a.active && a.guard.engine == engine

/-- An attachment after its guard has been handed back to an engine. -/
def handedTo (engine : EngineId) (a : Attachment) : Attachment :=
  { a with held := false, active := a.active && a.guard.engine != engine }

def entry (a : Attachment) : Nat × Stream := (a.guard.redirection, a.guard.attached)

/-- The active redirections of an engine as a log has them, the earliest first. -/
def entriesOn (engine : EngineId) (log : List Attachment) : List (Nat × Stream) :=
  (log.filter (activeOn engine)).map entry

/-- The stream attached latest among those that are active on an engine; without any, the output
that the engine had at the start. -/
def sink (start : Host) (engine : EngineId) (log : List Attachment) : Stream :=
  ((log.filter (activeOn engine)).getLast?.map fun a => a.guard.attached).getD
    (start.output engine)

/-- The output of an engine right before its latest attachment that found no active
redirection. -/
def floor? (engine : EngineId) (log : List Attachment) : Option Stream :=
  (log.filter fun a => a.guard.engine == engine && a.opens).getLast?.map before

theorem activeOn_handedTo (engine other : EngineId) (a : Attachment) :
    (a.handedTo engine).activeOn other = (a.activeOn other && other != engine) := by
  by_cases own : a.guard.engine = other
  · subst own
    simp [activeOn, handedTo]
  · simp [activeOn, handedTo, beq_false_of_ne own]

theorem entriesOn_append (engine : EngineId) (earlier later : List Attachment) :
    entriesOn engine (earlier ++ later) = entriesOn engine earlier ++ entriesOn engine later := by
  simp [entriesOn]

theorem entriesOn_cons (engine : EngineId) (a : Attachment) (later : List Attachment) :
    entriesOn engine (a :: later) =
      (if a.activeOn engine then [a.entry] else []) ++ entriesOn engine later := by
  by_cases here : a.activeOn engine <;> simp [entriesOn, here]

/-- Handing a guard to an engine ends its redirection on that engine and on no other one. -/
theorem entriesOn_handedTo_of_ne {engine other : EngineId} (a : Attachment)
    (untouched : other ≠ engine ∨ a.guard.engine ≠ engine) (earlier later : List Attachment) :
    entriesOn other (earlier ++ a.handedTo engine :: later) =
      entriesOn other (earlier ++ a :: later) := by
  have same : (a.handedTo engine).activeOn other = a.activeOn other := by
    rw [activeOn_handedTo]
    rcases untouched with different | foreign
    · simp [different]
    · by_cases here : other = engine
      · subst here
        simp [activeOn, foreign]
      · simp [here]
  simp only [entriesOn_append, entriesOn_cons, same]
  rfl

theorem entriesOn_handedTo_self (engine : EngineId) (a : Attachment)
    (earlier later : List Attachment) :
    entriesOn engine (earlier ++ a.handedTo engine :: later) =
      entriesOn engine earlier ++ entriesOn engine later := by
  simp [entriesOn_append, entriesOn_cons, activeOn_handedTo]

theorem entriesOn_isEmpty (engine : EngineId) (log : List Attachment) :
    (entriesOn engine log).isEmpty = !log.any (activeOn engine) := by
  induction log with
  | nil => rfl
  | cons a later ih =>
      by_cases here : a.activeOn engine
      · simp [entriesOn, here]
      · simpa [entriesOn, here] using ih

theorem sink_eq_top (start : Host) (engine : EngineId) (log : List Attachment) :
    sink start engine log = Redirection.top (start.output engine) (entriesOn engine log) := by
  simp [sink, Redirection.top, entriesOn, entry, List.getLast?_map, Function.comp_def]

end Attachment

/-- A host, and what has been attached to its engines since the start, the earliest first. -/
structure OutputHistory where
  host : Host
  log : List Attachment

namespace OutputHistory

/-- Attaches a stream to an engine. -/
def attach (s : OutputHistory) (engine : EngineId) (sink : Stream) : OutputHistory where
  host := (s.host.attach engine sink).2
  log := s.log ++
    [{ guard := (s.host.attach engine sink).1
       before := s.host.output engine
       opens := !s.log.any (Attachment.activeOn engine) }]

/-- Attaching a stream, and handing a guard back to an engine, its own or another one. -/
inductive Step : OutputHistory → OutputHistory → Prop where
  | attach {s} (engine : EngineId) (sink : Stream) :
      engine.index < s.host.engines.size → Step s (s.attach engine sink)
  | detach {s a later} (engine : EngineId) (earlier : List Attachment) :
      s.log = earlier ++ a :: later → a.held = true →
      Step s ⟨(s.host.detach engine a.guard).2, earlier ++ a.handedTo engine :: later⟩

/-- The same steps, and replacing the output of an engine for good. -/
inductive RawStep : OutputHistory → OutputHistory → Prop where
  | guarded {s t} : Step s t → RawStep s t
  | replaceOutput {s} (engine : EngineId) (stream : Stream) :
      engine.index < s.host.engines.size →
      RawStep s ⟨(s.host.replaceOutput engine stream).2, s.log⟩

/-- What is reached by steps from a host to which nothing has been attached. -/
inductive Run (step : OutputHistory → OutputHistory → Prop) (start : Host) :
    OutputHistory → Prop where
  | start : Run step start ⟨start, []⟩
  | step {s t} : Run step start s → step s t → Run step start t

open Attachment

variable {start : Host} {s t : OutputHistory}

/-- Every attachment is to an engine that is there, every guard still held has an active
redirection, and the log has the active redirections of every engine. -/
structure Tracked (s : OutputHistory) : Prop where
  present : ∀ a ∈ s.log, a.guard.engine.index < s.host.engines.size
  held : ∀ a ∈ s.log, a.held = true → a.active = true
  entries : ∀ engine, (s.host.routing engine).active.map Redirection.entry = entriesOn engine s.log

theorem Tracked.split {s : OutputHistory} (tracked : Tracked s) {earlier later : List Attachment}
    {a : Attachment} (split : s.log = earlier ++ a :: later) (active : a.active = true) :
    (s.host.routing a.guard.engine).active.map Redirection.entry =
      entriesOn a.guard.engine earlier ++
        (a.guard.redirection, a.guard.attached) :: entriesOn a.guard.engine later := by
  have here : a.activeOn a.guard.engine = true := by simp [activeOn, active]
  rw [tracked.entries, split, entriesOn_append, entriesOn_cons, if_pos here]
  rfl

theorem mem_log_split {s : OutputHistory} {earlier later : List Attachment} {a : Attachment}
    (split : s.log = earlier ++ a :: later) : a ∈ s.log := by
  simp [split]

theorem Tracked.attach (tracked : Tracked s) {engine : EngineId}
    (present : engine.index < s.host.engines.size) (sink : Stream) :
    Tracked (s.attach engine sink) := by
  refine ⟨?_, ?_, ?_⟩
  · intro a member
    simp only [OutputHistory.attach, Host.size_engines_attach]
    rcases List.mem_append.mp member with old | new
    · exact tracked.present a old
    · rw [List.mem_singleton.mp new]
      exact present
  · intro a member isHeld
    rcases List.mem_append.mp member with old | new
    · exact tracked.held a old isHeld
    · rw [List.mem_singleton.mp new]
  · intro other
    simp only [OutputHistory.attach, entriesOn_append]
    by_cases same : other = engine
    · subst same
      rw [Host.routing_attach_self present, ← tracked.entries other]
      simp [Routing.attach, activeOn, Host.attach, Host.alterRouting,
        entriesOn, Redirection.entry, entry]
    · rw [Host.routing_attach_of_ne same, tracked.entries other]
      have elsewhere : engine ≠ other := Ne.symm same
      simp [activeOn, Host.attach, elsewhere, entriesOn]

theorem Tracked.detach (tracked : Tracked s) {earlier later : List Attachment} {a : Attachment}
    (engine : EngineId) (split : s.log = earlier ++ a :: later) (held : a.held = true) :
    Tracked ⟨(s.host.detach engine a.guard).2, earlier ++ a.handedTo engine :: later⟩ := by
  have active := tracked.held a (mem_log_split split) held
  refine ⟨?_, ?_, ?_⟩
  · intro b member
    simp only [Host.size_engines_detach]
    rcases List.mem_append.mp member with before | rest
    · exact tracked.present b (by simp [split, before])
    · rcases List.mem_cons.mp rest with rfl | after
      · exact tracked.present a (mem_log_split split)
      · exact tracked.present b (by simp [split, after])
  · intro b member isHeld
    rcases List.mem_append.mp member with before | rest
    · exact tracked.held b (by simp [split, before]) isHeld
    · rcases List.mem_cons.mp rest with rfl | after
      · simp [handedTo] at isHeld
      · exact tracked.held b (by simp [split, after]) isHeld
  · intro other
    by_cases untouched : other ≠ engine ∨ a.guard.engine ≠ engine
    · rw [entriesOn_handedTo_of_ne a untouched, ← split, ← tracked.entries other]
      rcases untouched with different | foreign
      · rw [Host.routing_detach_of_ne different]
      · rw [Host.detach_of_ne foreign]
    · obtain ⟨rfl, own⟩ : other = engine ∧ a.guard.engine = engine := by simpa using untouched
      subst own
      have entries := tracked.split split active
      obtain ⟨r, _, _, remaining, _⟩ := Routing.detach_of_entries entries
      have present := tracked.present a (mem_log_split split)
      rw [entriesOn_handedTo_self, Host.routing_detach_self present a.guard rfl, remaining]
      exact Redirection.map_entry_unlink (Routing.not_mem_of_entries entries).1 entries

theorem Tracked.step (tracked : Tracked s) (taken : Step s t) : Tracked t := by
  cases taken with
  | attach _ sink present => exact tracked.attach present sink
  | detach engine _ split held => exact tracked.detach engine split held

theorem Tracked.rawStep (tracked : Tracked s) (taken : RawStep s t) : Tracked t := by
  cases taken with
  | guarded taken => exact tracked.step taken
  | replaceOutput engine stream present =>
      refine ⟨?_, tracked.held, ?_⟩
      · intro a member
        simpa [Host.replaceOutput, Host.alterRouting] using tracked.present a member
      · intro other
        rw [← tracked.entries other]
        by_cases same : other = engine
        · subst same
          rw [Host.routing_replaceOutput_self present]
          rfl
        · rw [Host.routing_replaceOutput_of_ne same]

/-- No engine has an active redirection. -/
def Idle (h : Host) : Prop := ∀ engine, (h.routing engine).active = []

theorem tracked_start (idle : Idle start) : Tracked ⟨start, []⟩ := by
  refine ⟨by simp, by simp, ?_⟩
  intro engine
  simp [idle engine, entriesOn]

/-! ## Runs without replaced outputs -/

/-- The active redirections of every engine form a chain on top of a first output, and its output
is the top of the chain. -/
def Chained (base : EngineId → Stream) (s : OutputHistory) : Prop :=
  ∀ engine, (s.host.routing engine).active =
      Redirection.chain (base engine) (entriesOn engine s.log) ∧
    s.host.output engine = Redirection.top (base engine) (entriesOn engine s.log)

variable {base : EngineId → Stream}

theorem Chained.attach (chained : Chained base s) {engine : EngineId}
    (present : engine.index < s.host.engines.size) (sink : Stream) :
    Chained base (s.attach engine sink) := by
  intro other
  obtain ⟨active, output⟩ := chained other
  by_cases same : other = engine
  · subst same
    have appended : entriesOn other (s.attach other sink).log =
        entriesOn other s.log ++ [((s.host.routing other).nextId, sink)] := by
      simp [OutputHistory.attach, activeOn, Host.attach, Host.alterRouting, entriesOn, entry,
        Routing.attach]
    have routed : (s.attach other sink).host.routing other =
        ((s.host.routing other).attach sink).2 := Host.routing_attach_self present sink
    rw [appended, Redirection.chain_append, ← active, ← output]
    simp only [Host.output, routed, Routing.attach, Redirection.chain,
      Redirection.top_append_singleton, and_self]
  · have elsewhere : engine ≠ other := Ne.symm same
    have unchanged : entriesOn other (s.attach engine sink).log = entriesOn other s.log := by
      simp [OutputHistory.attach, activeOn, Host.attach, elsewhere, entriesOn]
    have routed : (s.attach engine sink).host.routing other = s.host.routing other :=
      Host.routing_attach_of_ne same sink
    rw [unchanged, routed]
    exact ⟨active, (congrArg Routing.output routed).trans output⟩

theorem Chained.split (chained : Chained base s) (tracked : Tracked s)
    {earlier later : List Attachment} {a : Attachment} (split : s.log = earlier ++ a :: later)
    (active : a.active = true) :
    (s.host.routing a.guard.engine).find? a.guard.redirection =
      some ⟨a.guard.redirection, a.guard.attached,
        Redirection.top (base a.guard.engine) (entriesOn a.guard.engine earlier)⟩ := by
  have entries := tracked.split split active
  have here : a.activeOn a.guard.engine = true := by simp [activeOn, active]
  have links := (chained a.guard.engine).1
  rw [split, entriesOn_append, entriesOn_cons, if_pos here] at links
  rw [Routing.find?, links]
  exact Redirection.find?_chain (Routing.not_mem_of_entries entries).1 _ _ _

theorem Chained.detach (chained : Chained base s) (tracked : Tracked s)
    {earlier later : List Attachment} {a : Attachment} (engine : EngineId)
    (split : s.log = earlier ++ a :: later) (held : a.held = true) :
    Chained base ⟨(s.host.detach engine a.guard).2, earlier ++ a.handedTo engine :: later⟩ := by
  have active := tracked.held a (mem_log_split split) held
  intro other
  -- Only the engine of the guard can change, and only if the guard is handed to it.
  by_cases untouched : other ≠ engine ∨ a.guard.engine ≠ engine
  · have routed : (s.host.detach engine a.guard).2.routing other = s.host.routing other := by
      rcases untouched with different | foreign
      · exact Host.routing_detach_of_ne different _
      · rw [Host.detach_of_ne foreign]
    obtain ⟨links, output⟩ := chained other
    rw [entriesOn_handedTo_of_ne a untouched, ← split, routed]
    exact ⟨links, (congrArg Routing.output routed).trans output⟩
  · obtain ⟨rfl, own⟩ : other = engine ∧ a.guard.engine = engine := by simpa using untouched
    subst own
    have present := tracked.present a (mem_log_split split)
    have here : a.activeOn a.guard.engine = true := by simp [activeOn, active]
    have entries := tracked.split split active
    have found := chained.split tracked split active
    obtain ⟨r, found', _, remaining, outcome⟩ := Routing.detach_of_entries entries
    have same := Option.some.inj (found'.symm.trans found)
    obtain ⟨links, output⟩ := chained a.guard.engine
    have routed := Host.routing_detach_self (h := s.host) present a.guard rfl
    rw [split, entriesOn_append, entriesOn_cons, if_pos here] at links
    rw [split, entriesOn_append, entriesOn_cons, if_pos here] at output
    rw [entriesOn_handedTo_self, routed, remaining, links]
    refine ⟨Redirection.unlink_chain (Routing.not_mem_of_entries entries).1 _ _ _, ?_⟩
    refine (congrArg Routing.output routed).trans (outcome.trans ?_)
    -- The output changes only if the redirection is the innermost one.
    cases last : entriesOn a.guard.engine later with
    | nil => simp [same]
    | cons next rest =>
        rw [last] at output
        simp only [List.isEmpty_cons, Bool.false_eq_true, if_false]
        refine output.trans ?_
        simp [Redirection.top_append, Redirection.top_cons]

theorem Chained.step (chained : Chained base s) (tracked : Tracked s) (taken : Step s t) :
    Chained base t := by
  cases taken with
  | attach _ sink present => exact chained.attach present sink
  | detach engine _ split held => exact chained.detach tracked engine split held

theorem chained_start (idle : Idle start) : Chained start.output ⟨start, []⟩ :=
  fun engine => ⟨by simp [idle engine, entriesOn, Redirection.chain], rfl⟩

theorem Run.tracked_chained (idle : Idle start) (run : Run Step start s) :
    Tracked s ∧ Chained start.output s := by
  induction run with
  | start => exact ⟨tracked_start idle, chained_start idle⟩
  | step _ taken ih =>
      obtain ⟨tracked, chained⟩ := ih
      exact ⟨tracked.step taken, chained.step tracked taken⟩

/-- Handing a guard to another engine changes nothing. Its own engine always finds the
redirection, and refuses it exactly if a later one is still active. -/
theorem Tracked.detach_outcome (tracked : Tracked s) {earlier later : List Attachment}
    {a : Attachment} (split : s.log = earlier ++ a :: later) (held : a.held = true) :
    ((s.host.routing a.guard.engine).find? a.guard.redirection).isSome = true ∧
      (s.host.detach a.guard.engine a.guard).1 =
        if later.any (activeOn a.guard.engine) then .error (.streamOutOfOrder a.guard.engine)
        else .ok () := by
  have entries := tracked.split split (tracked.held a (mem_log_split split) held)
  obtain ⟨r, found, innermost, _⟩ := Routing.detach_of_entries entries
  refine ⟨Routing.find?_isSome_of_entries entries, ?_⟩
  rw [Host.detach_self a.guard rfl, innermost, entriesOn_isEmpty]
  cases later.any (activeOn a.guard.engine) <;> rfl

/-! ## Hosts on which something else happens -/

section

variable {h after : Host} {log : List Attachment}

theorem Tracked.rehost (tracked : Tracked ⟨h, log⟩) (size : h.engines.size ≤ after.engines.size)
    (active : ∀ engine, (after.routing engine).active = (h.routing engine).active) :
    Tracked ⟨after, log⟩ where
  present a member := Nat.lt_of_lt_of_le (tracked.present a member) size
  held := tracked.held
  entries engine := (congrArg _ (active engine)).trans (tracked.entries engine)

/-- An engine to which nothing is attached may have any output. -/
theorem Chained.rehost (chained : Chained base ⟨h, log⟩)
    (active : ∀ engine, (after.routing engine).active = (h.routing engine).active)
    (output : ∀ engine, after.output engine = h.output engine ∨ (h.routing engine).active = []) :
    ∃ base, Chained base ⟨after, log⟩ := by
  refine ⟨fun engine => if (h.routing engine).active.isEmpty then after.output engine
    else base engine, fun engine => ?_⟩
  obtain ⟨links, outputs⟩ := chained engine
  cases idle : (h.routing engine).active with
  | nil =>
      have none : entriesOn engine log = [] := by
        have numbers := congrArg (List.map Redirection.id) (links.symm.trans idle)
        rw [Redirection.map_id_chain] at numbers
        simpa using numbers
      simp [active, idle, none, Redirection.chain]
  | cons r rest =>
      have same : after.output engine = h.output engine := by
        rcases output engine with same | none
        · exact same
        · rw [idle] at none
          cases none
      simp only [idle, List.isEmpty_cons, Bool.false_eq_true, if_false]
      exact ⟨(active engine).trans links, same.trans outputs⟩

end

/-- Over every run of attachments and detachments, in any order and with any guards handed to the
wrong engine: the output of an engine is the sink of its latest active attachment, an active
redirection returns to the sink of the active one before it, and a detachment is refused exactly
for a guard of another engine, which changes nothing, and while a later redirection is active. -/
theorem output_follows_active_attachments {start : Host} (idle : Idle start) {s : OutputHistory}
    (run : Run Step start s) :
    (∀ engine, s.host.output engine = sink start engine s.log) ∧
    (∀ earlier a later, s.log = earlier ++ a :: later → a.active = true →
      s.host.previousOutput a.guard = sink start a.guard.engine earlier) ∧
    ∀ earlier a later engine, s.log = earlier ++ a :: later → a.held = true →
      (a.guard.engine ≠ engine →
        s.host.detach engine a.guard =
          (.error (.streamGuardMismatch a.guard.engine engine), s.host)) ∧
      (a.guard.engine = engine →
        ((s.host.routing engine).find? a.guard.redirection).isSome = true ∧
        (s.host.detach engine a.guard).1 =
          if later.any (activeOn engine) then .error (.streamOutOfOrder engine) else .ok ()) := by
  obtain ⟨tracked, chained⟩ := run.tracked_chained idle
  refine ⟨fun engine => (chained engine).2.trans (sink_eq_top ..).symm, ?_, ?_⟩
  · intro earlier a later split active
    simp [Host.previousOutput, Routing.previous?, chained.split tracked split active, sink_eq_top]
  · intro earlier a later engine split held
    refine ⟨Host.detach_of_ne, ?_⟩
    rintro rfl
    exact tracked.detach_outcome split held

/-- Two engines to which nothing has been attached. -/
def twoEngines : Host := { engines := #[default, default], files := default }

theorem idle_twoEngines : Idle twoEngines
  | ⟨0⟩ => rfl
  | ⟨1⟩ => rfl
  | ⟨_ + 2⟩ => rfl

/-- Two streams attached to the first engine and one to the second. -/
def threeAttached : OutputHistory :=
  (((⟨twoEngines, []⟩ : OutputHistory).attach ⟨0⟩ ⟨"outer", ⟨0⟩⟩).attach ⟨0⟩
    ⟨"inner", ⟨1⟩⟩).attach ⟨1⟩ ⟨"other", ⟨2⟩⟩

theorem run_threeAttached : Run Step twoEngines threeAttached :=
  .step (.step (.step .start (.attach _ _ (by decide))) (.attach _ _ (by decide)))
    (.attach _ _ (by decide))

/-- After the guard of the outer stream has been handed back first. -/
theorem output_follows_active_attachments_out_of_order :
    ∃ s, Idle twoEngines ∧ Run Step twoEngines s ∧
      s.log.map Attachment.active = [false, true, true] ∧
      s.host.output ⟨0⟩ = ⟨"inner", ⟨1⟩⟩ ∧ s.host.output ⟨1⟩ = ⟨"other", ⟨2⟩⟩ ∧
      (s.host.detach ⟨0⟩ ⟨⟨1⟩, 0, ⟨"other", ⟨2⟩⟩⟩).1 =
        .error (.streamGuardMismatch ⟨1⟩ ⟨0⟩) := by
  have run := run_threeAttached.step (.detach ⟨0⟩ [] rfl rfl)
  obtain ⟨outputs, _, outcomes⟩ := output_follows_active_attachments idle_twoEngines run
  have refused := (outcomes [_, _] _ [] ⟨0⟩ rfl rfl).1 (by decide)
  exact ⟨_, idle_twoEngines, run, rfl, (outputs ⟨0⟩).trans (by decide +kernel),
    (outputs ⟨1⟩).trans (by decide +kernel), congrArg Prod.fst refused⟩

end OutputHistory

end ScriptHost
