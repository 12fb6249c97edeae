import ScriptHost.Proofs.Acquisitions
import ScriptHost.Proofs.OutputHistory

/-!
# Histories of invocations

What a host sees when its managers acquire invocations and it releases them in any order. The
output of an engine is always that of the latest invocation that is not released, and scripts see
the bindings of this invocation unless a later one was overtaken: then they see none at all.
-/

set_option autoImplicit false

namespace ScriptHost

open Lua Heap Scope

namespace Acquisition

def isOn (engine : EngineId) (a : Acquisition) : Bool := a.invocation.engine == engine

def liveOn (engine : EngineId) (a : Acquisition) : Bool := a.isOn engine && a.isLive

def overtakenOn (engine : EngineId) (a : Acquisition) : Bool := a.isOn engine && a.isOvertaken

end Acquisition

/-- A host, and what its managers have acquired since the start, the earliest first. -/
structure InvocationHistory where
  host : Host
  log : List Acquisition

/-- The contexts that a host has on record. -/
def Host.Knows (h : Host) (id : ContextId) (context : Context) : Prop :=
  h.context? id = some context

namespace InvocationHistory

open Acquisition

/-- The invocations on an engine, the latest first. -/
def onEngine (engine : EngineId) (log : List Acquisition) : List Acquisition :=
  (log.filter (isOn engine)).reverse

/-- The globals that are not needed to find bindings and modules. -/
def freeGlobals (h : Heap) (id : TableId) (k : Key) : Prop :=
  id = h.globals ∧ ∀ name ∈ Binding.names ++ ["package", "path", "setmetatable", "__index", "__mode"],
    k ≠ .ofText name

/-- Scopes work on the engine that a manager selects if it has not been selected before. -/
def Admits (s : InvocationHistory) (id : ManagerId) (context : Context) : Prop :=
  ∀ engine cached selected,
    s.host.selectEngine id context.policy context.cacheKey = (.ok (engine, cached), selected) →
    onEngine engine s.log = [] → Ready (selected.heap engine)

/-- Acquires an invocation, perhaps without success. -/
def acquire (s : InvocationHistory) (id : ManagerId) (context : Context) : InvocationHistory :=
  match s.host.acquire id context with
  | (.ok invocation, after) => ⟨after, s.log ++ [⟨invocation, id, none⟩]⟩
  | (.error _, after) => ⟨after, s.log⟩

/-- Releases the invocation with a number. -/
def release (s : InvocationHistory) (i : Nat) : InvocationHistory :=
  match s.log[i]? with
  | some a =>
    ⟨(s.host.release a.invocation).2, s.log.set i (a.release (s.host.release a.invocation).1)⟩
  | none => s

/-- Acquiring and releasing invocations. In between, scripts may run that make what they like, but
of the tables that are there change nothing but free globals. -/
inductive Step : InvocationHistory → InvocationHistory → Prop where
  | acquire {s} (id : ManagerId) (context : Context) : Admits s id context →
      Step s (s.acquire id context)
  | release {s} (i : Nat) : s.log[i]?.any isLive = true → Step s (s.release i)
  | script {s after} (engine : EngineId) :
      Host.RunsOn engine s.host after →
      Steady (freeGlobals (s.host.heap engine)) (s.host.heap engine) (after.heap engine) →
      Step s ⟨after, s.log⟩

/-- What is reached by steps from a host. -/
inductive Run (start : Host) : InvocationHistory → Prop where
  | start : Run start ⟨start, []⟩
  | step {s t} : Run start s → Step s t → Run start t

/-! ## Output -/

/-- What an attachment and the invocation that made it have in common. -/
def ofAttachment (a : Attachment) : StreamGuard × Bool × Bool := (a.guard, a.held, a.active)

def ofAcquisition (a : Acquisition) : StreamGuard × Bool × Bool :=
  (a.invocation.stream, a.isLive, a.isLive)

/-- The streams of invocations are attached and detached as in a history of attachments. -/
def Followed (h : Host) (log : List Acquisition) : Prop :=
  ∃ attachments base, OutputHistory.Tracked ⟨h, attachments⟩ ∧
    OutputHistory.Chained base ⟨h, attachments⟩ ∧
    attachments.map ofAttachment = log.map ofAcquisition

section

variable {h after : Host} {engine : EngineId} {log earlier later : List Acquisition}
  {a : Acquisition}

theorem Followed.rehost (followed : Followed h log)
    (size : h.engines.size ≤ after.engines.size)
    (active : ∀ engine, (after.routing engine).active = (h.routing engine).active)
    (output : ∀ engine, after.output engine = h.output engine ∨ (h.routing engine).active = []) :
    Followed after log := by
  obtain ⟨attachments, base, tracked, chained, same⟩ := followed
  obtain ⟨moved, rehosted⟩ := chained.rehost active output
  exact ⟨attachments, moved, tracked.rehost size active, rehosted, same⟩

theorem Followed.rehost_routing (followed : Followed h log)
    (size : after.engines.size = h.engines.size)
    (routings : ∀ engine, after.routing engine = h.routing engine) : Followed after log :=
  followed.rehost (Nat.le_of_eq size.symm) (fun engine => by rw [routings engine])
    fun engine => .inl (by rw [Host.output, routings engine, Host.output])

theorem Followed.grows (followed : Followed h log) (grows : Host.Grows h after) :
    Followed after log := by
  refine followed.rehost grows.size (fun engine => ?_) fun engine => ?_
  · rcases Nat.lt_or_ge engine.index h.engines.size with present | missing
    · rw [Host.routing, grows.engine engine present, Host.routing]
    · rw [grows.idle engine missing, Host.Grows.active_of_missing missing]
  · rcases Nat.lt_or_ge engine.index h.engines.size with present | missing
    · exact .inl (by rw [Host.output, Host.routing, grows.engine engine present]; rfl)
    · exact .inr (Host.Grows.active_of_missing missing)

theorem Followed.runsOn (followed : Followed h log) (runs : Host.RunsOn engine h after) :
    Followed after log := by
  refine followed.rehost_routing runs.size fun other => ?_
  by_cases same : other = engine
  · rw [same, runs.routing]
  · rw [Host.routing, runs.others other same, Host.routing]

theorem Followed.attach (followed : Followed h log) (present : engine.index < h.engines.size)
    {sink : Stream} (live : a.released? = none)
    (stream : (h.attach engine sink).1 = a.invocation.stream) :
    Followed (h.attach engine sink).2 (log ++ [a]) := by
  obtain ⟨attachments, base, tracked, chained, same⟩ := followed
  refine ⟨_, base, tracked.attach present sink, chained.attach present sink, ?_⟩
  simp [same, ofAttachment, ofAcquisition, isLive, live, stream]

theorem exists_split {attachments : List Attachment}
    (same : attachments.map ofAttachment = (earlier ++ a :: later).map ofAcquisition) :
    ∃ before t rest, attachments = before ++ t :: rest ∧
      before.map ofAttachment = earlier.map ofAcquisition ∧
      ofAttachment t = ofAcquisition a ∧ rest.map ofAttachment = later.map ofAcquisition := by
  rw [List.map_append, List.map_cons] at same
  obtain ⟨before, others, rfl, first, second⟩ := List.map_eq_append_iff.mp same
  obtain ⟨t, rest, rfl, own, last⟩ := List.map_eq_cons_iff.mp second
  exact ⟨before, t, rest, rfl, first, own, last⟩

theorem any_activeOn {attachments : List Attachment}
    (same : attachments.map ofAttachment = log.map ofAcquisition)
    (formed : ∀ a ∈ log, a.Formed) (engine : EngineId) :
    attachments.any (Attachment.activeOn engine) = log.any (liveOn engine) := by
  have read : attachments.any (Attachment.activeOn engine) =
      (attachments.map ofAttachment).any fun t => t.2.2 && t.1.engine == engine := by
    rw [List.any_map]
    rfl
  rw [read, same, List.any_map]
  clear read same
  induction log with
  | nil => rfl
  | cons a rest ih =>
      have own := (formed a List.mem_cons_self).stream
      rw [List.any_cons, List.any_cons, ih fun b member => formed b (List.mem_cons_of_mem a member)]
      simp [liveOn, isOn, ofAcquisition, own, Bool.and_comm]

/-- Detaching the stream of an invocation is refused exactly if a later one on its engine is not
released. -/
theorem Followed.detach (followed : Followed h (earlier ++ a :: later))
    (formed : ∀ b ∈ earlier ++ a :: later, b.Formed) (live : a.released? = none)
    (outcome : Except EngineError Unit) :
    (h.detach a.invocation.engine a.invocation.stream).1 =
        (if later.any (liveOn a.invocation.engine) then
          .error (.streamOutOfOrder a.invocation.engine) else .ok ()) ∧
      Followed (h.detach a.invocation.engine a.invocation.stream).2
        (earlier ++ a.release outcome :: later) := by
  obtain ⟨attachments, base, tracked, chained, same⟩ := followed
  obtain ⟨before, t, rest, rfl, first, own, last⟩ := exists_split same
  have guard : t.guard = a.invocation.stream := congrArg Prod.fst own
  have held : t.held = true :=
    (congrArg (fun s => s.2.1) own).trans (by simp [ofAcquisition, isLive, live])
  have stream := (formed a (by simp)).stream
  have here : t.guard.engine = a.invocation.engine := by rw [guard, stream]
  obtain ⟨_, answer⟩ := tracked.detach_outcome rfl held
  rw [here, guard, any_activeOn last fun b member =>
    formed b (List.mem_append_right _ (List.mem_cons_of_mem a member))] at answer
  refine ⟨answer, before ++ t.handedTo a.invocation.engine :: rest, base, ?_, ?_, ?_⟩
  · rw [← guard]
    exact tracked.detach a.invocation.engine rfl held
  · rw [← guard]
    exact chained.detach tracked a.invocation.engine rfl held
  · simp [first, last, ofAttachment, ofAcquisition, Attachment.handedTo, guard, stream,
      Acquisition.release, isLive]

theorem Followed.output (followed : Followed h (earlier ++ a :: later))
    (formed : ∀ b ∈ earlier ++ a :: later, b.Formed) (live : a.released? = none)
    (latest : later.any (liveOn a.invocation.engine) = false) :
    h.output a.invocation.engine = a.invocation.context.output := by
  obtain ⟨attachments, base, tracked, chained, same⟩ := followed
  obtain ⟨before, t, rest, rfl, first, own, last⟩ := exists_split same
  have guard : t.guard = a.invocation.stream := congrArg Prod.fst own
  have active : t.active = true :=
    (congrArg (fun s => s.2.2) own).trans (by simp [ofAcquisition, isLive, live])
  obtain ⟨stream, _, attached⟩ := formed a (by simp)
  have here : t.activeOn a.invocation.engine = true := by
    simp [Attachment.activeOn, active, guard, stream]
  have none : Attachment.entriesOn a.invocation.engine rest = [] := by
    rw [← List.isEmpty_iff, Attachment.entriesOn_isEmpty, any_activeOn last fun b member =>
      formed b (List.mem_append_right _ (List.mem_cons_of_mem a member)), latest]
    rfl
  refine (chained a.invocation.engine).2.trans ?_
  rw [Attachment.entriesOn_append, Attachment.entriesOn_cons, if_pos here, none, List.append_nil,
    Redirection.top_append_singleton]
  exact (congrArg StreamGuard.attached guard).trans attached

end

/-! ## Runs -/

/-- The guards of all invocations are for their own engines, their streams are attached as in a
history of attachments, and the scopes on every engine are linked. -/
structure Coherent (s : InvocationHistory) : Prop where
  formed : ∀ a ∈ s.log, a.Formed
  followed : Followed s.host s.log
  sound : ∀ engine, onEngine engine s.log ≠ [] →
    Sound s.host.Knows (s.host.heap engine) (onEngine engine s.log)

variable {s t : InvocationHistory}

theorem onEngine_append (engine : EngineId) (earlier later : List Acquisition) :
    onEngine engine (earlier ++ later) = onEngine engine later ++ onEngine engine earlier := by
  simp [onEngine]

theorem onEngine_cons (engine : EngineId) (a : Acquisition) (later : List Acquisition) :
    onEngine engine (a :: later) =
      onEngine engine later ++ if a.isOn engine then [a] else [] := by
  by_cases here : a.isOn engine <;> simp [onEngine, here]

theorem onEngine_split {engine : EngineId} {a : Acquisition} (own : a.invocation.engine = engine)
    (earlier later : List Acquisition) :
    onEngine engine (earlier ++ a :: later) =
      onEngine engine later ++ a :: onEngine engine earlier := by
  rw [onEngine_append, onEngine_cons, if_pos (by simp [isOn, own]), List.append_assoc]
  rfl

theorem onEngine_split_of_ne {engine : EngineId} {a : Acquisition}
    (other : engine ≠ a.invocation.engine) (earlier later : List Acquisition) :
    onEngine engine (earlier ++ a :: later) =
      onEngine engine later ++ onEngine engine earlier := by
  have elsewhere : a.isOn engine = false := by simpa [isOn] using Ne.symm other
  rw [onEngine_append, onEngine_cons, if_neg (by simp [elsewhere]), List.append_nil]

theorem Coherent.present (coherent : Coherent s) {engine : EngineId}
    (used : onEngine engine s.log ≠ []) : engine.index < s.host.engines.size :=
  Host.present_of_orderly (coherent.sound engine used).ready.orderly

theorem Coherent.heap_selected (coherent : Coherent s) {selected : Host}
    (grows : Host.Grows s.host selected) {engine : EngineId} (used : onEngine engine s.log ≠ []) :
    selected.heap engine = s.host.heap engine := by
  rw [Host.heap, grows.engine engine (coherent.present used), Host.heap]

/-- Nothing happens on any engine to the scopes of its invocations. -/
theorem Coherent.rehost (coherent : Coherent s) {after : Host} (followed : Followed after s.log)
    (contexts : ∀ id context, s.host.context? id = some context →
      after.context? id = some context)
    (sound : ∀ engine, onEngine engine s.log ≠ [] → after.heap engine = s.host.heap engine ∨
      Sound s.host.Knows (after.heap engine) (onEngine engine s.log)) :
    Coherent ⟨after, s.log⟩ where
  formed := coherent.formed
  followed := followed
  sound engine used := by
    rcases sound engine used with same | sound
    · rw [same]
      exact (coherent.sound engine used).mono contexts
    · exact sound.mono contexts

theorem not_freeGlobals {name : String} (h : Heap) (id : TableId)
    (needed : name ∈ Binding.names ++ ["package", "path", "setmetatable", "__index", "__mode"]) :
    ¬ freeGlobals h id (.ofText name) := fun ⟨_, free⟩ => free name needed rfl

theorem Coherent.script (coherent : Coherent s) {engine : EngineId} {after : Host}
    (runs : Host.RunsOn engine s.host after)
    (steady : Steady (freeGlobals (s.host.heap engine)) (s.host.heap engine)
      (after.heap engine)) : Coherent ⟨after, s.log⟩ := by
  refine coherent.rehost (coherent.followed.runsOn runs) runs.contexts fun other used => ?_
  by_cases same : other = engine
  · subst same
    refine .inr ((coherent.sound other used).steady steady ?_ ?_ ?_ ?_)
    · intro id name reserved
      refine not_freeGlobals _ id (List.mem_append_right _ ?_)
      simp only [List.mem_cons, List.not_mem_nil, or_false] at reserved
      rcases reserved with rfl | rfl | rfl | rfl <;> decide
    · intro p _ assigned
      exact absurd assigned (not_freeGlobals _ p (List.mem_append_right _ (by decide)))
    · intro binding
      exact not_freeGlobals _ _
        (List.mem_append_left _ (List.mem_map_of_mem (Binding.mem_all binding)))
    · exact fun id k touched => .inl touched.1
  · exact .inl (by rw [Host.heap, runs.others other same, Host.heap])

theorem Coherent.refused (coherent : Coherent s) {id : ManagerId} {context : Context}
    {e : EngineError} {after : Host} (refused : s.host.acquire id context = (.error e, after)) :
    Coherent ⟨after, s.log⟩ := by
  have grows := Host.grows_selectEngine s.host id context.policy context.cacheKey
  cases selects : s.host.selectEngine id context.policy context.cacheKey with
  | mk result selected =>
      rw [selects] at grows
      cases result with
      | error failure =>
          have same : after = selected := by
            rw [Host.acquire, selects] at refused
            exact (congrArg Prod.snd refused).symm
          rw [same]
          exact coherent.rehost (coherent.followed.grows grows) grows.contexts
            fun engine used => .inl (coherent.heap_selected grows used)
      | ok choice =>
          obtain ⟨engine, cached⟩ := choice
          obtain ⟨restored, contexts, rewound⟩ := Host.refused_of_acquire selects refused
          refine coherent.rehost ?_ ?_ fun other used => ?_
          · exact (coherent.followed.grows grows).rehost (Nat.le_of_eq restored.size.symm)
              (fun other => (restored.everywhere other).1)
              fun other => .inl (restored.everywhere other).2
          · exact fun id context found => contexts id context (grows.contexts id context found)
          · by_cases same : other = engine
            · subst same
              have sound := coherent.sound other used
              rw [← coherent.heap_selected grows used] at sound
              exact .inr (sound.rewound (rewound sound.ready.orderly))
            · refine .inl ?_
              rw [Host.heap, restored.others other same]
              exact coherent.heap_selected grows used

theorem Coherent.acquired (coherent : Coherent s) {id : ManagerId} {context : Context}
    {engine : EngineId} {cached : Bool} {invocation : Invocation} {selected after : Host}
    (selects : s.host.selectEngine id context.policy context.cacheKey =
      (.ok (engine, cached), selected))
    (ready : onEngine engine s.log = [] → Ready (selected.heap engine))
    (acquires : s.host.acquire id context = (.ok invocation, after)) :
    Coherent ⟨after, s.log ++ [⟨invocation, id, none⟩]⟩ := by
  have grows := Host.grows_selectEngine s.host id context.policy context.cacheKey
  rw [selects] at grows
  have sound : Sound selected.Knows (selected.heap engine) (onEngine engine s.log) := by
    by_cases used : onEngine engine s.log = []
    · rw [used]
      exact .ofReady (ready used)
    · rw [coherent.heap_selected grows used]
      exact (coherent.sound engine used).mono grows.contexts
  have present := Host.present_of_orderly sound.ready.orderly
  obtain ⟨rfl, rfl, acquired⟩ := Host.acquired_of_acquire selects sound.ready.orderly acquires
  refine ⟨?_, ?_, ?_⟩
  · intro a member
    rcases List.mem_append.mp member with old | new
    · exact coherent.formed a old
    · rw [List.mem_singleton.mp new]
      exact acquired.formed
  · have attached := (coherent.followed.grows grows).attach present rfl acquired.stream
    refine attached.rehost_routing ?_ fun other => ?_
    · rw [Host.size_engines_attach]
      exact acquired.size
    · by_cases same : other = invocation.engine
      · rw [same, Host.routing_attach_self present]
        exact acquired.routing
      · rw [Host.routing_attach_of_ne same, Host.routing, acquired.others other same, Host.routing]
  · intro other used
    by_cases same : other = invocation.engine
    · subst same
      obtain ⟨contextId, middle, p, patterns, isKnown, injected, package, assigned⟩ :=
        acquired.scope
      have entered := (sound.mono acquired.contexts).acquire rfl injected isKnown
      have newest : onEngine invocation.engine (s.log ++ [⟨invocation, id, none⟩]) =
          ⟨invocation, id, none⟩ :: onEngine invocation.engine s.log :=
        onEngine_split (a := ⟨invocation, id, none⟩) rfl s.log []
      rw [newest, assigned]
      exact entered.assignPath package patterns
    · have unchanged : onEngine other (s.log ++ [⟨invocation, id, none⟩]) =
          onEngine other s.log := onEngine_split_of_ne same s.log []
      rw [unchanged] at used ⊢
      have kept : after.heap other = s.host.heap other := by
        rw [Host.heap, acquired.others other same]
        exact coherent.heap_selected grows used
      rw [kept]
      exact (coherent.sound other used).mono fun id context found =>
        acquired.contexts id context (grows.contexts id context found)

/-- A release is refused exactly if a later invocation on the engine is not released. -/
theorem Coherent.release_outcome (coherent : Coherent s) {earlier later : List Acquisition}
    {a : Acquisition} (split : s.log = earlier ++ a :: later) (live : a.released? = none)
    (outcome : Except EngineError Unit) :
    (s.host.release a.invocation).1 =
        (if later.any (liveOn a.invocation.engine) then
          .error (.streamOutOfOrder a.invocation.engine) else .ok ()) ∧
      Followed (s.host.release a.invocation).2 (earlier ++ a.release outcome :: later) := by
  have formed := coherent.formed
  have followed := coherent.followed
  rw [split] at formed followed
  have own := (formed a (by simp)).bindings
  have cleared := followed.runsOn
    (Host.runsOn_clear s.host a.invocation.engine a.invocation.bindings)
  obtain ⟨answer, detached⟩ := cleared.detach formed live outcome
  refine ⟨?_, detached.runsOn (Host.runsOn_release s.host a.invocation)⟩
  rw [(Host.release_eq s.host a.invocation).1, ← answer, Host.clear, if_pos own]
  rfl

theorem any_isLive_onEngine (engine : EngineId) (log : List Acquisition) :
    (onEngine engine log).any isLive = log.any (liveOn engine) := by
  rw [onEngine, List.any_reverse, List.any_filter]
  rfl

theorem Coherent.released (coherent : Coherent s) {earlier later : List Acquisition}
    {a : Acquisition} (split : s.log = earlier ++ a :: later) (live : a.released? = none) :
    Coherent ⟨(s.host.release a.invocation).2,
      earlier ++ a.release (s.host.release a.invocation).1 :: later⟩ := by
  obtain ⟨answer, followed⟩ := coherent.release_outcome split live (s.host.release a.invocation).1
  have formed := coherent.formed
  rw [split] at formed
  have own : onEngine a.invocation.engine s.log =
      onEngine a.invocation.engine later ++ a :: onEngine a.invocation.engine earlier := by
    rw [split, onEngine_split rfl]
  have sound := coherent.sound a.invocation.engine (by simp [own])
  have present : a.invocation.engine.index < s.host.engines.size :=
    coherent.present (by rw [own]; simp)
  have released := Host.released_of_release (formed a (by simp)).bindings present
  have ownAfter : (a.release (s.host.release a.invocation).1).invocation.engine =
      a.invocation.engine := rfl
  rw [own] at sound
  refine ⟨?_, followed, ?_⟩
  · intro b member
    rcases List.mem_append.mp member with before | rest
    · exact formed b (List.mem_append_left _ before)
    · rcases List.mem_cons.mp rest with rfl | after
      · exact ⟨(formed a (by simp)).stream, (formed a (by simp)).bindings,
          (formed a (by simp)).attached⟩
      · exact formed b (by simp [after])
  · intro other used
    by_cases same : other = a.invocation.engine
    · subst same
      have left := sound.release live (.streamOutOfOrder a.invocation.engine)
      rw [any_isLive_onEngine, ← answer] at left
      rw [onEngine_split ownAfter]
      rcases released.scope with same | ⟨running, same⟩
      · rw [same]
        exact left.mono released.contexts
      · rw [same]
        exact (left.steady_all (Steady.collect _ running _)).mono released.contexts
    · have unaffected : onEngine other
          (earlier ++ a.release (s.host.release a.invocation).1 :: later) =
            onEngine other s.log := by
        rw [split, onEngine_split_of_ne same, onEngine_split_of_ne (by rwa [ownAfter])]
      have kept : (s.host.release a.invocation).2.heap other = s.host.heap other := by
        rw [Host.heap, released.others other same, Host.heap]
      rw [unaffected] at used ⊢
      rw [kept]
      exact (coherent.sound other used).mono released.contexts

/-- No script needs to be considered if none prepares engines and the cached engine, if there is
one, has been selected before. -/
theorem admits_of_bare {id : ManagerId} {context : Context}
    (bare : (s.host.manager id).factory.initializers = [])
    (used : ((s.host.cacheOf id).get? context.cacheKey).all
      (fun engine => s.log.any (isOn engine)) = true) : Admits s id context := by
  intro engine cached selected selects unused
  rcases Host.unused_selectEngine bare selects with found | fresh
  · rw [found, Option.all_some, List.any_eq_true] at used
    obtain ⟨a, member, here⟩ := used
    have listed : a ∈ onEngine engine s.log := by simp [onEngine, member, here]
    rw [unused] at listed
    cases listed
  · exact fresh.ready

theorem exists_log_split {i : Nat} {a : Acquisition} (found : s.log[i]? = some a) :
    s.log = s.log.take i ++ a :: s.log.drop (i + 1) ∧
      ∀ b, s.log.set i b = s.log.take i ++ b :: s.log.drop (i + 1) := by
  obtain ⟨below, same⟩ := List.getElem?_eq_some_iff.mp found
  refine ⟨?_, fun b => ?_⟩
  · rw [← same, List.getElem_cons_drop, List.take_append_drop]
  · rw [List.set_eq_take_append_cons_drop, if_pos below]

theorem Coherent.step (coherent : Coherent s) (taken : Step s t) : Coherent t := by
  cases taken with
  | acquire id context admits =>
      unfold InvocationHistory.acquire
      split
      · rename_i invocation after acquires
        cases selects : s.host.selectEngine id context.policy context.cacheKey with
        | mk result selected =>
            cases result with
            | error e =>
                rw [Host.acquire, selects] at acquires
                cases acquires
            | ok choice =>
                obtain ⟨engine, cached⟩ := choice
                exact coherent.acquired selects (admits engine cached selected selects) acquires
      · rename_i refused
        exact coherent.refused refused
  | release i held =>
      obtain ⟨a, found, live⟩ := (Option.any_eq_true ..).mp held
      have live := Option.isNone_iff_eq_none.mp live
      obtain ⟨split, assigned⟩ := exists_log_split found
      simp only [InvocationHistory.release, found, assigned]
      exact coherent.released split live
  | script engine runs steady => exact coherent.script runs steady

theorem Run.coherent {start : Host} (idle : OutputHistory.Idle start) (run : Run start s) :
    Coherent s := by
  induction run with
  | start =>
      refine ⟨by simp, ⟨[], start.output, OutputHistory.tracked_start idle, ?_, rfl⟩, ?_⟩
      · intro engine
        exact ⟨by simp [idle engine, Attachment.entriesOn, Redirection.chain], rfl⟩
      · intro engine used
        exact absurd rfl used
  | step _ taken ih => exact ih.step taken

/-- Over every run of acquisitions and releases, in any order: the output of an engine is that of
the latest invocation on it that is not released, and scripts see the bindings of this invocation
unless a later one was released out of order. In that case, and only then, all are absent. -/
theorem bindings_follow_latest_invocation {start : Host} (idle : OutputHistory.Idle start)
    (run : Run start s) {i : Nat} {a : Acquisition} (found : s.log[i]? = some a)
    (live : a.isLive = true)
    (latest : (s.log.drop (i + 1)).any (liveOn a.invocation.engine) = false) :
    s.host.output a.invocation.engine = a.invocation.context.output ∧
    ∃ contextId own, s.host.context? contextId = some a.invocation.context ∧
      ∀ binding, ∃ v, s.host.binding a.invocation.engine binding = (.ok v, s.host) ∧
        if (s.log.drop (i + 1)).any (overtakenOn a.invocation.engine) then v = .null
        else Shows (s.host.heap a.invocation.engine) own (a.subject contextId) v binding := by
  have coherent := run.coherent idle
  have live := Option.isNone_iff_eq_none.mp live
  obtain ⟨split, _⟩ := exists_log_split found
  have formed := coherent.formed
  have followed := coherent.followed
  have sound := coherent.sound a.invocation.engine (by
    rw [split, onEngine_split rfl]
    simp)
  have orderly := sound.ready.orderly
  rw [split] at formed followed
  rw [split, onEngine_split rfl] at sound
  obtain ⟨contextId, own, known, reads⟩ := sound.reads live ((any_isLive_onEngine ..).trans latest)
  refine ⟨followed.output formed live latest, contextId, own, known, fun binding => ?_⟩
  refine ⟨_, Host.global_of_orderly orderly binding.name, ?_⟩
  have overtaken : (onEngine a.invocation.engine (s.log.drop (i + 1))).any isOvertaken =
      (s.log.drop (i + 1)).any (overtakenOn a.invocation.engine) := by
    rw [onEngine, List.any_reverse, List.any_filter]
    rfl
  rw [← overtaken]
  exact reads binding

/-- A host with one manager, whose factory has no scripts to prepare engines. -/
def oneManager : Host where
  caches := #[{}]
  managers := #[{ cache := ⟨0⟩ }]
  writers := #[.buffer .empty, .buffer .empty, .buffer .empty]
  results := #[[]]
  files := default

/-- A context whose output goes to a writer of its own. -/
def toolContext (i : Nat) (name : String) : Context where
  output := ⟨name, ⟨i⟩⟩
  command := { name, package := "tools" }
  results := ⟨0⟩

/-- Three invocations on one engine. -/
def threeNested : InvocationHistory :=
  (((⟨oneManager, []⟩ : InvocationHistory).acquire ⟨0⟩ (toolContext 0 "outer")).acquire ⟨0⟩
    (toolContext 1 "middle")).acquire ⟨0⟩ (toolContext 2 "inner")

theorem idle_oneManager : OutputHistory.Idle oneManager := fun _ => rfl

theorem run_threeNested : Run oneManager threeNested := by
  have first : Run oneManager _ := Run.start.step
    (.acquire ⟨0⟩ (toolContext 0 "outer") (admits_of_bare rfl (by decide +kernel)))
  have second := first.step
    (.acquire ⟨0⟩ (toolContext 1 "middle") (admits_of_bare (by decide +kernel) (by decide +kernel)))
  exact second.step
    (.acquire ⟨0⟩ (toolContext 2 "inner") (admits_of_bare (by decide +kernel) (by decide +kernel)))

/-- After the innermost invocation, the one before it has the output and its bindings again. -/
theorem bindings_follow_latest_invocation_after_release :
    ∃ s a, OutputHistory.Idle oneManager ∧ Run oneManager s ∧ s.log[1]? = some a ∧
      a.isLive = true ∧ (s.log.drop 2).any (liveOn ⟨0⟩) = false ∧
      s.host.output ⟨0⟩ = ⟨"middle", ⟨1⟩⟩ ∧
      s.host.binding ⟨0⟩ .commandName = (.ok (.ofText "middle"), s.host) := by
  have run := run_threeNested.step (.release 2 (by decide +kernel))
  have facts : (threeNested.release 2).log[1]?.map (fun a => (a.isLive, a.invocation.engine,
        a.invocation.context.output, a.invocation.context.command.name)) =
          some (true, ⟨0⟩, ⟨"middle", ⟨1⟩⟩, "middle") ∧
      ((threeNested.release 2).log.drop 2).any (liveOn ⟨0⟩) = false ∧
      ((threeNested.release 2).log.drop 2).any (overtakenOn ⟨0⟩) = false := by
    decide +kernel
  generalize threeNested.release 2 = s at run facts
  obtain ⟨described, latest, overtaken⟩ := facts
  obtain ⟨a, found, described⟩ := Option.map_eq_some_iff.mp described
  simp only [Prod.mk.injEq] at described
  obtain ⟨live, engine, output, name⟩ := described
  obtain ⟨sink, contextId, own, _, reads⟩ :=
    bindings_follow_latest_invocation idle_oneManager run found live (by rwa [engine])
  obtain ⟨v, read, shown⟩ := reads .commandName
  rw [engine] at sink read shown
  rw [overtaken] at shown
  have text : v = .ofText a.invocation.context.command.name := shown
  rw [text, name] at read
  exact ⟨s, a, idle_oneManager, run, found, live, latest, sink.trans output, read⟩

/-- The stream of an overtaken invocation is gone for good, but its blank scope comes back: the
one before it has the output and does not see its bindings. -/
theorem bindings_absent_after_overtaken_release :
    ∃ s, Run oneManager s ∧ s.log.map isLive = [true, false, false] ∧
      s.log.map (isOn ⟨0⟩) = [true, true, true] ∧
      s.host.output ⟨0⟩ = ⟨"outer", ⟨0⟩⟩ ∧
      (s.host.isAbsent ⟨0⟩ .commandName).1.toOption = some true := by
  have run := (run_threeNested.step (.release 1 (by decide +kernel))).step
    (.release 2 (by decide +kernel))
  exact ⟨(threeNested.release 1).release 2, run, by decide +kernel⟩

end InvocationHistory

end ScriptHost
