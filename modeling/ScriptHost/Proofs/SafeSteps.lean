import ScriptHost.Lua.Machine
import ScriptHost.Proofs.SafeLibrary
import ScriptHost.Proofs.SafePrograms

/-!
# Steps that keep secrets

A machine that holds nothing secret holds nothing secret after its next step, unless this step
calls a function that gets, sets or circumvents the metatable of the globals.
-/

set_option autoImplicit false

namespace ScriptHost.Lua

/-- The function of the library that a value is. -/
def Heap.library? (h : Heap) : Value → Option Builtin
  | .builtin f => some f
  | .closure id =>
    match h.closure? id with
    | some (.native f _) => some f
    | _ => none
  | _ => none

/-- A call that gets, sets or circumvents the metatable of the globals. Reading and assigning
globals, with or without metamethods in between, is none. -/
def Heap.Bypasses (h : Heap) (f : Value) (arguments : List Value) : Prop :=
  (h.library? f).any Builtin.handlesMetatable = true ∧ firstOf arguments = .table h.globals

/-- An action that starts with such a call. -/
def Action.Bypasses (h : Heap) : Action → Prop
  | .call f arguments _ _ | .tail f arguments _ => h.Bypasses f arguments
  | _ => False

namespace Vault

open Machine

variable {V W : Vault} {h after : Heap}

/-! ## Machines that hold nothing secret -/

/-- What is still to be done is safe at every later time. -/
def SafeFrame (V : Vault) : Frame → Prop
  | .call _ _ _ next => ∀ W (values : List Value), V.Later W → W.Shares values → W.Safe (next values)
  | .loop body next =>
    (∀ W (state : List Value), V.Later W → W.Shares state → W.Safe (body state)) ∧
      ∀ W, V.Later W → W.Safe next
  | .labelled jump next =>
    (∀ W label locals action, V.Later W → jump label locals = some action → W.Safe action) ∧
      ∀ W, V.Later W → W.Safe next
  | .closing value next => V.Shares value ∧ ∀ W, V.Later W → W.Safe next
  | .guard next => ∀ W (result : Except Thrown (List Value)), V.Later W → W.Shares result →
      W.Safe (next result)

def SafeFrames (V : Vault) (frames : List Frame) : Prop := ∀ frame ∈ frames, V.SafeFrame frame

structure SafePause (V : Vault) (pause : Pause) : Prop where
  frames : V.SafeFrames pause.frames
  next : ∀ W (values : List Value), V.Later W → W.Shares values → W.Safe (pause.next values)

structure SafeWaiting (V : Vault) (w : Waiting) : Prop where
  frames : V.SafeFrames w.frames
  next : ∀ W (result : Except Thrown (List Value)), V.Later W → W.Shares result →
    W.Safe (w.next result)

def SafePaused (V : Vault) (paused : Std.TreeMap Nat Pause) : Prop :=
  ∀ (id : Nat) (pause : Pause), paused[id]? = some pause → V.SafePause pause

structure SafeStack (V : Vault) (stack : Stack) : Prop where
  frames : V.SafeFrames stack.frames
  waiting : ∀ w ∈ stack.waiting, V.SafeWaiting w

theorem SafeFrame.mono {frame : Frame} (safe : V.SafeFrame frame) (later : V.Later W) :
    W.SafeFrame frame := by
  cases frame with
  | call depth nesting site next =>
      exact fun X values further => safe X values (later.trans further)
  | loop body next =>
      exact ⟨fun X state further => safe.1 X state (later.trans further),
        fun X further => safe.2 X (later.trans further)⟩
  | labelled jump next =>
      exact ⟨fun X label locals action further => safe.1 X label locals action (later.trans further),
        fun X further => safe.2 X (later.trans further)⟩
  | closing value next =>
      exact ⟨later.shares safe.1, fun X further => safe.2 X (later.trans further)⟩
  | guard next => exact fun X result further => safe X result (later.trans further)

theorem SafeFrames.mono {frames : List Frame} (safe : V.SafeFrames frames) (later : V.Later W) :
    W.SafeFrames frames :=
  fun frame member => (safe frame member).mono later

theorem SafePause.mono {pause : Pause} (safe : V.SafePause pause) (later : V.Later W) :
    W.SafePause pause :=
  ⟨safe.frames.mono later, fun X values further => safe.next X values (later.trans further)⟩

theorem SafeWaiting.mono {w : Waiting} (safe : V.SafeWaiting w) (later : V.Later W) :
    W.SafeWaiting w :=
  ⟨safe.frames.mono later, fun X result further => safe.next X result (later.trans further)⟩

theorem SafePaused.mono {paused : Std.TreeMap Nat Pause} (safe : V.SafePaused paused)
    (later : V.Later W) : W.SafePaused paused :=
  fun id pause found => (safe id pause found).mono later

theorem SafeStack.mono {stack : Stack} (safe : V.SafeStack stack) (later : V.Later W) :
    W.SafeStack stack :=
  ⟨safe.frames.mono later, fun w member => (safe.waiting w member).mono later⟩

theorem SafeFrames.cons {frame : Frame} {frames : List Frame} (first : V.SafeFrame frame)
    (rest : V.SafeFrames frames) : V.SafeFrames (frame :: frames) := by
  intro other member
  rcases List.mem_cons.mp member with rfl | later
  · exact first
  · exact rest other later

theorem SafeFrames.head {frame : Frame} {frames : List Frame}
    (safe : V.SafeFrames (frame :: frames)) : V.SafeFrame frame :=
  safe frame List.mem_cons_self

theorem SafeFrames.tail {frame : Frame} {frames : List Frame}
    (safe : V.SafeFrames (frame :: frames)) : V.SafeFrames frames :=
  fun other member => safe other (List.mem_cons_of_mem frame member)

theorem shares_pending {frames : List Frame} (safe : V.SafeFrames frames) :
    V.Shares (pending frames) := by
  induction frames with
  | nil => exact shares_nil
  | cons frame frames ih =>
      cases frame with
      | closing v next => exact shares_cons safe.head.1 (ih safe.tail)
      | _ => exact ih safe.tail

/-- Why a machine has stopped is no secret. -/
def SafeStop (V : Vault) : Stop → Prop
  | .finished result => V.Shares result
  | .asking request next => V.Grants request ∧ ∀ W reply, V.Later W → W.Safe (next reply)

/-- A step from the heap `h` keeps secrets. -/
def Keeps (V : Vault) (h : Heap) : Step → Prop
  | .next store stack action =>
    V.Passes h store.heap ∧ (V.on store.heap).SafePaused store.paused ∧
      (V.on store.heap).SafeStack stack ∧ (V.on store.heap).Safe action
  | .stop store stack reason =>
    V.Passes h store.heap ∧ (V.on store.heap).SafePaused store.paused ∧
      (V.on store.heap).SafeStack stack ∧ (V.on store.heap).SafeStop reason

section

variable {paused : Std.TreeMap Nat Pause} {frames : List Frame} {waiting : List Waiting}
  {action : Action}

theorem keeps_next (guards : V.Guards h) (passes : V.Passes h after)
    (pauses : V.SafePaused paused) (stack : V.SafeStack ⟨frames, waiting⟩)
    (safe : (V.on after).Safe action) :
    V.Keeps h (.next ⟨after, paused⟩ ⟨frames, waiting⟩ action) :=
  have later := guards.later passes
  ⟨passes, pauses.mono later, stack.mono later, safe⟩

theorem keeps_here (guards : V.Guards h) (pauses : V.SafePaused paused)
    (stack : V.SafeStack ⟨frames, waiting⟩) (safe : V.Safe action) :
    V.Keeps h (.next ⟨h, paused⟩ ⟨frames, waiting⟩ action) :=
  keeps_next guards (.refl guards) pauses stack (by rwa [guards.on_self])

theorem keeps_ite {c : Prop} [Decidable c] {first second : Step} (keeps : V.Keeps h first)
    (keeps' : V.Keeps h second) : V.Keeps h (if c then first else second) := by
  split
  · exact keeps
  · exact keeps'

theorem keeps_withRoom (guards : V.Guards h) (pauses : V.SafePaused paused)
    (stack : V.SafeStack ⟨frames, waiting⟩) (bytes : Nat) (safe : V.Safe action) :
    V.Keeps h (.next ⟨(withRoom h bytes action).1, paused⟩ ⟨frames, waiting⟩
      (withRoom h bytes action).2) := by
  have passes := guards.fits bytes
  have near := guards.near passes
  unfold withRoom
  cases fitted : fits h bytes with
  | mk room after =>
      rw [fitted] at passes near
      cases room with
      | true => exact keeps_next guards passes pauses stack (safe.mono near)
      | false => exact keeps_next guards passes pauses stack (.raise (by trivial))

theorem safe_close {v error : Value} {next : Action} (shared : V.Shares v)
    (failed : V.Shares error) (continues : ∀ W, V.Later W → W.Safe next) :
    V.Safe (close v error next) := by
  refine .ite (.heap (fun _ _ _ guards => .refl guards) fun W h near guards => ?_)
    (continues V (.refl V))
  have later := near.toLater.trans (guards.later (.refl guards))
  refine .call ?_ (later.shares (shares_pair shared failed)) fun X _ further _ =>
    continues X (later.trans further)
  exact (guards.later (.refl guards)).shares
    (guards.shares_metamethod (near.toLater.shares shared) (by decide))

theorem shares_completion {c : Completion} (shared : V.Shares c) :
    V.Shares (Completion.values c) := by
  cases c with
  | returned values => exact shared
  | _ => exact shares_nil

theorem safe_raiseText (text : String) : V.Safe (raiseText text) :=
  .raise (by trivial)

theorem keeps_leave (guards : V.Guards h) (pauses : V.SafePaused paused) {w : Waiting}
    {ws : List Waiting} (stack : V.SafeStack ⟨frames, w :: ws⟩) (status : CoroutineStatus)
    {result : Except Thrown (List Value)} (shared : V.Shares result) :
    V.Keeps h (leave h paused w ws status result) := by
  have first := guards.setCoroutineStatus w.coroutine status
  have waits := stack.waiting w List.mem_cons_self
  have left : V.SafeStack ⟨w.frames, ws⟩ :=
    ⟨waits.frames, fun v member => stack.waiting v (List.mem_cons_of_mem w member)⟩
  have goesOn : ∀ after, V.Passes h after →
      V.Keeps h (.next ⟨after, paused⟩ ⟨w.frames, ws⟩ (w.next result)) := fun after passes =>
    keeps_next guards passes pauses left
      (waits.next _ _ (guards.later passes) ((guards.later passes).shares shared))
  cases ws with
  | nil => exact goesOn _ first
  | cons outer ws =>
      exact goesOn _ (first.trans (first.guards.setCoroutineStatus outer.coroutine .running))

theorem SafeStack.frames_tail {frame : Frame} (stack : V.SafeStack ⟨frame :: frames, waiting⟩) :
    V.SafeStack ⟨frames, waiting⟩ :=
  ⟨stack.frames.tail, stack.waiting⟩

theorem keeps_finish (guards : V.Guards h) (pauses : V.SafePaused paused)
    (stack : V.SafeStack ⟨frames, waiting⟩) {c : Completion} (shared : V.Shares c) :
    V.Keeps h (finish h paused frames waiting c) := by
  have values := shares_completion shared
  cases frames with
  | nil =>
      cases waiting with
      | nil =>
          refine ⟨.refl guards, ?_⟩
          rw [guards.on_self]
          exact ⟨pauses, ⟨fun _ member => absurd member List.not_mem_nil,
            fun _ member => absurd member List.not_mem_nil⟩, values⟩
      | cons w ws => exact keeps_leave guards pauses stack .dead values
  | cons frame frames =>
      have rest := stack.frames_tail
      have top := stack.frames.head
      cases frame with
      | call depth nesting site next =>
          exact keeps_here guards pauses rest (top V _ (.refl V) values)
      | loop body next =>
          cases c with
          | again state =>
              exact keeps_withRoom guards pauses stack 0 (top.1 V state (.refl V) shared)
          | normal => exact keeps_here guards pauses rest (top.2 V (.refl V))
          | broke => exact keeps_here guards pauses rest (top.2 V (.refl V))
          | goto label locals => exact keeps_here guards pauses rest (.done shared)
          | returned values => exact keeps_here guards pauses rest (.done shared)
      | labelled jump next =>
          cases c with
          | normal => exact keeps_here guards pauses rest (top.2 V (.refl V))
          | goto label locals =>
              simp only [finish]
              cases found : jump label locals with
              | some action =>
                  exact keeps_here guards pauses stack (top.1 V label locals action (.refl V) found)
              | none => exact keeps_here guards pauses rest (.done shared)
          | again state => exact keeps_here guards pauses rest (.done shared)
          | broke => exact keeps_here guards pauses rest (.done shared)
          | returned values => exact keeps_here guards pauses rest (.done shared)
      | closing v next =>
          refine keeps_here guards pauses rest (safe_close top.1 trivial fun W later => ?_)
          cases c with
          | normal => exact top.2 W later
          | _ => exact .done (later.shares shared)
      | guard next => exact keeps_here guards pauses rest (top V _ (.refl V) values)

theorem keeps_throw (guards : V.Guards h) (pauses : V.SafePaused paused)
    (stack : V.SafeStack ⟨frames, waiting⟩) {thrown : Thrown} (shared : V.Shares thrown) :
    V.Keeps h (throw h paused frames waiting thrown) := by
  cases frames with
  | nil =>
      cases waiting with
      | nil =>
          refine ⟨.refl guards, ?_⟩
          rw [guards.on_self]
          exact ⟨pauses, ⟨fun _ member => absurd member List.not_mem_nil,
            fun _ member => absurd member List.not_mem_nil⟩, shared⟩
      | cons w ws => exact keeps_leave guards pauses stack .dead shared
  | cons frame frames =>
      have rest := stack.frames_tail
      have top := stack.frames.head
      cases frame with
      | guard next => exact keeps_here guards pauses rest (top V _ (.refl V) shared)
      | closing v next =>
          exact keeps_here guards pauses rest (safe_close top.1 (shares_caught shared)
            fun W later => .raise (later.shares shared))
      | _ => exact keeps_here guards pauses rest (.raise shared)

theorem safe_body? (guards : V.Guards h) {f : Value} {args : List Value} (function : V.Shares f)
    (shared : V.Shares args) (ordinary : V.tended → ¬ h.Bypasses f args) {action : Action}
    (found : body? Host.setting h f args = some action) : V.Safe action := by
  have other : ∀ b, h.library? f = some b → b.handlesMetatable → V.tended →
      firstOf args ≠ .table V.globals := by
    intro b known handles tended same
    refine ordinary tended ⟨?_, guards.globals ▸ same⟩
    rw [known]
    exact handles
  cases f with
  | builtin b =>
      obtain rfl := Option.some.inj found
      exact safe_run _ b shares_nil shared (other b rfl)
  | closure id =>
      obtain ⟨c, known, rfl⟩ := Option.map_eq_some_iff.mp found
      cases c with
      | script chunk proto captured => exact safe_enter chunk proto captured shared
      | native b captured =>
          refine safe_run _ b (guards.public_closure known) shared (other b ?_)
          simp [Heap.library?, known]
  | _ => cases found

theorem keeps_call (guards : V.Guards h) (pauses : V.SafePaused paused)
    (stack : V.SafeStack ⟨frames, waiting⟩) {f : Value} {args : List Value} {site : Site}
    {next : List Value → Action} (function : V.Shares f) (shared : V.Shares args)
    (continues : ∀ W (values : List Value), V.Later W → W.Shares values → W.Safe (next values))
    (ordinary : V.tended → ¬ h.Bypasses f args) :
    V.Keeps h (call Host.setting h paused frames waiting f args site next) := by
  unfold call
  cases found : body? Host.setting h f args with
  | some action =>
      have frame : ∀ depth nesting, V.SafeFrame (.call depth nesting site next) :=
        fun _ _ => continues
      refine keeps_ite (keeps_here guards pauses stack (safe_raiseText _))
        (keeps_ite (keeps_here guards pauses stack (safe_raiseText _)) ?_)
      exact keeps_withRoom guards pauses ⟨.cons (frame _ _) stack.frames, stack.waiting⟩ 0
        (safe_body? guards function shared ordinary found)
  | none =>
      have own : V.Shares (h.metamethod f "__call") := guards.shares_metamethod function (by decide)
      refine keeps_here guards pauses stack (.ite (safe_raiseText _) ?_)
      exact .call own (shares_cons function shared) continues

theorem safe_toFunction? (safe : V.SafeFrames frames) {depth nesting : Nat} {site : Site}
    {next : List Value → Action} {rest : List Frame}
    (found : toFunction? frames = some (depth, nesting, site, next, rest)) :
    V.SafeFrame (.call depth nesting site next) ∧ V.SafeFrames rest := by
  induction frames with
  | nil => cases found
  | cons frame frames ih =>
      cases frame with
      | call depth' nesting' site' next' =>
          cases found
          exact ⟨safe.head, safe.tail⟩
      | loop body next => exact ih safe.tail found
      | labelled jump next => exact ih safe.tail found
      | closing v next => cases found
      | guard next => cases found

theorem SafePaused.erase (pauses : V.SafePaused paused) (id : Nat) :
    V.SafePaused (paused.erase id) := by
  intro other pause found
  rw [Std.TreeMap.getElem?_erase] at found
  split at found
  · cases found
  · exact pauses other pause found

theorem SafePaused.insert (pauses : V.SafePaused paused) (id : Nat) {pause : Pause}
    (safe : V.SafePause pause) : V.SafePaused (paused.insert id pause) := by
  intro other pause' found
  rw [Std.TreeMap.getElem?_insert] at found
  split at found
  · exact Option.some.inj found ▸ safe
  · exact pauses other pause' found

theorem keeps_resumed {middle : Heap} (guards : V.Guards h) (passes : V.Passes h middle)
    (pauses : V.SafePaused paused) (stack : V.SafeStack ⟨frames, waiting⟩) (id : CoroutineId)
    {args : List Value} {next : Except Thrown (List Value) → Action} (shared : V.Shares args)
    (continues : ∀ W (result : Except Thrown (List Value)), V.Later W → W.Shares result →
      W.Safe (next result)) :
    V.Keeps h
      (match paused[id.index]? with
        | some pause => .next ⟨middle.setCoroutineStatus id .running, paused.erase id.index⟩
            ⟨pause.frames, ⟨id, frames, next⟩ :: waiting⟩ (pause.next args)
        | none => .next ⟨middle.setCoroutineStatus id .running, paused⟩
            ⟨[], ⟨id, frames, next⟩ :: waiting⟩
            (.call ((middle.coroutines[id.index]?.map Coroutine.body).getD .nil) args {}
              fun vs => .done (.returned vs))) := by
  have ready := passes.trans (passes.guards.setCoroutineStatus id .running)
  have later := guards.later ready
  have waits : ∀ w ∈ (⟨id, frames, next⟩ :: waiting : List Waiting), V.SafeWaiting w := by
    intro w member
    rcases List.mem_cons.mp member with rfl | member
    · exact ⟨stack.frames, continues⟩
    · exact stack.waiting w member
  cases found : paused[id.index]? with
  | some pause =>
      have pause := pauses _ _ found
      exact keeps_next guards ready (pauses.erase _) ⟨pause.frames, waits⟩
        (pause.next _ _ later (later.shares shared))
  | none =>
      refine keeps_next guards ready pauses ⟨fun _ member => absurd member List.not_mem_nil, waits⟩
        (.call ?_ (later.shares shared) fun _ _ _ shared => .done (c := .returned _) shared)
      have last := passes.guards.later (passes.guards.setCoroutineStatus id .running)
      cases known : middle.coroutines[id.index]? with
      | none => trivial
      | some c =>
          exact last.shares (passes.guards.rests.bodies c (Array.mem_of_getElem? known))

theorem keeps_resume (guards : V.Guards h) (pauses : V.SafePaused paused)
    (stack : V.SafeStack ⟨frames, waiting⟩) (id : CoroutineId) {args : List Value}
    {next : Except Thrown (List Value) → Action} (shared : V.Shares args)
    (continues : ∀ W (result : Except Thrown (List Value)), V.Later W → W.Shares result →
      W.Safe (next result)) :
    V.Keeps h (resume h paused frames waiting id args next) := by
  cases waiting with
  | nil => exact keeps_resumed guards (.refl guards) pauses stack id shared continues
  | cons w ws =>
      have passes := guards.setCoroutineStatus w.coroutine .normal
      exact keeps_resumed guards passes pauses stack id shared continues

theorem keeps_step (guards : V.Guards h) (pauses : V.SafePaused paused) {stack : Stack}
    (safeStack : V.SafeStack stack) (safe : V.Safe action)
    (ordinary : V.tended → ¬ action.Bypasses h) :
    V.Keeps h (step Host.setting ⟨h, paused⟩ stack action) := by
  obtain ⟨frames, waiting⟩ := stack
  cases safe with
  | done shared => exact keeps_finish guards pauses safeStack shared
  | raise shared => exact keeps_throw guards pauses safeStack shared
  | heap passes continues =>
      have passes := passes V h (.refl V) guards
      exact keeps_next guards passes pauses safeStack (continues V h (.refl V) guards)
  | call function shared continues =>
      exact keeps_call guards pauses safeStack function shared continues ordinary
  | tail function shared =>
      have returns : ∀ W (values : List Value), V.Later W → W.Shares values →
          W.Safe (.done (.returned values)) := fun _ _ _ shared => .done (c := .returned _) shared
      simp only [step]
      split
      · rename_i found
        obtain ⟨top, rest⟩ := safe_toFunction? safeStack.frames found
        exact keeps_call guards pauses ⟨rest, safeStack.waiting⟩ function shared top ordinary
      · exact keeps_call guards pauses safeStack function shared returns ordinary
  | loop shared body continues =>
      exact keeps_here guards pauses ⟨.cons ⟨body, continues⟩ safeStack.frames, safeStack.waiting⟩
        (body V _ (.refl V) shared)
  | labelled body jump continues =>
      exact keeps_here guards pauses ⟨.cons ⟨jump, continues⟩ safeStack.frames, safeStack.waiting⟩
        body
  | closing shared body continues =>
      exact keeps_here guards pauses ⟨.cons ⟨shared, continues⟩ safeStack.frames, safeStack.waiting⟩
        body
  | protect body continues =>
      exact keeps_here guards pauses ⟨.cons continues safeStack.frames, safeStack.waiting⟩ body
  | sites continues => exact keeps_here guards pauses safeStack (continues _)
  | reserve continues => exact keeps_withRoom guards pauses safeStack _ continues
  | ask granted continues =>
      refine ⟨.refl guards, ?_⟩
      rw [guards.on_self]
      exact ⟨pauses, safeStack, granted, continues⟩
  | resume shared continues => exact keeps_resume guards pauses safeStack _ shared continues
  | yield shared continues =>
      cases waiting with
      | nil => exact keeps_here guards pauses safeStack (safe_raiseText _)
      | cons w ws =>
          exact keeps_leave guards (pauses.insert _ ⟨safeStack.frames, continues⟩) safeStack
            .suspended shared
  | running continues => exact keeps_here guards pauses safeStack (continues _)
  | @abandon _ id next continues =>
      have passes := guards.setCoroutineStatus id .dead
      have later := guards.later passes
      refine keeps_next guards passes (pauses.erase _) safeStack (continues _ _ later ?_)
      cases found : paused[id.index]? with
      | none => exact shares_nil
      | some pause => exact later.shares (shares_pending (pauses _ _ found).frames)

end

end Vault

end ScriptHost.Lua
