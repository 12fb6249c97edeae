import ScriptHost.Lua.Collect
import ScriptHost.Lua.Evaluate
import ScriptHost.Lua.Library

/-!
# The machine

Runs actions one step at a time on a heap and a stack of what is still to be done. The machine
stops when nothing is left to do, and whenever a script asks its host something; it never looks
at anything but its own state.
-/

set_option autoImplicit false

namespace ScriptHost.Lua

/-- What is still to be done when a part of a script ends. -/
inductive Frame where
  /-- A function is running. `depth` counts the active calls, `nesting` those that operations
  and library functions have made. -/
  | call (depth nesting : Nat) (site : Site) (next : List Value → Action)
  | loop (body : List Value → Action) (next : Action)
  | labelled (jump : String → List CellId → Option Action) (next : Action)
  | closing (value : Value) (next : Action)
  | guard (next : Except Thrown (List Value) → Action)
deriving Inhabited

/-- A coroutine that has paused. -/
structure Pause where
  frames : List Frame
  next : List Value → Action
deriving Inhabited

/-- Whoever waits for a running coroutine. -/
structure Waiting where
  coroutine : CoroutineId
  frames : List Frame
  next : Except Thrown (List Value) → Action
deriving Inhabited

/-- What stays of a machine between runs. -/
structure Store where
  heap : Heap
  paused : Std.TreeMap Nat Pause
deriving Inhabited

/-- What a run has still to do, the innermost first. -/
structure Stack where
  frames : List Frame := []
  waiting : List Waiting := []
deriving Inhabited

/-- Why a machine stops. -/
inductive Stop where
  | finished (result : Except Thrown (List Value))
  | asking (request : Request) (next : request.Reply → Action)
deriving Inhabited

inductive Step where
  | next (store : Store) (stack : Stack) (action : Action)
  | stop (store : Store) (stack : Stack) (reason : Stop)
deriving Inhabited

namespace Machine

/-- The most calls that can be active. -/
def depthLimit : Nat := 200000

/-- The most calls of operations and library functions that can be active. -/
def nestingLimit : Nat := 195

def depths : List Frame → Nat × Nat
  | [] => (0, 0)
  | .call depth nesting _ _ :: _ => (depth, nesting)
  | _ :: frames => depths frames

def sites : List Frame → List Site
  | [] => []
  | .call _ _ site _ :: frames => site :: sites frames
  | _ :: frames => sites frames

/-- The stack down to the running function, if no closing of a value lies in between. -/
def toFunction? : List Frame → Option (Nat × Nat × Site × (List Value → Action) × List Frame)
  | [] => none
  | .call depth nesting site next :: frames => some (depth, nesting, site, next, frames)
  | .loop .. :: frames | .labelled .. :: frames => toFunction? frames
  | .closing .. :: _ | .guard _ :: _ => none

/-- The values that a stack would still close, innermost first. -/
def pending : List Frame → List Value
  | [] => []
  | .closing v _ :: frames => v :: pending frames
  | _ :: frames => pending frames

def raiseText (text : String) : Action := .raise (.error (.ofText text))

/-- Whether the heap is within its limit with so many more bytes, after a collection if need
be. -/
def fits (h : Heap) (bytes : Nat) : Bool × Heap :=
  match h.limit? with
  | none => (true, h)
  | some limit =>
    if h.used + bytes ≤ limit then (true, h)
    else
      let h := h.collect true
      (h.used + bytes ≤ limit, h)

/-- The same, while the host holds on to a table. -/
def fitsHolding (id : TableId) (h : Heap) (bytes : Nat) : Bool × Heap :=
  let (enough, after) := fits { h with held := id :: h.held } bytes
  (enough, { after with held := h.held })

/-- Goes on if the heap is within its limit. -/
def withRoom (h : Heap) (bytes : Nat) (action : Action) : Heap × Action :=
  match fits h bytes with
  | (true, h) => (h, action)
  | (false, h) => (h, .raise .outOfMemory)

def close (v error : Value) (next : Action) : Action :=
  if v.isTruthy then
    .heap fun h =>
      let m := h.metamethod v "__close"
      (h, .call m [v, error] { label? := some ⟨"metamethod", "close"⟩ } fun _ => next)
  else next

/-- Ends the running coroutine and goes on with whoever waits for it. -/
def leave (h : Heap) (paused : Std.TreeMap Nat Pause) (w : Waiting) (ws : List Waiting)
    (status : CoroutineStatus) (result : Except Thrown (List Value)) : Step :=
  let h := h.setCoroutineStatus w.coroutine status
  let h := match ws with
    | outer :: _ => h.setCoroutineStatus outer.coroutine .running
    | [] => h
  .next ⟨h, paused⟩ ⟨w.frames, ws⟩ (w.next result)

def Completion.values : Completion → List Value
  | .returned vs => vs
  | _ => []

/-- Goes on after a part of a script has ended. -/
def finish (h : Heap) (paused : Std.TreeMap Nat Pause) (frames : List Frame)
    (waiting : List Waiting) (c : Completion) : Step :=
  match frames with
  | [] =>
    match waiting with
    | [] => .stop ⟨h, paused⟩ ⟨[], []⟩ (.finished (.ok (Completion.values c)))
    | w :: ws => leave h paused w ws .dead (.ok (Completion.values c))
  | .call _ _ _ next :: frames => .next ⟨h, paused⟩ ⟨frames, waiting⟩ (next (Completion.values c))
  | .loop body next :: frames =>
    match c with
    | .again state =>
      let (h, action) := withRoom h 0 (body state)
      .next ⟨h, paused⟩ ⟨.loop body next :: frames, waiting⟩ action
    | .normal | .broke => .next ⟨h, paused⟩ ⟨frames, waiting⟩ next
    | c => .next ⟨h, paused⟩ ⟨frames, waiting⟩ (.done c)
  | .labelled jump next :: frames =>
    match c with
    | .normal => .next ⟨h, paused⟩ ⟨frames, waiting⟩ next
    | .goto label locals =>
      match jump label locals with
      | some action => .next ⟨h, paused⟩ ⟨.labelled jump next :: frames, waiting⟩ action
      | none => .next ⟨h, paused⟩ ⟨frames, waiting⟩ (.done c)
    | c => .next ⟨h, paused⟩ ⟨frames, waiting⟩ (.done c)
  | .closing v next :: frames =>
    .next ⟨h, paused⟩ ⟨frames, waiting⟩ <| close v .nil <|
      match c with
      | .normal => next
      | c => .done c
  | .guard next :: frames => .next ⟨h, paused⟩ ⟨frames, waiting⟩ (next (.ok (Completion.values c)))

/-- Looks for whoever catches an error. -/
def throw (h : Heap) (paused : Std.TreeMap Nat Pause) (frames : List Frame)
    (waiting : List Waiting) (thrown : Thrown) : Step :=
  match frames with
  | [] =>
    match waiting with
    | [] => .stop ⟨h, paused⟩ ⟨[], []⟩ (.finished (.error thrown))
    | w :: ws => leave h paused w ws .dead (.error thrown)
  | .guard next :: frames => .next ⟨h, paused⟩ ⟨frames, waiting⟩ (next (.error thrown))
  | .closing v _ :: frames =>
    .next ⟨h, paused⟩ ⟨frames, waiting⟩ (close v (Library.caught thrown) (.raise thrown))
  | .call .. :: frames | .loop .. :: frames | .labelled .. :: frames =>
    .next ⟨h, paused⟩ ⟨frames, waiting⟩ (.raise thrown)

/-- What a value does when it is called; nothing if it is no function. -/
def body? (setting : Library.Setting) (h : Heap) (f : Value) (args : List Value) :
    Option Action :=
  match f with
  | .builtin b => some (Library.run setting f b [] args)
  | .closure id =>
    (h.closure? id).map fun
      | .script chunk proto captured => Activation.enter chunk proto captured args
      | .native b captured => Library.run setting f b captured args
  | _ => none

/-- Fails because a value cannot be called. -/
def refuseCall (h : Heap) (f : Value) (site : Site) : Action :=
  let label := Label.suffix site.label?
  raiseText s!"{site.text}attempt to call a {h.typeNameOf f} value{label}"

def call (setting : Library.Setting) (h : Heap) (paused : Std.TreeMap Nat Pause)
    (frames : List Frame) (waiting : List Waiting) (f : Value) (args : List Value) (site : Site)
    (next : List Value → Action) : Step :=
  match body? setting h f args with
  | some action =>
    let (depth, nesting) := depths frames
    let nesting := if site.nested then nesting + 1 else nesting
    if depthLimit ≤ depth then
      .next ⟨h, paused⟩ ⟨frames, waiting⟩ (raiseText s!"{site.text}stack overflow")
    else if nestingLimit ≤ nesting then
      .next ⟨h, paused⟩ ⟨frames, waiting⟩ (raiseText s!"{site.text}C stack overflow")
    else
      let (h, action) := withRoom h 0 action
      .next ⟨h, paused⟩ ⟨.call (depth + 1) nesting site next :: frames, waiting⟩ action
  | none =>
    let m := h.metamethod f "__call"
    .next ⟨h, paused⟩ ⟨frames, waiting⟩ <|
      if m.isNil then refuseCall h f site else .call m (f :: args) site next

/-- Whether a call in the place of a result replaces the running function. -/
def isScript (h : Heap) : Value → Bool
  | .closure id =>
    match h.closure? id with
    | some (.script ..) => true
    | _ => false
  | _ => false

def resume (h : Heap) (paused : Std.TreeMap Nat Pause) (frames : List Frame)
    (waiting : List Waiting) (id : CoroutineId) (args : List Value)
    (next : Except Thrown (List Value) → Action) : Step :=
  let h := match waiting with
    | w :: _ => h.setCoroutineStatus w.coroutine .normal
    | [] => h
  let body := (h.coroutines[id.index]?.map Coroutine.body).getD .nil
  let h := h.setCoroutineStatus id .running
  let waiting := ⟨id, frames, next⟩ :: waiting
  match paused[id.index]? with
  | some pause => .next ⟨h, paused.erase id.index⟩ ⟨pause.frames, waiting⟩ (pause.next args)
  | none =>
    .next ⟨h, paused⟩ ⟨[], waiting⟩ (.call body args {} fun vs => .done (.returned vs))

def step (setting : Library.Setting) : Store → Stack → Action → Step
  | ⟨h, paused⟩, ⟨frames, waiting⟩, action =>
    match action with
    | .done c => finish h paused frames waiting c
    | .raise thrown => throw h paused frames waiting thrown
    | .heap change =>
      let (h, action) := change h
      .next ⟨h, paused⟩ ⟨frames, waiting⟩ action
    | .call f args site next => call setting h paused frames waiting f args site next
    | .tail f args site =>
      match isScript h f, toFunction? frames with
      | true, some (_, _, outer, next, frames) =>
        call setting h paused frames waiting f args { outer with label? := none } next
      | _, _ =>
        call setting h paused frames waiting f args site fun vs => .done (.returned vs)
    | .loop body state next =>
      .next ⟨h, paused⟩ ⟨.loop body next :: frames, waiting⟩ (body state)
    | .labelled body jump next =>
      .next ⟨h, paused⟩ ⟨.labelled jump next :: frames, waiting⟩ body
    | .closing v body next => .next ⟨h, paused⟩ ⟨.closing v next :: frames, waiting⟩ body
    | .protect body next => .next ⟨h, paused⟩ ⟨.guard next :: frames, waiting⟩ body
    | .sites next => .next ⟨h, paused⟩ ⟨frames, waiting⟩ (next (sites frames))
    | .reserve bytes next =>
      let (h, action) := withRoom h bytes next
      .next ⟨h, paused⟩ ⟨frames, waiting⟩ action
    | .ask request next => .stop ⟨h, paused⟩ ⟨frames, waiting⟩ (.asking request next)
    | .resume id args next => resume h paused frames waiting id args next
    | .yield vs next =>
      match waiting with
      | w :: ws => leave h (paused.insert w.coroutine.index ⟨frames, next⟩) w ws .suspended (.ok vs)
      | [] =>
        .next ⟨h, paused⟩ ⟨frames, []⟩
          (raiseText "attempt to yield from outside a coroutine")
    | .running next =>
      .next ⟨h, paused⟩ ⟨frames, waiting⟩ (next (waiting.head?.map Waiting.coroutine))
    | .abandon id next =>
      let values := (paused[id.index]?.map fun pause => pending pause.frames).getD []
      .next ⟨h.setCoroutineStatus id .dead, paused.erase id.index⟩ ⟨frames, waiting⟩ (next values)

/-- Runs until the machine stops, for at most a number of steps. -/
def run (setting : Library.Setting) : Nat → Store → Stack → Action → Store × Stack × Option Stop
  | 0, store, stack, _ => (store, stack, none)
  | fuel + 1, store, stack, action =>
    match step setting store stack action with
    | .next store stack action => run setting fuel store stack action
    | .stop store stack reason => (store, stack, some reason)

end Machine

end ScriptHost.Lua
