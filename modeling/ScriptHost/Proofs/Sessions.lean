import ScriptHost.Proofs.AcquisitionAgreement
import ScriptHost.Proofs.Separation

/-!
# Sessions

Invocations of one manager are acquired, used and released in any order. What an invocation
observes of that is the outcome, its engine, and what is told about the invocations on its engine.

Objects are numbered in the order in which they are made, and scripts can read the number of their
engine. So that an object has the same number in runs that differ in what was done before, every
acquisition says with which numbers it starts; those before them are passed over.
-/

set_option autoImplicit false

namespace ScriptHost

open Lua

theorem getD_append_replicate {α : Type} (xs : Array α) (n i : Nat) (a : α) :
    (xs ++ Array.replicate n a)[i]?.getD a = xs[i]?.getD a := by
  rw [Array.getElem?_append]
  split
  · rfl
  · next missing =>
      rw [Array.getElem?_eq_none (Nat.not_lt.mp missing), Array.getElem?_replicate]
      split <;> rfl

/-- The numbers with which an acquisition starts. -/
structure Slot where
  engine : Nat
  context : Nat
  writer : Nat
deriving DecidableEq

namespace Host

variable {h : Host} {slot : Slot}

/-- No number of a slot has been given, or passed over. -/
def Precedes (h : Host) (slot : Slot) : Prop :=
  h.engines.size ≤ slot.engine ∧ h.contexts.size ≤ slot.context ∧ h.writers.size ≤ slot.writer

instance (h : Host) (slot : Slot) : Decidable (h.Precedes slot) :=
  inferInstanceAs (Decidable (_ ∧ _))

/-- Passes over the numbers before those of a slot. Nobody has what would have them. -/
def skipTo (h : Host) (slot : Slot) : Host :=
  { h with
    engines := h.engines ++ Array.replicate (slot.engine - h.engines.size) default
    contexts := h.contexts ++ Array.replicate (slot.context - h.contexts.size) default
    writers := h.writers ++ Array.replicate (slot.writer - h.writers.size) .discard }

@[simp] theorem engine_skipTo (h : Host) (slot : Slot) (id : EngineId) :
    (h.skipTo slot).engine id = h.engine id :=
  getD_append_replicate ..

@[simp] theorem writer_skipTo (h : Host) (slot : Slot) (id : WriterId) :
    (h.skipTo slot).writer id = h.writer id :=
  getD_append_replicate ..

theorem context?_skipTo {id : ContextId} {context : Context} (found : h.context? id = some context) :
    (h.skipTo slot).context? id = some context := by
  have present := (Array.getElem?_eq_some_iff.mp found).1
  rw [context?, skipTo, Array.getElem?_append_left present]
  exact found

theorem Precedes.sizes (fresh : h.Precedes slot) :
    (h.skipTo slot).engines.size = slot.engine ∧ (h.skipTo slot).contexts.size = slot.context ∧
      (h.skipTo slot).writers.size = slot.writer := by
  obtain ⟨engines, contexts, writers⟩ := fresh
  simp only [skipTo, Array.size_append, Array.size_replicate]
  omega

variable {shared : Shared}

theorem spares_skipTo (shared : Shared) (h : Host) (slot : Slot) :
    Spares shared h (h.skipTo slot) :=
  { Spares.refl shared h with
    engineCount := by simp [skipTo]
    writerCount := by simp [skipTo]
    engines := fun id _ => engine_skipTo h slot id
    contexts := fun _ _ found => context?_skipTo found
    broken := fun id => by rw [writer_skipTo] }

/-- At the numbers of a slot two hosts are level, and neither has the context that comes next. -/
theorem Agree.skipTo {lead : Lead} {g : Host} (agree : Agree shared lead h g)
    (present : ∀ id, shared.contexts id → (h.context? id).isSome = true)
    (fresh : h.Precedes slot) :
    Agree { shared with contexts := fun id => shared.contexts id ∨ id = ⟨slot.context⟩ } ⟨0, 0, 0⟩
      (h.skipTo slot) (g.skipTo slot) := by
  have behind : g.Precedes slot := by
    obtain ⟨engines, contexts, writers⟩ := fresh
    have engineCount := agree.engineCount
    have contextCount := agree.contextCount
    have writerCount := agree.writerCount
    exact ⟨by omega, by omega, by omega⟩
  obtain ⟨engines, contexts, writers⟩ := fresh.sizes
  obtain ⟨fewer, earlier, less⟩ := behind.sizes
  exact
    { agree with
      engineCount := engines.trans fewer.symm
      contextCount := contexts.trans earlier.symm
      writerCount := writers.trans less.symm
      engines := fun id known => by
        obtain ⟨there, same⟩ := agree.engines id known
        rw [engine_skipTo, engine_skipTo, fewer]
        exact ⟨Nat.lt_of_lt_of_le there behind.1, same⟩
      contexts := fun id known => by
        rcases known with known | rfl
        · obtain ⟨context, found⟩ := Option.isSome_iff_exists.mp (present id known)
          rw [context?_skipTo found, context?_skipTo ((agree.contexts id known).trans found)]
        · rw [context?, context?, Array.getElem?_eq_none (Nat.le_of_eq earlier),
            Array.getElem?_eq_none (Nat.le_of_eq contexts)]
      broken := fun id => by
        rw [writer_skipTo, writer_skipTo]
        exact agree.broken id }

end Host

/-! ## Uses of an invocation -/

/-- What is done with an invocation. -/
inductive Use where
  /-- Runs a text as a script. -/
  | exec (name text : List UInt8)
  /-- Runs the script of the command. -/
  | run
  | release

namespace Use

def perform (h : Host) (invocation : Invocation) :
    Use → Except EngineError (List Value) × Host
  | exec name text => h.exec invocation.engine name text
  | run =>
    let (result, h) := h.runInvocation invocation
    (result.map fun _ => [], h)
  | release =>
    let (result, h) := h.release invocation
    (result.map fun _ => [], h)

def requests (h : Host) (invocation : Invocation) : Use → List Request
  | exec name text => h.execRequests invocation.engine name text
  | run => h.execFileRequests invocation.engine invocation.context.scriptPath
  | release => []

/-- What is left of an invocation: nothing after its release, whatever came of that. -/
def leaves (invocation : Invocation) : Use → Option Invocation
  | exec .. | run => some invocation
  | release => none

variable {shared : Shared} {lead : Lead} {h g : Host} {invocation : Invocation}

theorem serves_perform (h : Host) (invocation : Invocation) (use : Use) :
    Host.Serves (use.requests h invocation) h (use.perform h invocation).2 := by
  cases use with
  | exec name text => exact Host.serves_exec ..
  | run => exact Host.serves_execFile ..
  | release => exact Host.serves_release ..

theorem touches_perform (h : Host) (invocation : Invocation) (use : Use) :
    Host.Touches invocation.engine h (use.perform h invocation).2 := by
  cases use with
  | exec name text => exact .ofRunsOn (Host.runsOn_exec ..)
  | run => exact Host.touches_execFile ..
  | release => exact Host.touches_release ..

theorem same_perform (agree : Host.Agree shared lead h g) (known : shared.engines invocation.engine)
    {use : Use} (permitted : ∀ request ∈ use.requests h invocation, shared.Permits request) :
    Host.Same shared lead (use.perform h invocation) (use.perform g invocation) := by
  cases use with
  | exec name text => exact Host.same_exec agree known name text permitted
  | run =>
      have ran := Host.same_runInvocation agree known rfl permitted
      exact ran.map fun result => result.map fun _ => []
  | release => exact (Host.same_release agree known).map fun result => result.map fun _ => []

end Use

/-! ## Sessions -/

/-- What the scripts of an engine get to know of an acquisition on it. -/
structure Handout where
  number : Nat
  engine : EngineId
  /-- The context, unless the acquisition failed before there was one. -/
  context? : Option ContextId
  results : ResultsId

/-- A host, the invocations that are not released, and what was handed out, the earliest first. -/
structure Session where
  host : Host
  live : Nat → Option Invocation := fun _ => none
  log : List Handout := []

inductive Move where
  | acquire (n : Nat) (slot : Slot)
  | use (n : Nat) (use : Use)

def Move.number : Move → Nat
  | acquire n _ | use n _ => n

inductive Outcome where
  | acquired (result : Except EngineError Invocation)
  | used (result : Except EngineError (List Value))
  /-- There is no such invocation. -/
  | absent

/-- What an invocation shows after a move: the whole engine, and for every handout on it the
context behind the handle and the results so far. -/
structure Observation where
  number : Nat
  outcome : Outcome
  engine? : Option Engine
  told : List (Option Context × List (String × Json))

namespace Session

def observe (s : Session) (n : Nat) (outcome : Outcome) (engine? : Option EngineId) :
    Observation where
  number := n
  outcome
  engine? := engine?.map s.host.engine
  told := (s.log.filter fun x => some x.engine == engine?).map fun x =>
    (x.context?.bind s.host.context?, s.host.resultsOf x.results)

/-- What an acquisition hands out once an engine is selected. -/
def handouts (h : Host) (m : ManagerId) (n : Nat) (context : Context) : List Handout :=
  match (h.selectEngine m context.policy context.cacheKey).1 with
  | .ok (engine, _) =>
    let made? := (h.acquire m context).2.context? ⟨h.contexts.size⟩
    [⟨n, engine, made?.map fun _ => ⟨h.contexts.size⟩, context.results⟩]
  | .error _ => []

variable (m : ManagerId) (plan : Nat → Context)

/-- Acquires an invocation for the context that is planned for its number. -/
def acquire (s : Session) (n : Nat) (slot : Slot) : Observation × Session :=
  let h := s.host.skipTo slot
  let (result, after) := h.acquire m (plan n)
  let t : Session :=
    { host := after
      live := fun i => if i = n then result.toOption else s.live i
      log := s.log ++ handouts h m n (plan n) }
  (t.observe n (.acquired result) (result.toOption.map Invocation.engine), t)

def use (s : Session) (n : Nat) (use : Use) : Observation × Session :=
  match s.live n with
  | none => (s.observe n .absent none, s)
  | some invocation =>
    let (result, after) := use.perform s.host invocation
    let t : Session :=
      { s with
        host := after
        live := fun i => if i = n then use.leaves invocation else s.live i }
    (t.observe n (.used result) (some invocation.engine), t)

def step (s : Session) : Move → Observation × Session
  | .acquire n slot => s.acquire m plan n slot
  | .use n use => s.use n use

/-- What is observed in a run. -/
def trace : Session → List Move → List Observation
  | _, [] => []
  | s, move :: moves => (s.step m plan move).1 :: trace (s.step m plan move).2 moves

def after : Session → List Move → Session
  | s, [] => s
  | s, move :: moves => after (s.step m plan move).2 moves

/-! ## What scripts ask for -/

/-- A script on an engine acts on its own state, its output, and what is handed out on the engine. -/
def Allows (s : Session) (engine : EngineId) (request : Request) : Prop :=
  request.Within (fun id => ∃ x ∈ s.log, x.engine = engine ∧ x.context? = some id)
    fun id => ∃ x ∈ s.log, x.engine = engine ∧ x.results = id

instance (s : Session) (engine : EngineId) (request : Request) :
    Decidable (s.Allows engine request) :=
  inferInstanceAs (Decidable (request.Within _ _))

/-- An acquisition starts with numbers that nobody has. The scripts of the factory have nothing but
their engine; all other scripts act on what is handed out. -/
def Fits (s : Session) : Move → Prop
  | .acquire n slot =>
    let h := s.host.skipTo slot
    s.host.Precedes slot ∧
      (∀ request ∈ h.selectionRequests m (plan n).policy (plan n).cacheKey,
        request.Within (fun _ => False) fun _ => False) ∧
      ∀ x ∈ handouts h m n (plan n), ∀ request ∈ h.setupRequests m (plan n),
        (s.acquire m plan n slot).2.Allows x.engine request
  | .use n use =>
    ∀ invocation ∈ s.live n, ∀ request ∈ use.requests s.host invocation,
      s.Allows invocation.engine request

instance (s : Session) : (move : Move) → Decidable (s.Fits m plan move)
  | .acquire _ _ => inferInstanceAs (Decidable (_ ∧ _ ∧ _))
  | .use _ _ => inferInstanceAs (Decidable (∀ invocation ∈ _, _))

def Admissible : Session → List Move → Prop
  | _, [] => True
  | s, move :: moves => s.Fits m plan move ∧ Admissible (s.step m plan move).2 moves

instance decidableAdmissible :
    (s : Session) → (moves : List Move) → Decidable (s.Admissible m plan moves)
  | _, [] => .isTrue trivial
  | s, move :: moves =>
    have := decidableAdmissible (s.step m plan move).2 moves
    inferInstanceAs (Decidable (s.Fits m plan move ∧ _))

end Session

end ScriptHost
