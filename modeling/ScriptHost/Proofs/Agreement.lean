import ScriptHost.Proofs.CacheEffects
import ScriptHost.ScriptRun

/-!
# Agreement of two hosts

Two hosts may have some engines in common, and what these engines and their scripts use, while the
rest of their states differs. Whatever is done on a common engine in both hosts has the same
outcome, and they agree afterwards, if scripts ask for nothing else.
-/

set_option autoImplicit false

namespace ScriptHost

open Lua

/-- A request that concerns, beside the engine and its output, only some contexts and results. What
a manager has in its cache is asked for by none. -/
def Lua.Request.Within (contexts : ContextId → Prop) (results : ResultsId → Prop) : Request → Prop
  | .write _ | .readFile _ | .callback _ => True
  | .contextField id _ => contexts id
  | .result id _ | .setResult id _ _ | .removeResult id _ | .results id => results id
  | .cachedKeys _ | .isCached _ _ | .clearEngines _ => False

namespace Lua.Request

instance {contexts : ContextId → Prop} {results : ResultsId → Prop} [DecidablePred contexts]
    [DecidablePred results] : (request : Request) → Decidable (request.Within contexts results)
  | .write _ | .readFile _ | .callback _ => .isTrue trivial
  | .contextField id _ => inferInstanceAs (Decidable (contexts id))
  | .result id _ | .setResult id _ _ | .removeResult id _ | .results id =>
    inferInstanceAs (Decidable (results id))
  | .cachedKeys _ | .isCached _ _ | .clearEngines _ => .isFalse id

theorem Within.mono {contexts further : ContextId → Prop} {results others : ResultsId → Prop}
    {request : Request} (within : request.Within contexts results)
    (first : ∀ id, contexts id → further id) (second : ∀ id, results id → others id) :
    request.Within further others := by
  cases request with
  | contextField id name => exact first id within
  | result id key => exact second id within
  | setResult id key value => exact second id within
  | removeResult id key => exact second id within
  | results id => exact second id within
  | _ => exact within

end Lua.Request

/-- What two hosts have in common: the entries of one cache under some keys, and some engines,
contexts and results. -/
structure Shared where
  cache : CacheId
  keys : CacheKey → Prop
  engines : EngineId → Prop
  contexts : ContextId → Prop
  results : ResultsId → Prop

namespace Shared

def Permits (shared : Shared) (request : Request) : Prop :=
  request.Within shared.contexts shared.results

/-- With further engines that are shared. -/
def adding (shared : Shared) (engines : EngineId → Prop) : Shared :=
  { shared with engines := fun id => shared.engines id ∨ engines id }

end Shared

/-- By how much the numbers that a host gives next are ahead of those that another one gives. -/
structure Lead where
  engines : Nat
  contexts : Nat
  writers : Nat

namespace Host

/-- What two hosts share is the same beside engines and contexts, and they are set up alike. -/
structure Alike (shared : Shared) (h g : Host) : Prop where
  resultCount : g.results.size = h.results.size
  results : ∀ id, shared.results id → g.resultsOf id = h.resultsOf id
  caches : g.caches.size = h.caches.size
  entries : ∀ key, shared.keys key →
    (g.cache shared.cache).get? key = (h.cache shared.cache).get? key
  managers : ∀ index : Nat,
    g.managers[index]?.map Manager.setup = h.managers[index]?.map Manager.setup
  broken : ∀ id, g.writer id = .broken ↔ h.writer id = .broken
  files : g.files = h.files
  stepLimit : g.stepLimit = h.stepLimit

/-- Two hosts agree on all that they share. -/
structure Agree (shared : Shared) (lead : Lead) (h g : Host) : Prop extends Alike shared h g where
  engineCount : h.engines.size = g.engines.size + lead.engines
  contextCount : h.contexts.size = g.contexts.size + lead.contexts
  writerCount : h.writers.size = g.writers.size + lead.writers
  engines : ∀ id, shared.engines id → id.index < g.engines.size ∧ g.engine id = h.engine id
  contexts : ∀ id, shared.contexts id → g.context? id = h.context? id

/-- What is done in two hosts has one outcome, and they agree afterwards. -/
structure Same {α : Type} (shared : Shared) (lead : Lead) (first second : α × Host) : Prop where
  outcome : second.1 = first.1
  agree : Agree shared lead first.2 second.2

variable {shared : Shared} {lead : Lead} {h g after : Host} {engine : EngineId} {α : Type}

namespace Alike

theorem refl (shared : Shared) (h : Host) : Alike shared h h :=
  ⟨rfl, fun _ _ => rfl, rfl, fun _ _ => rfl, fun _ => rfl, fun _ => Iff.rfl, rfl, rfl⟩

theorem trans (first : Alike shared h g) (second : Alike shared g after) :
    Alike shared h after where
  resultCount := second.resultCount.trans first.resultCount
  results id known := (second.results id known).trans (first.results id known)
  caches := second.caches.trans first.caches
  entries key known := (second.entries key known).trans (first.entries key known)
  managers index := (second.managers index).trans (first.managers index)
  broken id := (second.broken id).trans (first.broken id)
  files := second.files.trans first.files
  stepLimit := second.stepLimit.trans first.stepLimit

theorem symm (alike : Alike shared h g) : Alike shared g h where
  resultCount := alike.resultCount.symm
  results id known := (alike.results id known).symm
  caches := alike.caches.symm
  entries key known := (alike.entries key known).symm
  managers index := (alike.managers index).symm
  broken id := (alike.broken id).symm
  files := alike.files.symm
  stepLimit := alike.stepLimit.symm

end Alike

theorem Same.split {first second : α × Host} (same : Same shared lead first second) :
    ∃ a h g, first = (a, h) ∧ second = (a, g) ∧ Agree shared lead h g :=
  ⟨first.1, first.2, second.2, rfl, Prod.ext same.outcome rfl, same.agree⟩

theorem Same.map {β : Type} {first second : α × Host} (same : Same shared lead first second)
    (f : α → β) : Same shared lead (f first.1, first.2) (f second.1, second.2) :=
  ⟨congrArg f same.outcome, same.agree⟩

namespace Agree

theorem refl (shared : Shared) (h : Host)
    (present : ∀ id, shared.engines id → id.index < h.engines.size) :
    Agree shared ⟨0, 0, 0⟩ h h :=
  ⟨.refl shared h, rfl, rfl, rfl, fun id known => ⟨present id known, rfl⟩, fun _ _ => rfl⟩

theorem onEngines (agree : Agree shared lead h g) {engines : EngineId → Prop}
    (fewer : ∀ id, engines id → shared.engines id) : Agree { shared with engines } lead h g :=
  { agree with engines := fun id known => agree.engines id (fewer id known) }

theorem onContexts (agree : Agree shared lead h g) {contexts : ContextId → Prop}
    (fewer : ∀ id, contexts id → shared.contexts id) : Agree { shared with contexts } lead h g :=
  { agree with contexts := fun id known => agree.contexts id (fewer id known) }

theorem engine_eq (agree : Agree shared lead h g) (known : shared.engines engine) :
    g.engine engine = h.engine engine :=
  (agree.engines engine known).2

theorem heap_eq (agree : Agree shared lead h g) (known : shared.engines engine) :
    g.heap engine = h.heap engine := by
  rw [heap, agree.engine_eq known, heap]

theorem routing_eq (agree : Agree shared lead h g) (known : shared.engines engine) :
    g.routing engine = h.routing engine := by
  rw [routing, agree.engine_eq known, routing]

/-! ## Changes that both hosts make -/

theorem modifyEngine (agree : Agree shared lead h g) (engine : EngineId) (f : Engine → Engine) :
    Agree shared lead (h.modifyEngine engine f) (g.modifyEngine engine f) :=
  { agree with
    engineCount := by simpa using agree.engineCount
    engines := fun id known => by
      obtain ⟨present, same⟩ := agree.engines id known
      refine ⟨by simpa using present, ?_⟩
      by_cases here : id = engine
      · subst here
        have there : id.index < h.engines.size :=
          Nat.lt_of_lt_of_le present (agree.engineCount ▸ Nat.le_add_right _ _)
        rw [engine_modifyEngine_self present, engine_modifyEngine_self there, same]
      · rw [engine_modifyEngine_of_ne here, engine_modifyEngine_of_ne here, same] }

theorem modifyHeap (agree : Agree shared lead h g) (engine : EngineId) (f : Heap → Heap) :
    Agree shared lead (h.modifyHeap engine f) (g.modifyHeap engine f) :=
  agree.modifyEngine engine _

theorem sameHeap (agree : Agree shared lead h g) (a : α) (engine : EngineId) (f : Heap → Heap) :
    Same shared lead (a, h.modifyHeap engine f) (a, g.modifyHeap engine f) :=
  ⟨rfl, agree.modifyHeap engine f⟩

theorem modifyResults (agree : Agree shared lead h g) (id : ResultsId)
    (f : List (String × Json) → List (String × Json)) :
    Agree shared lead (h.modifyResults id f) (g.modifyResults id f) :=
  { agree with
    resultCount := by simpa [Host.modifyResults] using agree.resultCount
    results := fun other known => by
      have same := agree.results other known
      simp only [resultsOf, Host.modifyResults, Array.getElem?_modify] at same ⊢
      split
      · by_cases present : other.index < h.results.size
        · have there : other.index < g.results.size := agree.resultCount ▸ present
          simpa [present, there] using congrArg f (by simpa [present, there] using same)
        · have missing : ¬ other.index < g.results.size := agree.resultCount ▸ present
          simp [present, missing]
      · exact same }

theorem addContext (agree : Agree shared lead h g) (level : lead.contexts = 0)
    (context : Context) : Same shared lead (h.addContext context) (g.addContext context) where
  outcome := by
    have sizes := agree.contextCount
    rw [level, Nat.add_zero] at sizes
    simp [Host.addContext, sizes]
  agree :=
    { agree with
      contextCount := by
        have sizes := agree.contextCount
        simp only [Host.addContext, Array.size_push]
        omega
      contexts := fun id known => by
        have same := agree.contexts id known
        have sizes := agree.contextCount
        rw [level, Nat.add_zero] at sizes
        simp only [context?, Host.addContext, Array.getElem?_push, sizes] at same ⊢
        rw [same] }

theorem write (agree : Agree shared lead h g) (stream : Stream) (text : String) :
    Same shared lead (h.write stream text) (g.write stream text) := by
  have changes : ∀ h : Host, ∃ writers console,
      (h.write stream text).2 = { h with writers, console } ∧ writers.size = h.writers.size := by
    intro h
    unfold Host.write
    split
    · exact ⟨h.writers, _, rfl, rfl⟩
    · exact ⟨h.writers, h.console, rfl, rfl⟩
    · exact ⟨_, h.console, rfl, by simp⟩
    · exact ⟨h.writers, h.console, rfl, rfl⟩
  refine ⟨?_, ?_⟩
  · have broken := agree.broken stream.writer
    unfold Host.write
    cases here : h.writer stream.writer <;> cases there : g.writer stream.writer <;>
      simp_all
  · obtain ⟨writers, console, first, size⟩ := changes h
    obtain ⟨others, shown, second, count⟩ := changes g
    have kept := fun id => ((writer_write g stream text id).trans (agree.broken id)).trans
      (writer_write h stream text id).symm
    rw [first, second] at kept ⊢
    exact { agree with
      writerCount := by rw [size, count, agree.writerCount]
      broken := kept }

end Agree

/-! ## Scripts -/

section

variable (agree : Agree shared lead h g) (known : shared.engines engine)

include agree known

theorem same_reply (request : Request) (permitted : shared.Permits request) :
    Same shared lead (h.reply engine request) (g.reply engine request) := by
  cases request with
  | write bytes =>
      have written := agree.write (h.engine engine).routing.output (Utf8.text bytes.data.toList)
      rw [reply, reply, agree.engine_eq known]
      exact written.map (Except.mapError WriteFault.message)
  | result id key =>
      refine ⟨?_, agree⟩
      simp only [reply, result?]
      rw [agree.results id permitted]
  | setResult id key value => exact ⟨rfl, agree.modifyResults id _⟩
  | removeResult id key => exact ⟨rfl, agree.modifyResults id _⟩
  | results id => exact ⟨agree.results id permitted, agree⟩
  | contextField id name =>
      refine ⟨?_, agree⟩
      simp only [reply]
      rw [agree.contexts id permitted]
  | readFile path =>
      refine ⟨?_, agree⟩
      simp only [reply]
      rw [agree.files]
  | callback index => exact ⟨rfl, agree⟩
  | cachedKeys id? => exact permitted.elim
  | isCached id? key => exact permitted.elim
  | clearEngines id? => exact permitted.elim

end

theorem same_drive (mayPause : Bool) (known : shared.engines engine) (rounds : Nat) (store : Store)
    (stack : Stack) (action : Action) {h g : Host} (agree : Agree shared lead h g)
    (permitted : ∀ request ∈ driveRequests mayPause engine rounds store stack action h,
      shared.Permits request) :
    ∃ progress store' after other,
      drive mayPause engine rounds store stack action h = (progress, store', after) ∧
      drive mayPause engine rounds store stack action g = (progress, store', other) ∧
      Agree shared lead after other := by
  induction rounds generalizing store stack action h g with
  | zero => exact ⟨.exhausted, store, h, g, rfl, rfl, agree⟩
  | succ rounds ih =>
      rw [driveRequests] at permitted
      rw [drive, drive, agree.stepLimit]
      cases ran : Machine.run setting h.stepLimit store stack action with
      | mk store rest =>
          obtain ⟨stack, stop⟩ := rest
          rw [ran] at permitted
          cases stop with
          | none => exact ⟨.exhausted, store, h, g, rfl, rfl, agree⟩
          | some stop =>
              cases stop with
              | finished result => exact ⟨.ended result, store, h, g, rfl, rfl, agree⟩
              | asking request next =>
                  -- The answer is the same in both hosts, and so is what the script does next.
                  have goesOn (allowed : ∀ r ∈ request :: driveRequests mayPause engine rounds store
                      stack (next (h.reply engine request).1) (h.reply engine request).2,
                      shared.Permits r) :
                      ∃ progress store' after other,
                        drive mayPause engine rounds store stack (next (h.reply engine request).1)
                            (h.reply engine request).2 = (progress, store', after) ∧
                        drive mayPause engine rounds store stack (next (g.reply engine request).1)
                            (g.reply engine request).2 = (progress, store', other) ∧
                        Agree shared lead after other := by
                    have answered := same_reply agree known request
                      (allowed request List.mem_cons_self)
                    rw [answered.outcome]
                    exact ih store stack _ answered.agree
                      fun r member => allowed r (List.mem_cons_of_mem _ member)
                  cases mayPause with
                  | false => exact goesOn permitted
                  | true =>
                      cases request with
                      | callback function =>
                          exact ⟨.calling function stack next, store, h, g, rfl, rfl, agree⟩
                      | _ => exact goesOn permitted

/-! ## What hosts do on an engine -/

section

variable (agree : Agree shared lead h g) (known : shared.engines engine)

include agree known

theorem same_advance (mayPause : Bool) (stack : Stack) (action : Action)
    (permitted : ∀ request ∈ h.advanceRequests mayPause engine stack action,
      shared.Permits request) :
    Same shared lead (h.advance mayPause engine stack action)
      (g.advance mayPause engine stack action) := by
  obtain ⟨progress, store, after, other, first, second, reached⟩ :=
    same_drive mayPause known h.stepLimit (h.engine engine).store stack action agree permitted
  rw [advance, advance, agree.stepLimit, agree.engine_eq known, first, second]
  exact ⟨rfl, reached.modifyEngine engine _⟩

theorem same_perform (script : Eval (List Value))
    (permitted : ∀ request ∈ h.performRequests engine script, shared.Permits request) :
    Same shared lead (h.perform engine script) (g.perform engine script) := by
  obtain ⟨progress, after, other, first, second, reached⟩ :=
    (same_advance agree known false {} (Eval.run script) permitted).split
  rw [perform, perform, first, second]
  refine ⟨?_, reached⟩
  simp only [outcome, reached.heap_eq known]

theorem same_callFunction (f : Value) (arguments : List Value)
    (permitted : ∀ request ∈ h.callRequests engine f arguments, shared.Permits request) :
    Same shared lead (h.callFunction engine f arguments) (g.callFunction engine f arguments) :=
  same_perform agree known _ permitted

theorem same_global (name : String)
    (permitted : ∀ request ∈ h.globalRequests engine name, shared.Permits request) :
    Same shared lead (h.global engine name) (g.global engine name) := by
  rw [global, global, agree.heap_eq known]
  exact (same_perform agree known _ permitted).map fun result => result.map firstOf

theorem same_setField (v : Value) (name : String) (value : Value)
    (permitted : ∀ request ∈ h.setFieldRequests engine v name value, shared.Permits request) :
    Same shared lead (h.setField engine v name value) (g.setField engine v name value) :=
  (same_perform agree known _ permitted).map fun result => result.map fun _ => ()

theorem same_load (name text : List UInt8) :
    Same shared lead (h.load engine name text) (g.load engine name text) := by
  unfold load
  rw [agree.heap_eq known]
  split
  · exact ⟨rfl, agree⟩
  · dsimp only
    split <;> exact agree.sameHeap ..

theorem same_exec (name text : List UInt8)
    (permitted : ∀ request ∈ h.execRequests engine name text, shared.Permits request) :
    Same shared lead (h.exec engine name text) (g.exec engine name text) := by
  obtain ⟨result, after, other, first, second, reached⟩ := (same_load agree known name text).split
  rw [execRequests, first] at permitted
  rw [exec, exec, first, second]
  cases result with
  | error e => exact ⟨rfl, reached⟩
  | ok f => exact same_callFunction reached known f [] permitted

theorem same_execFile (path : Path)
    (permitted : ∀ request ∈ h.execFileRequests engine path, shared.Permits request) :
    Same shared lead (h.execFile engine path) (g.execFile engine path) := by
  have loaded : Same shared lead (h.loadFile engine path) (g.loadFile engine path) := by
    unfold loadFile
    rw [agree.files]
    split
    · exact ⟨rfl, agree⟩
    · exact same_load agree known _ _
  obtain ⟨result, after, other, first, second, reached⟩ := loaded.split
  rw [execFileRequests, first] at permitted
  rw [execFile, execFile, first, second]
  cases result with
  | error e => exact ⟨rfl, reached⟩
  | ok f => exact same_callFunction reached known f [] permitted

theorem same_runInvocation {invocation : Invocation} (own : invocation.engine = engine)
    (permitted : ∀ request ∈ h.execFileRequests engine invocation.context.scriptPath,
      shared.Permits request) :
    Same shared lead (h.runInvocation invocation) (g.runInvocation invocation) := by
  rw [runInvocation, runInvocation, own]
  exact (same_execFile agree known _ permitted).map fun result => result.map fun _ => ()

theorem same_installScopes
    (permitted : ∀ request ∈ h.installRequests engine, shared.Permits request) :
    Same shared lead (h.installScopes engine) (g.installScopes engine) := by
  unfold installRequests at permitted
  unfold installScopes
  rw [agree.heap_eq known]
  dsimp only at permitted ⊢
  generalize (h.heap engine).newTable _ = made at permitted ⊢
  have opened := agree.modifyHeap engine fun _ => made.2
  obtain ⟨result, middle, other, first, second, reached⟩ :=
    (same_global opened known "setmetatable"
      fun r member => permitted r (List.mem_append_left _ member)).split
  rw [first] at permitted
  rw [first, second]
  cases result with
  | error e => exact ⟨rfl, reached⟩
  | ok v =>
      dsimp only at permitted ⊢
      cases found : asFunction v with
      | error e => exact ⟨rfl, reached⟩
      | ok f =>
          rw [found] at permitted
          obtain ⟨result, last, finish, called, too, ended⟩ :=
            (same_callFunction reached known f [.table (h.heap engine).globals, .table made.1]
              fun r member => permitted r (List.mem_append_right _ member)).split
          dsimp only
          rw [called, too]
          cases result with
          | error e => exact ⟨rfl, ended⟩
          | ok _ => exact ended.sameHeap ..

theorem same_ensureScopes
    (permitted : ∀ request ∈ h.injectRequests engine, shared.Permits request) :
    Same shared lead (h.ensureScopes engine) (g.ensureScopes engine) := by
  unfold injectRequests at permitted
  unfold ensureScopes
  rw [agree.heap_eq known]
  cases installed : (h.heap engine).globalsMetatable? with
  | some m => exact ⟨rfl, agree⟩
  | none =>
      rw [installed] at permitted
      exact same_installScopes agree known permitted

theorem same_inject (level : lead.contexts = 0) (context : Context) (cached : Bool)
    (manager? : Option ManagerId)
    (permitted : ∀ request ∈ h.injectRequests engine, shared.Permits request) :
    Same shared lead (h.inject engine context cached manager?)
      (g.inject engine context cached manager?) := by
  obtain ⟨result, middle, other, first, second, reached⟩ :=
    (same_ensureScopes agree known permitted).split
  rw [inject, inject, first, second]
  cases result with
  | error e => exact ⟨rfl, reached⟩
  | ok _ =>
      obtain ⟨id, last, finish, added, too, ended⟩ := (reached.addContext level context).split
      dsimp only
      rw [added, too]
      dsimp only
      rw [ended.heap_eq known]
      split <;> exact ended.sameHeap ..

theorem same_setPackagePath (patterns : List UInt8)
    (permitted : ∀ request ∈ h.packagePathRequests engine patterns, shared.Permits request) :
    Same shared lead (h.setPackagePath engine patterns) (g.setPackagePath engine patterns) := by
  unfold packagePathRequests at permitted
  obtain ⟨result, middle, other, first, second, reached⟩ :=
    (same_global agree known "package"
      fun r member => permitted r (List.mem_append_left _ member)).split
  rw [first] at permitted
  rw [setPackagePath, setPackagePath, first, second]
  cases result with
  | error e => exact ⟨rfl, reached⟩
  | ok v =>
      dsimp only at permitted ⊢
      cases found : asTable v with
      | error e => exact ⟨rfl, reached⟩
      | ok package =>
          rw [found] at permitted
          dsimp only at permitted ⊢
          rw [reached.heap_eq known]
          cases room : Machine.fitsHolding package (middle.heap engine)
              (Heap.sizeOf (.string patterns.toByteArray)) with
          | mk enough heap =>
              rw [room] at permitted
              have roomy := reached.modifyHeap engine fun _ => heap
              cases enough with
              | false => exact ⟨rfl, roomy⟩
              | true =>
                  exact same_setField roomy known (.table package) "path" _
                    fun r member => permitted r (List.mem_append_right _ member)

theorem same_setSearchPaths (paths : List Path)
    (permitted : ∀ request ∈ h.searchPathRequests engine paths, shared.Permits request) :
    Same shared lead (h.setSearchPaths engine paths) (g.setSearchPaths engine paths) := by
  unfold searchPathRequests at permitted
  unfold setSearchPaths
  cases fault : SearchPath.firstFault? paths with
  | some found => exact ⟨rfl, agree⟩
  | none =>
      rw [fault] at permitted
      obtain ⟨result, middle, other, first, second, reached⟩ :=
        (same_setPackagePath agree known (SearchPath.render paths) permitted).split
      dsimp only
      rw [first, second]
      cases result with
      | error e => exact ⟨rfl, reached⟩
      | ok _ => exact ⟨rfl, reached.modifyEngine engine _⟩

theorem same_attach (sink : Stream) :
    Same shared lead (h.attach engine sink) (g.attach engine sink) := by
  rw [attach, attach, alterRouting, alterRouting, agree.routing_eq known]
  exact ⟨rfl, agree.modifyEngine engine _⟩

theorem same_detach (guard : StreamGuard) :
    Same shared lead (h.detach engine guard) (g.detach engine guard) := by
  by_cases own : guard.engine = engine
  · rw [detach_self guard own, detach_self guard own, agree.routing_eq known]
    exact ⟨rfl, agree.modifyEngine engine _⟩
  · rw [detach_of_ne own, detach_of_ne own]
    exact ⟨rfl, agree⟩

omit known in
theorem same_clear (guard : BindingGuard) :
    Same shared lead (h.clear engine guard) (g.clear engine guard) := by
  unfold clear
  split
  · exact agree.sameHeap ..
  · exact ⟨rfl, agree⟩

end

theorem same_release (agree : Agree shared lead h g) {invocation : Invocation}
    (known : shared.engines invocation.engine) :
    Same shared lead (h.release invocation) (g.release invocation) := by
  have clears : Same shared lead (h.clear invocation.engine invocation.bindings)
      (g.clear invocation.engine invocation.bindings) := same_clear agree _
  obtain ⟨cleared, middle, other, first, second, left⟩ := clears.split
  obtain ⟨detached, last, finish, third, fourth, ended⟩ :=
    (same_detach left known invocation.stream).split
  unfold release
  dsimp only
  rw [first, second]
  dsimp only
  rw [third, fourth]
  cases cleared with
  | error e => exact ⟨rfl, ended⟩
  | ok _ =>
      cases detached with
      | error e => exact ⟨rfl, ended⟩
      | ok _ =>
          refine ⟨rfl, ?_⟩
          dsimp only
          rw [ended.engine_eq known]
          split
          · exact ended.modifyEngine invocation.engine _
          · exact ended

end Host

end ScriptHost
