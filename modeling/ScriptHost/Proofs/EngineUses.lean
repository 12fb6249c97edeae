import ScriptHost.Proofs.HostOperations
import ScriptHost.Proofs.Requests

/-!
# What a host does on one engine

Whatever a host does on an engine by scripts consists of answers to them and of changes to the store
of the engine. Each operation is followed through here once. What it keeps of a host, what it
prints and what it reports can then be told from the requests alone.
-/

set_option autoImplicit false

namespace ScriptHost.Host

open Lua

/-- What happens on an engine, with the requests of its scripts in their order. -/
inductive Uses (engine : EngineId) (start : Host) : List Request → Host → Prop where
  | start : Uses engine start [] start
  | answer {log : List Request} {h : Host} (request : Request) : Uses engine start log h →
      Uses engine start (log ++ [request]) (h.reply engine request).2
  | alter {log : List Request} {h : Host} (store : Engine → Store) : Uses engine start log h →
      Uses engine start log (h.modifyEngine engine fun e => { e with store := store e })
  | addContext {log : List Request} {h : Host} (context : Context) : Uses engine start log h →
      Uses engine start log (h.addContext context).2

namespace Uses

variable {engine : EngineId} {start middle h : Host} {log more : List Request}

theorem trans (first : Uses engine start log middle) (second : Uses engine middle more h) :
    Uses engine start (log ++ more) h := by
  induction second with
  | start =>
      rw [List.append_nil]
      exact first
  | answer request _ ih =>
      rw [← List.append_assoc]
      exact .answer request ih
  | alter store _ ih => exact .alter store ih
  | addContext context _ ih => exact .addContext context ih

theorem modifyHeap (uses : Uses engine start log h) (f : Heap → Heap) :
    Uses engine start log (h.modifyHeap engine f) :=
  .alter _ uses

end Uses

/-! ## Scripts -/

section

variable (h : Host) (engine : EngineId)

theorem uses_drive (mayPause : Bool) (rounds : Nat) (store : Store) (stack : Stack)
    (action : Action) :
    Uses engine h (driveRequests mayPause engine rounds store stack action h)
      (drive mayPause engine rounds store stack action h).2.2 := by
  induction rounds generalizing store stack action h with
  | zero => exact .start
  | succ rounds ih =>
      rw [drive, driveRequests]
      cases Machine.run setting h.stepLimit store stack action with
      | mk store rest =>
          obtain ⟨stack, stop⟩ := rest
          cases stop with
          | none => exact .start
          | some stop =>
              cases stop with
              | finished result => exact .start
              | asking request next =>
                  have answered := (Uses.start.answer request).trans
                    (ih (h.reply engine request).2 store stack (next (h.reply engine request).1))
                  cases mayPause with
                  | false => exact answered
                  | true =>
                      cases request with
                      | callback function => exact .start
                      | _ => exact answered

theorem uses_advance (mayPause : Bool) (stack : Stack) (action : Action) :
    Uses engine h (h.advanceRequests mayPause engine stack action)
      (h.advance mayPause engine stack action).2 :=
  .alter _ (h.uses_drive engine mayPause h.stepLimit (h.engine engine).store stack action)

theorem uses_perform (script : Eval (List Value)) :
    Uses engine h (h.performRequests engine script) (h.perform engine script).2 :=
  uses_advance ..

theorem uses_callFunction (f : Value) (arguments : List Value) :
    Uses engine h (h.callRequests engine f arguments) (h.callFunction engine f arguments).2 :=
  uses_perform ..

theorem uses_global (name : String) :
    Uses engine h (h.globalRequests engine name) (h.global engine name).2 :=
  uses_perform ..

theorem uses_setField (v : Value) (name : String) (value : Value) :
    Uses engine h (h.setFieldRequests engine v name value) (h.setField engine v name value).2 :=
  uses_perform ..

theorem uses_load (name text : List UInt8) : Uses engine h [] (h.load engine name text).2 := by
  unfold load
  split
  · exact .start
  · dsimp only
    split <;>
      · dsimp only
        exact Uses.start.modifyHeap _

theorem uses_exec (name text : List UInt8) :
    Uses engine h (h.execRequests engine name text) (h.exec engine name text).2 := by
  have loaded := h.uses_load engine name text
  unfold exec execRequests
  cases made : h.load engine name text with
  | mk result middle =>
      rw [made] at loaded
      cases result with
      | error e => exact loaded
      | ok f => exact loaded.trans (middle.uses_callFunction engine f [])

theorem uses_loadFile (path : Path) : Uses engine h [] (h.loadFile engine path).2 := by
  unfold loadFile
  split
  · exact .start
  · exact h.uses_load engine _ _

theorem uses_execFile (path : Path) :
    Uses engine h (h.execFileRequests engine path) (h.execFile engine path).2 := by
  have loaded := h.uses_loadFile engine path
  unfold execFile execFileRequests
  cases made : h.loadFile engine path with
  | mk result middle =>
      rw [made] at loaded
      cases result with
      | error e => exact loaded
      | ok f => exact loaded.trans (middle.uses_callFunction engine f [])

theorem uses_prepare (scripts : List String) (index : Nat) :
    Uses engine h (h.prepareRequests engine index scripts) (h.prepare engine index scripts).2 := by
  induction scripts generalizing index h with
  | nil => exact .start
  | cons script scripts ih =>
      have run := h.uses_exec engine (Utf8.bytes s!"init{index}") (Utf8.bytes script)
      rw [prepare, prepareRequests]
      cases made : h.exec engine (Utf8.bytes s!"init{index}") (Utf8.bytes script) with
      | mk result middle =>
          rw [made] at run
          cases result with
          | ok _ => exact run.trans (ih middle (index + 1))
          | error e => exact run.trans .start

/-! ## Bindings and search paths -/

theorem uses_installScopes :
    Uses engine h (h.installRequests engine) (h.installScopes engine).2 := by
  unfold installScopes installRequests
  dsimp only
  generalize (h.heap engine).newTable _ = made
  have opened : Uses engine h [] (h.modifyHeap engine fun _ => made.2) := Uses.start.modifyHeap _
  generalize h.modifyHeap engine (fun _ => made.2) = start at opened ⊢
  have read := opened.trans (start.uses_global engine "setmetatable")
  cases found : start.global engine "setmetatable" with
  | mk result middle =>
      rw [found] at read
      cases result with
      | error e => exact read.trans .start
      | ok v =>
          dsimp only at read ⊢
          cases asFunction v with
          | error e => exact read.trans .start
          | ok f =>
              have called := read.trans (middle.uses_callFunction engine f
                [.table (h.heap engine).globals, .table made.1])
              dsimp only
              cases returned : middle.callFunction engine f
                [.table (h.heap engine).globals, .table made.1] with
              | mk result last =>
                  rw [returned] at called
                  cases result with
                  | error e => exact called
                  | ok _ =>
                      dsimp only at called ⊢
                      exact called.modifyHeap _

theorem uses_ensureScopes : Uses engine h (h.injectRequests engine) (h.ensureScopes engine).2 := by
  unfold ensureScopes injectRequests
  cases (h.heap engine).globalsMetatable? with
  | some m => exact .start
  | none => exact h.uses_installScopes engine

theorem uses_inject (context : Context) (cached : Bool) (manager? : Option ManagerId) :
    Uses engine h (h.injectRequests engine) (h.inject engine context cached manager?).2 := by
  have ensured := h.uses_ensureScopes engine
  cases ensures : h.ensureScopes engine with
  | mk result middle =>
      rw [ensures] at ensured
      cases result with
      | error e =>
          rw [inject_of_error ensures]
          exact ensured
      | ok _ =>
          have added : Uses engine h (h.injectRequests engine) (middle.addContext context).2 :=
            .addContext context ensured
          obtain ⟨full, ⟨_, injects⟩ | ⟨_, injects⟩⟩ := inject_cases ensures context cached manager? <;>
            · rw [injects]
              dsimp only
              exact added.modifyHeap _

theorem uses_clear (guard : BindingGuard) : Uses engine h [] (h.clear engine guard).2 := by
  unfold clear
  split
  · exact Uses.start.modifyHeap _
  · exact .start

theorem uses_setPackagePath (patterns : List UInt8) :
    Uses engine h (h.packagePathRequests engine patterns) (h.setPackagePath engine patterns).2 := by
  have read := h.uses_global engine "package"
  unfold setPackagePath packagePathRequests
  cases found : h.global engine "package" with
  | mk result middle =>
      rw [found] at read
      cases result with
      | error e => exact read.trans .start
      | ok v =>
          dsimp only at read ⊢
          cases asTable v with
          | error e => exact read.trans .start
          | ok package =>
              refine read.trans ?_
              dsimp only
              cases Machine.fitsHolding package (middle.heap engine)
                  (Heap.sizeOf (.string patterns.toByteArray)) with
              | mk enough heap =>
                  have roomy : Uses engine middle [] (middle.modifyHeap engine fun _ => heap) :=
                    Uses.start.modifyHeap _
                  cases enough with
                  | false => exact roomy
                  | true => exact roomy.trans (Host.uses_setField _ engine (.table package) "path" _)

/-- All that scripts do while search paths are set is done when the engine learns of them. -/
theorem uses_setSearchPaths (paths : List Path) :
    ∃ middle, Uses engine h (h.searchPathRequests engine paths) middle ∧
      ((∃ e, h.setSearchPaths engine paths = (.error e, middle)) ∨
        h.setSearchPaths engine paths =
          (.ok (), middle.modifyEngine engine fun e => { e with searchPaths := paths })) := by
  have assigned := h.uses_setPackagePath engine (SearchPath.render paths)
  unfold searchPathRequests
  obtain ⟨path, fault, faulty, refused⟩ |
    ⟨usable, middle, ⟨e, assigns, sets⟩ | ⟨assigns, sets⟩⟩ := h.setSearchPaths_cases engine paths
  · rw [faulty]
    exact ⟨h, .start, .inl ⟨_, refused⟩⟩
  · rw [assigns] at assigned
    rw [usable]
    exact ⟨middle, assigned, .inl ⟨e, sets⟩⟩
  · rw [assigns] at assigned
    rw [usable]
    exact ⟨middle, assigned, .inr sets⟩

end

end ScriptHost.Host
