import ScriptHost.Proofs.ResultsHistory
import ScriptHost.Proofs.ScriptTraces

/-!
# What the run of a script prints and reports

All that is printed while a script is prepared, run and released goes to the stream of its run, and
all that is reported was asked for by a script. On the standard output, what scripts asked to write
stands in the order in which they asked.
-/

set_option autoImplicit false

namespace ScriptHost

open Lua

/-- The text that a request writes. -/
def Lua.Request.text? : Lua.Request → Option String
  | .write bytes => some (Utf8.text bytes.data.toList)
  | _ => none

/-- What requests write, one text after the other. -/
def printed (requests : List Request) : String :=
  String.join (requests.filterMap Request.text?)

@[simp] theorem printed_nil : printed [] = "" := rfl

theorem printed_singleton (request : Request) : printed [request] = request.text?.getD "" := by
  unfold printed
  cases written : request.text? with
  | none => rw [List.filterMap_cons_none written, List.filterMap_nil]; rfl
  | some text => rw [List.filterMap_cons_some written, List.filterMap_nil]; simp

theorem printed_append (first second : List Request) :
    printed (first ++ second) = printed first ++ printed second := by
  rw [printed, List.filterMap_append, String.join_append, printed, printed]

namespace Host

/-- What scripts on an engine print goes to the standard output. -/
def Standard (engine : EngineId) (h : Host) : Prop := h.writer (h.output engine).writer = .standard

/-- From `h` to `after`, requests account for what was printed and for what was reported. -/
structure Tells (requests : List Request) (h after : Host) : Prop where
  console : after.console = h.console ++ printed requests
  reported : ResultsHistory h (requests.filterMap Request.change?) after

variable {h middle selected after start : Host} {engine : EngineId}
  {first second log : List Request} {id : ManagerId} {context : Context} {cached : Bool}

namespace Tells

theorem silent (console : after.console = h.console) (results : after.results = h.results) :
    Tells [] h after :=
  ⟨by rw [console, printed_nil, String.append_empty], .ofStep (.elsewhere results)⟩

theorem refl (h : Host) : Tells [] h h := silent rfl rfl

theorem trans (one : Tells first h middle) (two : Tells second middle after) :
    Tells (first ++ second) h after where
  console := by rw [two.console, one.console, printed_append, String.append_assoc]
  reported := by
    rw [List.filterMap_append]
    exact one.reported.trans two.reported

/-- Where nothing is asked for any more, what was asked for accounts for all. -/
theorem quiet (one : Tells first h middle) (two : Tells [] middle after) : Tells first h after :=
  List.append_nil first ▸ one.trans two

end Tells

/-! ## Scripts -/

theorem Standard.reply (standard : h.Standard engine) (request : Request) :
    (h.reply engine request).2.Standard engine ∧
      (h.reply engine request).2.console = h.console ++ printed [request] := by
  rw [printed_singleton]
  cases request with
  | write bytes =>
      have written : h.write (h.output engine) (Utf8.text bytes.data.toList) =
          (.ok (), { h with console := h.console ++ Utf8.text bytes.data.toList }) := by
        rw [write, standard]
      have answered : (h.reply engine (.write bytes)).2 =
          (h.write (h.output engine) (Utf8.text bytes.data.toList)).2 := rfl
      rw [answered, written]
      exact ⟨standard, rfl⟩
  | clearEngines id? =>
      simp only [Host.reply]
      split <;> exact ⟨standard, String.append_empty.symm⟩
  | _ => exact ⟨standard, String.append_empty.symm⟩

/-- Whatever scripts do, all that they print goes where the output of their engine went. -/
theorem Uses.tells (uses : Uses engine start log h) (standard : start.Standard engine) :
    h.Standard engine ∧ Tells log start h := by
  suffices kept : h.Standard engine ∧ h.console = start.console ++ printed log from
    ⟨kept.1, kept.2, uses.history⟩
  induction uses with
  | start => exact ⟨standard, by simp⟩
  | answer request _ ih =>
      obtain ⟨still, console⟩ := ih.1.reply request
      exact ⟨still, by rw [console, ih.2, printed_append, String.append_assoc]⟩
  | @alter log h store _ ih =>
      have routing := (RunsOn.modifyEngine engine h store).routing
      refine ⟨?_, ih.2⟩
      rw [Standard, output, routing]
      exact ih.1
  | addContext context _ ih => exact ih

/-! ## Engines -/

/-- Nothing is printed or reported, and the writers that were there stay. -/
structure Silent (h after : Host) : Prop where
  console : after.console = h.console
  results : after.results = h.results
  writer : ∀ id : WriterId, id.index < h.writers.size → after.writer id = h.writer id

theorem Silent.tells (silent : Silent h after) : Tells [] h after :=
  .silent silent.console silent.results

theorem silent_newEngine (h : Host) (options : EngineOptions) :
    Silent h (h.newEngine options).2 := by
  have writer : ∀ id : WriterId, id.index < h.writers.size →
      (h.writers.push .standard)[id.index]?.getD .discard = h.writer id := by
    intro id present
    rw [Array.getElem?_push, if_neg (Nat.ne_of_lt present), Host.writer]
  unfold newEngine
  dsimp only
  split <;> exact ⟨rfl, rfl, writer⟩

theorem silent_requestEngine (bare : (h.manager id).factory.initializers = [])
    (options : EngineOptions) : Silent h (h.requestEngine id options).2 := by
  have kept := factory_modifyManager h id (fun m => rfl : ∀ m : Manager,
    ({ m with requested := m.requested ++ [options] } : Manager).factory = m.factory)
  unfold requestEngine
  dsimp only
  split
  · exact ⟨rfl, rfl, fun _ _ => rfl⟩
  · have made := silent_newEngine
      (h.modifyManager id fun m => { m with requested := m.requested ++ [options] })
      (((h.modifyManager id fun m => { m with requested := m.requested ++ [options] }).manager
        id).factory.effective options)
    unfold createEngine
    rw [kept, bare]
    rw [kept] at made
    split <;>
      · rename_i created
        rw [created] at made
        exact ⟨made.console, made.results, made.writer⟩

/-- A factory without scripts of its own prints and reports nothing. -/
theorem silent_selectEngine (bare : (h.manager id).factory.initializers = []) (policy : Policy)
    (key : CacheKey) : Silent h (h.selectEngine id policy key).2 := by
  have requested := silent_requestEngine bare (.ofPolicy policy)
  cases policy with
  | reuse =>
      simp only [selectEngine]
      split
      · exact ⟨rfl, rfl, fun _ _ => rfl⟩
      · exact ⟨requested.console, requested.results, requested.writer⟩
  | refresh =>
      simp only [selectEngine]
      split <;>
        · rename_i made
          rw [made] at requested
          exact ⟨requested.console, requested.results, requested.writer⟩
  | clean | fullIsolation => exact ⟨requested.console, requested.results, requested.writer⟩

/-! ## Invocations -/

theorem tells_detach (h : Host) (engine : EngineId) (guard : StreamGuard) :
    Tells [] h (h.detach engine guard).2 := by
  by_cases own : guard.engine = engine
  · rw [detach_self guard own]
    exact .silent rfl rfl
  · rw [detach_of_ne own]
    exact .refl h

theorem tells_clear (h : Host) (engine : EngineId) (guard : BindingGuard) :
    Tells [] h (h.clear engine guard).2 := by
  unfold clear
  split
  · exact .silent rfl rfl
  · exact .refl h

theorem tells_setSearchPaths (paths : List Path) (standard : h.Standard engine) :
    (h.setSearchPaths engine paths).2.Standard engine ∧
      Tells (h.searchPathRequests engine paths) h (h.setSearchPaths engine paths).2 := by
  obtain ⟨middle, uses, ⟨e, sets⟩ | sets⟩ := h.uses_setSearchPaths engine paths
  · rw [sets]
    exact uses.tells standard
  · rw [sets]
    obtain ⟨still, told⟩ := uses.tells standard
    have kept : WorksOn engine middle
        (middle.modifyEngine engine fun e => { e with searchPaths := paths }) :=
      .modifyEngine engine middle fun _ => rfl
    refine ⟨?_, told.quiet (.silent rfl rfl)⟩
    rw [Standard, output, kept.routing]
    exact still

theorem tells_release (h : Host) (invocation : Invocation) :
    Tells [] h (h.release invocation).2 := by
  have left := (tells_clear h invocation.engine invocation.bindings).quiet
    (tells_detach _ invocation.engine invocation.stream)
  obtain ⟨_, last | last⟩ := release_eq h invocation
  · rw [last]
    exact left
  · rw [last]
    exact left.quiet (.silent rfl rfl)

theorem standard_attach (present : engine.index < selected.engines.size) {sink : Stream}
    (standard : selected.writer sink.writer = .standard) :
    (selected.attach engine sink).2.Standard engine := by
  rw [Standard, output, routing_attach_self present]
  exact standard

/-- All that scripts print while an engine is set up goes to the stream of the context, and so
will all that the script of the invocation prints. -/
theorem tells_acquire
    (selects : h.selectEngine id context.policy context.cacheKey = (.ok (engine, cached), selected))
    (present : engine.index < selected.engines.size)
    (standard : selected.writer context.output.writer = .standard) :
    Tells (h.setupRequests id context) selected (h.acquire id context).2 ∧
      ∀ invocation, (h.acquire id context).1 = .ok invocation →
        (h.acquire id context).2.Standard invocation.engine := by
  have attached : Tells [] selected (selected.attach engine context.output).2 := .silent rfl rfl
  have injects := (uses_inject (selected.attach engine context.output).2 engine context cached
    (some id)).tells (standard_attach present standard)
  unfold setupRequests
  rw [selects]
  dsimp only
  obtain ⟨injected, ⟨e, refused, acquired⟩ | ⟨guard, entered, assigned, ends⟩⟩ := acquire_cases selects
  · rw [refused] at injects
    rw [acquired, refused, List.append_nil]
    exact ⟨attached.trans (injects.2.quiet (tells_detach injected engine _)),
      fun _ given => by cases given⟩
  · rw [entered] at injects
    rw [entered]
    have assigns := tells_setSearchPaths (injected.effectivePaths id context) injects.1
    rcases ends with ⟨e, refused, acquired⟩ | ⟨sets, acquired⟩
    · rw [refused] at assigns
      rw [acquired]
      have whole := attached.trans (injects.2.trans assigns.2)
      exact ⟨(whole.quiet (tells_clear assigned engine guard)).quiet (tells_detach _ engine _),
        fun _ given => by cases given⟩
    · rw [sets] at assigns
      rw [acquired]
      refine ⟨attached.trans (injects.2.trans assigns.2), ?_⟩
      rintro _ ⟨⟩
      exact assigns.1

/-- What scripts ask for during the run of one of them: first those that live on the engine while
it is set up, then the script itself. -/
def runRequests (h : Host) (id : ManagerId) (script : Path) (options : RunOptions)
    (output : Stream) : List Request :=
  let context := h.runContext script options output
  h.newResults.2.setupRequests id context ++
    match h.newResults.2.acquire id context with
    | (.error _, _) => []
    | (.ok invocation, h) => h.execFileRequests invocation.engine invocation.context.scriptPath

theorem runInvocation_snd (h : Host) (invocation : Invocation) :
    (h.runInvocation invocation).2 =
      (h.execFile invocation.engine invocation.context.scriptPath).2 := rfl

/-- The run of a script prints what was asked for and nothing else, whether it succeeds or not. -/
theorem tells_runScript {script : Path} {options : RunOptions} {output : Stream}
    (stocked : Stocked h) (bare : (h.manager id).factory.initializers = [])
    (there : output.writer.index < h.writers.size)
    (standard : h.writer output.writer = .standard) :
    Tells (h.runRequests id script options output) h.newResults.2
      (h.runScript id script options output).2 := by
  have fresh : Stocked h.newResults.2 := stocked
  obtain ⟨_, present⟩ := stocked_selectEngine fresh id
    (h.runContext script options output).policy (h.runContext script options output).cacheKey
  have selection := silent_selectEngine (h := h.newResults.2) bare
    (h.runContext script options output).policy (h.runContext script options output).cacheKey
  unfold runRequests
  dsimp only
  cases selects : h.newResults.2.selectEngine id (h.runContext script options output).policy
      (h.runContext script options output).cacheKey with
  | mk result selected =>
      rw [selects] at selection present
      cases result with
      | error e =>
          have refused := acquire_of_error selects
          rw [runScript_of_refused refused, refused, setupRequests_of_error (by rw [selects])]
          exact selection.tells
      | ok choice =>
          obtain ⟨engine, cached⟩ := choice
          have kept : selected.writer (h.runContext script options output).output.writer =
              .standard := (selection.writer output.writer there).trans standard
          obtain ⟨acquires, routed⟩ := tells_acquire selects (present engine cached rfl) kept
          have whole := selection.tells.trans acquires
          cases acquired : h.newResults.2.acquire id (h.runContext script options output) with
          | mk result middle =>
              rw [acquired] at whole routed
              cases result with
              | error e =>
                  rw [runScript_of_refused acquired, List.append_nil]
                  exact whole
              | ok invocation =>
                  have ran := (middle.uses_execFile invocation.engine
                    invocation.context.scriptPath).tells (routed invocation rfl)
                  rw [(runScript_of_acquired acquired).1, runInvocation_snd]
                  exact (whole.trans ran.2).quiet (tells_release _ invocation)

end Host

end ScriptHost
