import ScriptHost.Proofs.OrdinaryUses
import ScriptHost.Proofs.ReachableHosts

/-!
# What the run of a script leaves behind

A script that is run as an invocation of its own leaves nothing of the invocation behind, whether it
ends, fails, cannot be read, or no engine can be prepared for it.
-/

set_option autoImplicit false

namespace ScriptHost

open Lua Scope

namespace Host

variable {h selected after : Host} {engine : EngineId} {V W : Vault} {id : ManagerId}
  {script : Path} {options : RunOptions} {output : Stream}

def runContext (h : Host) (script : Path) (options : RunOptions) (output : Stream) : Context :=
  .ofScript script options output h.newResults.1

/-! ## The steps of a run -/

theorem runScript_of_refused {e : EngineError}
    (refused : h.newResults.2.acquire id (h.runContext script options output) = (.error e, after)) :
    h.runScript id script options output = (.error (.preparation script e), after) := by
  unfold runScript
  rw [runContext] at refused
  dsimp only
  rw [refused]

theorem runScript_of_acquired {invocation : Invocation}
    (acquires : h.newResults.2.acquire id (h.runContext script options output) =
      (.ok invocation, after)) :
    let ran := after.runInvocation invocation
    let released := ran.2.release invocation
    (h.runScript id script options output).2 = released.2 ∧
      (h.runScript id script options output).1 =
        match ran.1, released.1 with
        | .error e, _ => .error (.script script e)
        | .ok _, .error e => .error (.release e)
        | .ok _, .ok _ =>
          .ok (if options.printResults then released.2.resultsLine h.newResults.1 else "") := by
  unfold runScript
  rw [runContext] at acquires
  dsimp only
  rw [acquires]
  dsimp only
  generalize after.runInvocation invocation = ran
  obtain ⟨outcome, middle⟩ := ran
  generalize middle.release invocation = released
  obtain ⟨releasing, last⟩ := released
  cases outcome with
  | error e => exact ⟨rfl, rfl⟩
  | ok _ => cases releasing <;> exact ⟨rfl, rfl⟩

/-- A run fails with its first step that fails. What there is to print about its results is written
exactly if no step fails and printing was asked for. -/
structure Reports (h : Host) (id : ManagerId) (script : Path) (options : RunOptions)
    (output : Stream) : Prop where
  unprepared : ∀ {e after},
    h.newResults.2.acquire id (h.runContext script options output) = (.error e, after) →
      (h.runScript id script options output).1 = .error (.preparation script e)
  failed : ∀ {invocation acquired e ran},
    h.newResults.2.acquire id (h.runContext script options output) = (.ok invocation, acquired) →
      acquired.runInvocation invocation = (.error e, ran) →
        (h.runScript id script options output).1 = .error (.script script e)
  unreleased : ∀ {invocation acquired ran e},
    h.newResults.2.acquire id (h.runContext script options output) = (.ok invocation, acquired) →
      acquired.runInvocation invocation = (.ok (), ran) → (ran.release invocation).1 = .error e →
        (h.runScript id script options output).1 = .error (.release e)
  results : ∀ text, (h.runScript id script options output).1 = .ok text ∧ text ≠ "" ↔
    options.printResults = true ∧ ∃ invocation acquired ran released,
      h.newResults.2.acquire id (h.runContext script options output) = (.ok invocation, acquired) ∧
        acquired.runInvocation invocation = (.ok (), ran) ∧
        ran.release invocation = (.ok (), released) ∧ text = released.resultsLine h.newResults.1

theorem resultsLine_ne_empty (h : Host) (results : ResultsId) : h.resultsLine results ≠ "" := by
  intro empty
  have ends := congrArg String.toList empty
  simp [resultsLine] at ends

theorem reports (h : Host) (id : ManagerId) (script : Path) (options : RunOptions)
    (output : Stream) : Reports h id script options output where
  unprepared refused := congrArg Prod.fst (runScript_of_refused refused)
  failed acquires fails := by
    rw [(runScript_of_acquired acquires).2, fails]
  unreleased acquires runs fails := by
    rw [(runScript_of_acquired acquires).2, runs]
    dsimp only
    rw [fails]
  results text := by
    constructor
    · rintro ⟨yields, visible⟩
      cases acquires : h.newResults.2.acquire id (h.runContext script options output) with
      | mk result acquired =>
          cases result with
          | error e =>
              rw [runScript_of_refused acquires] at yields
              cases yields
          | ok invocation =>
              rw [(runScript_of_acquired acquires).2] at yields
              split at yields
              · cases yields
              · cases yields
              · rename_i runs releases
                cases printing : options.printResults with
                | false =>
                    rw [printing] at yields
                    exact absurd (Except.ok.inj yields).symm visible
                | true =>
                    rw [printing] at yields
                    exact ⟨rfl, invocation, acquired, _, _, rfl, Prod.ext runs rfl,
                      Prod.ext releases rfl, (Except.ok.inj yields).symm⟩
    · rintro ⟨printing, invocation, acquired, ran, released, acquires, runs, releases, rfl⟩
      rw [(runScript_of_acquired acquires).2, runs, printing]
      dsimp only
      rw [releases]
      exact ⟨rfl, resultsLine_ne_empty _ _⟩

/-! ## Ordinary runs -/

/-- A script, and whatever runs before it to prepare an engine for it, uses the globals in the
ordinary way. -/
structure OrdinaryRun (h : Host) (id : ManagerId) (script : Path) (options : RunOptions)
    (output : Stream) : Prop where
  acquire : h.newResults.2.OrdinaryAcquire id (h.runContext script options output)
  script : ∀ {invocation acquired},
    h.newResults.2.acquire id (h.runContext script options output) = (.ok invocation, acquired) →
      acquired.OrdinaryFile invocation.engine invocation.context.scriptPath

/-- No raw global of an engine has the name of a binding if the globals have no metatable. If they
have that of the host, none can get one. -/
def Unnamed (h : Host) (engine : EngineId) : Prop :=
  ((h.heap engine).table (h.heap engine).globals).metatable? = none → Unshadowed (h.heap engine)

theorem Sealed.unshadowed (sealed : Sealed V engine h) (unnamed : h.Unnamed engine) :
    Unshadowed (h.heap engine) := by
  have linked := sealed.seals.link sealed.seals.tended
  rw [← sealed.seals.globals] at linked
  cases looked : V.lookup? with
  | none => exact unnamed (linked.trans looked)
  | some m => exact sealed.seals.unshadowed (by rw [looked]; exact Option.some_ne_none m)

theorem Unwinds.absent (unwinds : Unwinds V W engine h after)
    (none : V.front? (h.heap engine) = none) (now : Unshadowed (after.heap engine))
    (binding : Binding) :
    ∃ v, (after.binding engine binding).1 = .ok v ∧ v.isAbsent = true := by
  refine ⟨W.seen (after.heap engine) binding.name, ?_, ?_⟩
  · rw [Host.binding, unwinds.sealed.global]
  · rw [Vault.seen, now binding]
    cases front : W.front? (after.heap engine) with
    | none => rfl
    | some scope =>
        rcases unwinds.closes.front with same | ⟨_, isBlank⟩
        · rw [front, none] at same
          cases same
        · have null : (after.heap engine).rawGetText scope binding.name = .null :=
            isBlank scope front binding
          simp [null, Value.isAbsent, Value.isNil]

theorem Makes.sealed (makes : Makes h selected)
    (held : ∀ engine : EngineId, engine.index < h.engines.size → ∃ V, Sealed V engine h)
    (present : engine.index < selected.engines.size) : ∃ V, Sealed V engine selected := by
  rcases Nat.lt_or_ge engine.index h.engines.size with old | missing
  · obtain ⟨V, sealed⟩ := held engine old
    exact ⟨V, (Bides.ofStore sealed makes.grows.size
      (congrArg Engine.store (makes.grows.engine engine old))).sealed⟩
  · obtain ⟨V, sealed, _⟩ := makes.bare engine missing present
    exact ⟨V, sealed⟩

theorem execFile_worksOn (h : Host) (engine : EngineId) (path : Path) :
    WorksOn engine h (h.execFile engine path).2 := by
  cases found : h.files.read path with
  | error fault =>
      rw [execFile_of_error found]
      exact ⟨rfl, fun _ _ => rfl, rfl⟩
  | ok text =>
      rw [execFile_of_ok found]
      exact (runsOn_exec h engine _ _).worksOn

/-- When an engine is ready, the script may end or fail: then the release leaves the engine as it
was. -/
theorem Prepared.run {context : Context} {invocation : Invocation}
    (prepared : Prepared V W engine context selected after invocation)
    (ordinary : after.OrdinaryFile invocation.engine invocation.context.scriptPath) :
    ∃ X, Retraces V X engine selected
      ((after.runInvocation invocation).2.release invocation).2 := by
  have there := prepared.place
  subst there
  obtain ⟨X, runs⟩ := prepared.sealed.execFile ordinary
  exact (prepared.bides runs (execFile_worksOn after _ _)).release

/-- Where an engine has been selected, the run of a script leaves it as it was. -/
theorem Sealed.runScript {cached : Bool} (sealed : Sealed V engine selected)
    (ordinary : h.OrdinaryRun id script options output)
    (selects : h.newResults.2.selectEngine id (h.runContext script options output).policy
      (h.runContext script options output).cacheKey = (.ok (engine, cached), selected)) :
    ∃ W, Retraces V W engine selected (h.runScript id script options output).2 := by
  rcases sealed.acquire ordinary.acquire selects with
    ⟨e, W, refused, retraces⟩ | ⟨invocation, W, given, prepared⟩
  · rw [runScript_of_refused (Prod.ext refused rfl)]
    exact ⟨W, retraces⟩
  · have acquires : h.newResults.2.acquire id (h.runContext script options output) =
        (.ok invocation, _) := Prod.ext given rfl
    rw [(runScript_of_acquired acquires).1]
    exact prepared.run (ordinary.script acquires)

end Host

end ScriptHost
