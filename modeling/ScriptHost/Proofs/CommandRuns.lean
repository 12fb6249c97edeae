import Mathlib.Data.List.Chain
import ScriptHost.CommandLine
import ScriptHost.Proofs.CarriedGlobals
import ScriptHost.Proofs.SingleLines
import ScriptHost.Proofs.Transcripts

/-!
# Scripts of a call

A call runs its scripts in their order, each from what the one before has left, until one fails.
What it prints is what scripts print and the lines about their results. What scripts find in the
globals depends on the policy: what the script before has left there, or nothing of other scripts.
All this is about scripts without finalizers (`__gc`), which a collection does not run here, and which
ask nothing of the machine, such as the time or its files.
-/

set_option autoImplicit false

namespace ScriptHost.CommandLine

open Lua Host Scope

/-- The run of one script of a call, from the host before it. -/
structure Turn where
  manager : ManagerId
  options : RunOptions
  script : Path
  before : Host

namespace Turn

section

variable (turn : Turn)

def output : Stream := turn.before.newStandardStream.1

def opened : Host := turn.before.newStandardStream.2

def ran : Except RunError String × Host :=
  turn.opened.runScript turn.manager turn.script turn.options turn.output

def succeeds : Bool := turn.ran.1.toOption.isSome

/-- The line about the results; nothing if the script fails. -/
def line : String := turn.ran.1.toOption.getD ""

def after : Host := { turn.ran.2 with console := turn.ran.2.console ++ turn.line }

/-- What scripts ask the host for. -/
def requests : List Request :=
  turn.opened.runRequests turn.manager turn.script turn.options turn.output

def results : ResultsId := turn.opened.newResults.1

def context : Context := turn.opened.runContext turn.script turn.options turn.output

/-- The attempt to get an engine ready for the script. -/
def prepared : Except EngineError Invocation × Host :=
  turn.opened.newResults.2.acquire turn.manager turn.context

end

/-- If the script succeeds and the line was asked for, there is one, about the results that were
reported to the container of the run. -/
structure Shows (turn : Turn) : Prop where
  silent : turn.succeeds = false ∨ turn.options.printResults = false → turn.line = ""
  results : turn.succeeds = true → turn.options.printResults = true →
    ∃ entries, turn.line = (Json.obj entries).compress ++ "\n" ∧
      Json.SingleLine (Json.obj entries).compress ∧ Ordered.Ascending entries ∧
      ∀ key, Ordered.find? key entries = ResultsChange.standing? turn.results key
        (turn.requests.filterMap Request.change?) none

/-- The next script runs on the same engine, and every global is there as this one has left it. -/
def Carries (turn next : Turn) : Prop :=
  ∀ ⦃invocation ready follower start⦄, turn.prepared = (.ok invocation, ready) →
    next.prepared = (.ok follower, start) →
    let left := (ready.runInvocation invocation).2
    PathApart (left.heap invocation.engine) → follower.engine = invocation.engine ∧
      ∀ k, start.rawGlobal follower.engine k = left.rawGlobal invocation.engine k ∧
        ∀ key, key.key? = some k → (left.rawGlobal invocation.engine k).isNil = false →
          start.readGlobal follower.engine key = (.ok (left.rawGlobal invocation.engine k), start)

/-- The script runs on an engine of its own, and finds no global but those of a new engine. -/
def StartsAnew (turn : Turn) : Prop :=
  ∀ ⦃invocation ready⦄, turn.prepared = (.ok invocation, ready) →
    turn.before.engines.size ≤ invocation.engine.index ∧ Pristine invocation.engine ready

end Turn

/-- The turns of scripts until one fails. -/
def turns (manager : ManagerId) (options : RunOptions) (h : Host) : List Path → List Turn
  | [] => []
  | script :: scripts =>
    let turn : Turn := { manager, options, script, before := h }
    if turn.succeeds then turn :: turns manager options turn.after scripts else [turn]

/-- What a call comes to, by the turns of its scripts. -/
structure Session (manager : ManagerId) (options : RunOptions) (start : Host) (scripts : List Path)
    (turns : List Turn) (outcome : Outcome) : Prop where
  own : ∀ turn ∈ turns, turn.manager = manager ∧ turn.options = options
  first : ∀ turn ∈ turns.head?, turn.before = start
  inOrder : turns.IsChain fun turn next => turn.succeeds = true ∧ next.before = turn.after
  started : turns.map Turn.script <+: scripts
  exit : outcome.exit = 0 ∧ turns.map Turn.script = scripts ∧
      (∀ turn ∈ turns, turn.succeeds = true) ∨
    outcome.exit = 1 ∧ ∃ last ∈ turns.getLast?, last.succeeds = false
  output : outcome.output =
    String.join (turns.map fun turn => printed turn.requests ++ turn.line)
  shows : ∀ turn ∈ turns, turn.Shows
  /-- If engines are reused, the globals go from script to script. -/
  carries : options.policy = .reuse → turns.IsChain fun turn next =>
    (∀ id?, Request.clearEngines id? ∉ turn.requests) → turn.Carries next
  startsAnew : ∀ turn ∈ turns,
    options.policy ≠ .reuse ∨ turns.head? = some turn → turn.StartsAnew

/-! ## Single turns -/

/-- What a turn starts from. An engine that is kept for reuse is intact, whatever scripts did. -/
structure Settled (manager : ManagerId) (options : RunOptions) (h : Host) : Prop where
  stocked : Stocked h
  bare : (h.manager manager).factory.initializers = []
  cache : (h.manager manager).cache.index < h.caches.size
  intact : options.policy = .reuse → ∀ engine,
    (h.cacheOf manager).get? ⟨options.package⟩ = some engine → Intact engine h

namespace Turn

variable {turn next : Turn} {invocation : Invocation} {ready : Host}

/-- A turn is settled if the host before it is. -/
abbrev Settled (turn : Turn) : Prop := CommandLine.Settled turn.manager turn.options turn.before

theorem exists_of_succeeds (succeeds : turn.succeeds = true) :
    ∃ invocation ready, turn.prepared = (.ok invocation, ready) ∧
      turn.ran.2 = ((ready.runInvocation invocation).2.release invocation).2 ∧
      turn.line =
        if turn.options.printResults then turn.ran.2.resultsLine turn.results else "" := by
  obtain ⟨text, yields⟩ := Option.isSome_iff_exists.mp succeeds
  have line : turn.line = text := by rw [Turn.line, yields, Option.getD_some]
  have yields := eq_ok_of_toOption yields
  cases prepares : turn.prepared with
  | mk result ready =>
      cases result with
      | error e =>
          rw [ran, runScript_of_refused prepares] at yields
          cases yields
      | ok invocation =>
          obtain ⟨reached, outcome⟩ := runScript_of_acquired prepares
          refine ⟨invocation, ready, rfl, reached, ?_⟩
          rw [line]
          rw [ran, outcome] at yields
          split at yields
          · cases yields
          · cases yields
          · rw [← Except.ok.inj yields, ran, reached]
            rfl

theorem tells (settled : turn.Settled) :
    Tells turn.requests turn.opened.newResults.2 turn.ran.2 := by
  refine tells_runScript (h := turn.opened) settled.stocked settled.bare ?_ ?_
  · simp [output, opened, newStandardStream, newStream]
  · simp [output, opened, newStandardStream, newStream, Host.writer]

theorem console_after (settled : turn.Settled) :
    turn.after.console = turn.before.console ++ (printed turn.requests ++ turn.line) := by
  rw [after, (tells settled).console, String.append_assoc]
  rfl

theorem line_of_fails (fails : turn.succeeds = false) : turn.line = "" := by
  rw [succeeds, Option.isSome_eq_false_iff, Option.isNone_iff_eq_none] at fails
  rw [line, fails, Option.getD_none]

theorem shows (settled : turn.Settled) : turn.Shows where
  silent none := by
    cases ended : turn.succeeds with
    | false => exact line_of_fails ended
    | true =>
        rcases none with fails | unasked
        · rw [fails] at ended
          cases ended
        · obtain ⟨_, _, _, _, line⟩ := exists_of_succeeds ended
          rw [line, unasked]
          rfl
  results ended asked := by
    obtain ⟨_, _, _, _, line⟩ := exists_of_succeeds ended
    have history := (tells settled).reported
    have new : turn.opened.newResults.2.resultsOf turn.results = [] := by
      simp [results, Host.newResults, Host.resultsOf]
    have there : turn.results.index < turn.opened.newResults.2.results.size := by
      simp [results, Host.newResults]
    have ordered : Ordered.Ascending (turn.opened.newResults.2.resultsOf turn.results) := by
      rw [new]
      exact .nil
    refine ⟨turn.ran.2.resultsOf turn.results, ?_, Json.singleLine_compress _,
      history.ascending there ordered, fun key => ?_⟩
    · rw [line, asked]
      rfl
    · have standing := history.result? there ordered key
      rw [Host.result?, Host.result?, new] at standing
      exact standing

/-! ### Engines -/

theorem exists_selected (prepares : turn.prepared = (.ok invocation, ready)) :
    ∃ selected, turn.opened.newResults.2.selectEngine turn.manager turn.context.policy
      turn.context.cacheKey = (.ok (invocation.engine, invocation.cached), selected) :=
  exists_of_acquire prepares

section

variable {selected : Host} (settled : turn.Settled)
  (prepares : turn.prepared = (.ok invocation, ready))
  (selects : turn.opened.newResults.2.selectEngine turn.manager turn.context.policy
    turn.context.cacheKey = (.ok (invocation.engine, invocation.cached), selected))

include prepares selects

theorem serves_ran : Serves turn.requests selected
    ((ready.runInvocation invocation).2.release invocation).2 ∧
    ((ready.runInvocation invocation).2.release invocation).2.engines.size =
      selected.engines.size := by
  obtain ⟨size, acquires⟩ := serves_acquire selects
  have requests : turn.requests =
      turn.opened.newResults.2.setupRequests turn.manager turn.context ++
        ready.execFileRequests invocation.engine invocation.context.scriptPath := by
    unfold Turn.requests runRequests
    dsimp only
    rw [show turn.opened.newResults.2.acquire turn.manager (turn.opened.runContext turn.script
      turn.options turn.output) = (.ok invocation, ready) from prepares]
    rfl
  rw [show turn.opened.newResults.2.acquire turn.manager turn.context = (.ok invocation, ready) from
    prepares] at size acquires
  have runs := ready.serves_execFile invocation.engine invocation.context.scriptPath
  have works := execFile_worksOn ready invocation.engine invocation.context.scriptPath
  rw [requests]
  refine ⟨(acquires.trans runs).quiet (serves_release _ invocation), ?_⟩
  rw [size_engines_release]
  exact works.size.trans size

/-- With engines reused, the engine of the script stays in the cache unless a script empties it. -/
theorem get?_ran (reuse : turn.options.policy = .reuse)
    (cache : (turn.before.manager turn.manager).cache.index < turn.before.caches.size) :
    (((ready.runInvocation invocation).2.release invocation).2.cacheOf turn.manager).get?
        ⟨turn.options.package⟩ =
      if (selected.manager turn.manager).cache ∈ selected.cleared turn.requests then none
      else some invocation.engine := by
  obtain ⟨served, _⟩ := serves_ran prepares selects
  rw [show turn.context.policy = .reuse from reuse] at selects
  have chosen := get?_of_reuse (h := turn.opened.newResults.2) cache selects
  have entries := served.entries (selected.manager turn.manager).cache
  rw [cacheOf, cache_of_setup (setup_manager served.managers turn.manager)]
  split at entries
  · rename_i cleared
    rw [if_pos cleared, EngineCache.get?_of_nil entries]
  · rename_i kept
    rw [if_neg kept, EngineCache.get?_of_entries entries]
    exact chosen

include settled

theorem hosted : Hosted invocation ready := by
  have chosen : Intact invocation.engine selected := by
    rcases cached_or_new (h := turn.opened.newResults.2) settled.cache settled.bare selects with
      ⟨reuse, found, rfl⟩ | ⟨_, _, _, intact⟩
    · have intact := settled.intact reuse _ found
      exact ⟨intact.present, intact.whole, intact.marker⟩
    · exact intact
  exact (hosted_of_acquire selects chosen prepares).2.1

end

theorem settled_after (settled : turn.Settled) (ended : turn.succeeds = true) :
    CommandLine.Settled turn.manager turn.options turn.after := by
  obtain ⟨invocation, ready, prepares, reached, _⟩ := exists_of_succeeds ended
  obtain ⟨selected, selects⟩ := exists_selected prepares
  obtain ⟨served, size⟩ := serves_ran prepares selects
  have ready := hosted settled prepares selects
  have left := (ready.maintains ready.runInvocation).release
  have stocked : Stocked selected := by
    have chosen := (stocked_selectEngine (h := turn.opened.newResults.2) settled.stocked
      turn.manager turn.context.policy turn.context.cacheKey).1
    rwa [selects] at chosen
  obtain ⟨setup, caches⟩ := setup_selectEngine (h := turn.opened.newResults.2)
    turn.context.policy turn.context.cacheKey settled.cache
  rw [selects] at setup caches
  have kept := (setup_manager served.managers turn.manager).trans setup
  have whole : CommandLine.Settled turn.manager turn.options turn.ran.2 := by
    rw [reached]
    refine ⟨stocked.serves served (Nat.le_of_eq size.symm), ?_, ?_, fun reuse engine found => ?_⟩
    · rw [factory_of_setup kept]
      exact settled.bare
    · rw [cache_of_setup kept, served.caches, caches]
      exact settled.cache
    · rw [get?_ran prepares selects reuse settled.cache] at found
      split at found
      · cases found
      · exact Option.some.inj found ▸ left.intact
  exact ⟨whole.stocked, whole.bare, whole.cache, fun reuse engine found =>
    have intact := whole.intact reuse engine found
    ⟨intact.present, intact.whole, intact.marker⟩⟩

/-! ### Globals -/

theorem cleared_of_spared {h : Host} {requests : List Request}
    (spared : ∀ id?, Request.clearEngines id? ∉ requests) : h.cleared requests = [] := by
  rw [cleared, List.filterMap_eq_nil_iff]
  intro request member
  cases request with
  | clearEngines id? => exact absurd member (spared id?)
  | _ => rfl

theorem startsAnew (settled : turn.Settled) (new : turn.options.policy = .reuse →
    (turn.before.cacheOf turn.manager).get? ⟨turn.options.package⟩ = none) : turn.StartsAnew := by
  intro invocation ready prepares
  obtain ⟨selected, selects⟩ := exists_selected prepares
  rcases cached_or_new (h := turn.opened.newResults.2) settled.cache settled.bare selects with
    ⟨reuse, found, _⟩ | ⟨_, size, unused, _⟩
  · have missing := new reuse
    rw [show turn.before.cacheOf turn.manager =
      turn.opened.newResults.2.cacheOf turn.manager from rfl] at missing
    exact absurd (missing.symm.trans found) (by simp)
  · exact ⟨size, pristine_of_acquire unused selects prepares⟩

/-- Under reuse, the next turn is on the same engine, on which nothing has happened in between. -/
theorem carries (settled : turn.Settled) (reuse : turn.options.policy = .reuse)
    (spared : ∀ id?, Request.clearEngines id? ∉ turn.requests) (script : Path) :
    turn.Carries { turn with script, before := turn.after } := by
  generalize following : ({ turn with script, before := turn.after } : Turn) = next
  intro invocation ready follower start prepares prepared left apart
  obtain ⟨selected, selects⟩ := exists_selected prepares
  have cached := get?_ran prepares selects reuse settled.cache
  rw [cleared_of_spared spared, if_neg List.not_mem_nil] at cached
  have hosted := hosted settled prepares selects
  have reached : turn.ran.2 = (left.release invocation).2 := (runScript_of_acquired prepares).1
  have before : next.opened.newResults.2.engines = (left.release invocation).2.engines := by
    rw [← following, ← reached]
    rfl
  have chosen : next.opened.newResults.2.selectEngine next.manager next.context.policy
      next.context.cacheKey = (.ok (invocation.engine, true), next.opened.newResults.2) := by
    rw [← reached] at cached
    subst following
    rw [show ({ turn with script, before := turn.after } : Turn).context.policy = .reuse from reuse]
    exact selectEngine_of_found cached
  obtain ⟨again, same⟩ := exists_selected prepared
  rw [chosen] at same
  obtain ⟨place, _⟩ := Prod.mk.inj (Except.ok.inj (Prod.mk.inj same).1)
  have between : next.opened.newResults.2.engine invocation.engine =
      (left.release invocation).2.engine invocation.engine := by
    rw [Host.engine, before, Host.engine]
  have entries := rawGlobal_of_release (hosted.maintains hosted.runInvocation) apart between
    (Nat.le_of_eq (congrArg Array.size before.symm)) chosen prepared
  rw [← place]
  refine ⟨rfl, fun k => ⟨entries k, fun key isKey value => ?_⟩⟩
  rw [← entries k] at value ⊢
  exact readGlobal_of_value isKey value

end Turn

/-! ## Calls -/

section

variable {manager : ManagerId} {options : RunOptions} {h : Host} {scripts : List Path}

theorem turns_cons (turn : Turn) (scripts : List Path) :
    turns turn.manager turn.options turn.before (turn.script :: scripts) =
      turn :: if turn.succeeds = true then turns turn.manager turn.options turn.after scripts
        else [] := by
  rw [turns]
  split <;> rfl

theorem exists_turn (manager : ManagerId) (options : RunOptions) (script : Path) (h : Host) :
    ∃ turn : Turn, turn.manager = manager ∧ turn.options = options ∧ turn.script = script ∧
      turn.before = h :=
  ⟨⟨manager, options, script, h⟩, rfl, rfl, rfl, rfl⟩

theorem head?_turns : ∀ turn ∈ (turns manager options h scripts).head?,
    turn = ⟨manager, options, turn.script, h⟩ := by
  cases scripts with
  | nil => simp [turns]
  | cons script scripts =>
      obtain ⟨turn, rfl, rfl, rfl, rfl⟩ := exists_turn manager options script h
      rw [turns_cons]
      rintro _ ⟨⟩
      rfl

/-- Each turn starts from what the one before has left. -/
theorem inOrder_turns (manager : ManagerId) (options : RunOptions) (h : Host)
    (scripts : List Path) : (turns manager options h scripts).IsChain fun turn next =>
    turn.succeeds = true ∧ next = { turn with script := next.script, before := turn.after } := by
  induction scripts generalizing h with
  | nil => exact .nil
  | cons script scripts ih =>
      obtain ⟨turn, rfl, rfl, rfl, rfl⟩ := exists_turn manager options script h
      rw [turns_cons]
      split
      · rename_i ended
        exact (ih turn.after).cons fun next first => ⟨ended, head?_turns next first⟩
      · exact .singleton _

theorem settled_turns (scripts : List Path) (settled : Settled manager options h) :
    ∀ turn ∈ turns manager options h scripts,
      turn.manager = manager ∧ turn.options = options ∧ turn.Settled := by
  induction scripts generalizing h with
  | nil => simp [turns]
  | cons script scripts ih =>
      obtain ⟨turn, rfl, rfl, rfl, rfl⟩ := exists_turn manager options script h
      rw [turns_cons]
      refine List.forall_mem_cons.mpr ⟨⟨rfl, rfl, settled⟩, ?_⟩
      split
      · rename_i ended
        exact ih (Turn.settled_after settled ended)
      · simp

theorem runScripts_cons (turn : Turn) (scripts : List Path) :
    runScripts turn.before turn.manager turn.options (turn.script :: scripts) =
      match turn.ran with
      | (.error e, h) => (.error e, h)
      | (.ok line, h) =>
        runScripts { h with console := h.console ++ line } turn.manager turn.options scripts :=
  rfl

theorem runScripts_of_succeeds {turn : Turn} (ended : turn.succeeds = true) :
    runScripts turn.before turn.manager turn.options (turn.script :: scripts) =
      runScripts turn.after turn.manager turn.options scripts := by
  rw [runScripts_cons, Turn.after, Turn.line]
  unfold Turn.succeeds at ended
  generalize turn.ran = ran at ended ⊢
  obtain ⟨result, after⟩ := ran
  cases result with
  | error e => cases ended
  | ok line => rfl

theorem runScripts_of_fails {turn : Turn} (scripts : List Path)
    (fails : turn.succeeds = false) :
    ∃ e, runScripts turn.before turn.manager turn.options (turn.script :: scripts) =
      (.error e, turn.ran.2) := by
  rw [runScripts_cons]
  unfold Turn.succeeds at fails
  generalize turn.ran = ran at fails ⊢
  obtain ⟨result, after⟩ := ran
  cases result with
  | error e => exact ⟨e, rfl⟩
  | ok line => cases fails

/-- How the runs of scripts end, and what they print. -/
structure Ends (h : Host) (scripts : List Path) (turns : List Turn)
    (outcome : Except RunError Unit × Host) : Prop where
  console : outcome.2.console =
    h.console ++ String.join (turns.map fun turn => printed turn.requests ++ turn.line)
  started : turns.map Turn.script <+: scripts
  result : outcome.1 = .ok () ∧ turns.map Turn.script = scripts ∧
      (∀ turn ∈ turns, turn.succeeds = true) ∨
    (∃ e, outcome.1 = .error e) ∧ ∃ last ∈ turns.getLast?, last.succeeds = false

theorem ends_runScripts (scripts : List Path) (settled : Settled manager options h) :
    Ends h scripts (turns manager options h scripts) (runScripts h manager options scripts) := by
  induction scripts generalizing h with
  | nil => exact ⟨by simp [turns, runScripts], by simp [turns], .inl ⟨rfl, by simp [turns]⟩⟩
  | cons script scripts ih =>
      obtain ⟨turn, rfl, rfl, rfl, rfl⟩ := exists_turn manager options script h
      rw [turns_cons]
      cases ended : turn.succeeds with
      | true =>
          obtain ⟨console, started, result⟩ := ih (Turn.settled_after settled ended)
          rw [runScripts_of_succeeds ended, if_pos rfl]
          refine ⟨?_, List.cons_prefix_cons.mpr ⟨rfl, started⟩, result.imp ?_ ?_⟩
          · rw [console, Turn.console_after settled, List.map_cons, String.join_cons,
              String.append_assoc]
          · rintro ⟨ok, all, succeed⟩
            exact ⟨ok, by rw [List.map_cons, all], List.forall_mem_cons.mpr ⟨ended, succeed⟩⟩
          · rintro ⟨error, last, member, fails⟩
            exact ⟨error, last, List.mem_getLast?_cons member, fails⟩
      | false =>
          obtain ⟨e, failed⟩ := runScripts_of_fails scripts ended
          rw [failed, if_neg Bool.false_ne_true]
          refine ⟨?_, List.cons_prefix_cons.mpr ⟨rfl, List.nil_prefix⟩,
            .inr ⟨⟨e, rfl⟩, turn, rfl, ended⟩⟩
          rw [(Turn.tells settled).console, List.map_singleton, Turn.line_of_fails ended]
          simp only [String.join_cons, String.join_nil, String.append_empty]
          rfl

/-- If engines are reused, globals go from each script to the next. -/
theorem carries_turns (scripts : List Path) (settled : Settled manager options h)
    (reuse : options.policy = .reuse) :
    (turns manager options h scripts).IsChain fun turn next =>
      (∀ id?, Request.clearEngines id? ∉ turn.requests) → turn.Carries next := by
  refine (inOrder_turns manager options h scripts).imp_of_mem_imp ?_
  intro turn next member _ follows spared
  obtain ⟨_, rfl, here⟩ := settled_turns scripts settled turn member
  rw [follows.2]
  exact Turn.carries here reuse spared next.script

/-- Where no engine is cached before the first script, that one never gets one of others. -/
theorem startsAnew_turns (scripts : List Path) (settled : Settled manager options h)
    (uncached : ∀ key, (h.cacheOf manager).get? key = none) :
    ∀ turn ∈ turns manager options h scripts,
      options.policy ≠ .reuse ∨ (turns manager options h scripts).head? = some turn →
        turn.StartsAnew := by
  intro turn member new
  obtain ⟨rfl, rfl, here⟩ := settled_turns scripts settled turn member
  refine Turn.startsAnew here fun reuse => ?_
  rcases new with other | first
  · exact absurd reuse other
  · have before : turn.before = h := by rw [head?_turns turn first]
    rw [before]
    exact uncached _

end

/-- On a host with nothing but files, a new manager of a configuration is settled. -/
theorem settled_newManagerOfConfig (files : FileTree) (config : Config) (options : RunOptions) :
    let made := Host.newManagerOfConfig { files } config
    Settled made.1 options made.2 ∧ ∀ key, (made.2.cacheOf made.1).get? key = none := by
  have empty : ∀ cache key, (((Host.newManagerOfConfig { files } config).2.cache cache).get? key :
      Option EngineId) = none := by
    rintro ⟨_ | index⟩ key <;> rfl
  refine ⟨⟨fun cache key engine found => ?_, rfl, Nat.one_pos, fun _ engine found => ?_⟩,
    fun key => empty _ key⟩
  · rw [empty] at found
    cases found
  · rw [cacheOf, empty] at found
    cases found

/-- A call runs its scripts in their order through one manager, each from what the one before has
left, and up to the first that fails. -/
theorem call_runs_scripts_in_order {texts : List String} {files : FileTree}
    {environment : Config.Environment} {arguments : Arguments} {config : Config}
    (read : Arguments.read texts = .ok arguments)
    (resolved : configOf arguments files environment = .ok config) :
    let made := Host.newManagerOfConfig { files } config
    let options := optionsOf arguments config
    Session made.1 options made.2 arguments.scripts
      (turns made.1 options made.2 arguments.scripts) (run texts files environment) := by
  have called : run texts files environment = runWith arguments config files := by
    rw [run, read]
    dsimp only
    rw [resolved]
  have begins := settled_newManagerOfConfig files config (optionsOf arguments config)
  have silent : (Host.newManagerOfConfig { files } config).2.console = "" := rfl
  rw [called, runWith]
  generalize Host.newManagerOfConfig { files } config = made at begins silent ⊢
  obtain ⟨manager, start⟩ := made
  dsimp only at begins silent ⊢
  generalize optionsOf arguments config = options at begins ⊢
  obtain ⟨settled, uncached⟩ := begins
  have each := settled_turns arguments.scripts settled
  have ends := ends_runScripts arguments.scripts settled
  generalize runScripts start manager options arguments.scripts = outcome at ends ⊢
  obtain ⟨ending, last⟩ := outcome
  exact {
    own := fun turn member => ⟨(each turn member).1, (each turn member).2.1⟩
    first := fun turn first => by rw [head?_turns turn first]
    inOrder := (inOrder_turns manager options start arguments.scripts).imp
      fun turn next follows => ⟨follows.1, by rw [follows.2]⟩
    started := ends.started
    exit := by
      rcases ends.result with ⟨rfl, all, succeed⟩ | ⟨⟨e, rfl⟩, fails⟩
      · exact .inl ⟨rfl, all, succeed⟩
      · exact .inr ⟨rfl, fails⟩
    output := by
      have console := ends.console
      rw [silent, String.empty_append] at console
      cases ending <;> exact console
    shows := fun turn member => Turn.shows (each turn member).2.2
    carries := carries_turns arguments.scripts settled
    startsAnew := startsAnew_turns arguments.scripts settled uncached }

/-! ## Calls with two scripts -/

theorem ok_getD_of_isSome {ε α : Type} {result : Except ε α} {other : α}
    (succeeds : result.toOption.isSome = true) : result = .ok (result.toOption.getD other) := by
  obtain ⟨a, given⟩ := Option.isSome_iff_exists.mp succeeds
  rw [given, Option.getD_some]
  exact eq_ok_of_toOption given

/-- A float may be the same key as an integer, but hosts see its type. -/
theorem eq_integer_of_key? {v : Value} {n : Int64} (typed : v.hostTypeName = "integer")
    (isKey : v.key? = some (.integer n)) : v = .integer n := by
  cases v with
  | integer m => rw [Key.integer.inj (Option.some.inj isKey)]
  | _ => simp [Value.hostTypeName, Value.typeName] at typed

namespace Turn

/-- What the script of a turn runs as, if an engine could be got ready. -/
def invocation (turn : Turn) : Invocation := turn.prepared.1.toOption.getD default

/-- The host when the script has ended, before the release. -/
def left (turn : Turn) : Host := (turn.prepared.2.runInvocation turn.invocation).2

/-- Whether the script does not ask for a cache of engines to be emptied. -/
def sparesEngines (turn : Turn) : Bool :=
  turn.requests.all fun
    | .clearEngines _ => false
    | _ => true

theorem not_mem_of_sparesEngines {turn : Turn} (spares : turn.sparesEngines = true)
    (id? : Option ManagerId) : Request.clearEngines id? ∉ turn.requests :=
  fun member => Bool.false_ne_true (List.all_eq_true.mp spares _ member)

theorem prepared_of_isSome {turn : Turn} (ready : turn.prepared.1.toOption.isSome = true) :
    turn.prepared = (.ok turn.invocation, turn.prepared.2) := by
  exact Prod.ext (ok_getD_of_isSome ready) rfl

end Turn

def pairFiles (first second : String) : FileTree where
  entries := [([Utf8.bytes "a.lua"], .file first.toUTF8),
    ([Utf8.bytes "b.lua"], .file second.toUTF8)]
  workingDirectory := .ofString "/"

def pairTexts : List String := ["--print-results", "a.lua", "b.lua"]

def pairArguments : Arguments := (Arguments.read pairTexts).toOption.getD {}

def pairConfig (files : FileTree) : Config := (configOf pairArguments files {}).toOption.getD {}

def firstTurn (files : FileTree) : Turn :=
  let made := Host.newManagerOfConfig { files } (pairConfig files)
  ⟨made.1, optionsOf pairArguments (pairConfig files), .ofString "a.lua", made.2⟩

def secondTurn (files : FileTree) : Turn :=
  { firstTurn files with script := .ofString "b.lua", before := (firstTurn files).after }

theorem turns_pair {files : FileTree} (succeeds : (firstTurn files).succeeds = true)
    (again : (secondTurn files).succeeds = true) :
    turns (firstTurn files).manager (firstTurn files).options (firstTurn files).before
      [.ofString "a.lua", .ofString "b.lua"] = [firstTurn files, secondTurn files] := by
  have listed := turns_cons (firstTurn files) [.ofString "b.lua"]
  have last := turns_cons (secondTurn files) []
  rw [if_pos succeeds] at listed
  rw [if_pos again] at last
  exact listed.trans (congrArg _ last)

def countingFiles : FileTree :=
  pairFiles "count = 1 print('first')" "count = count + 1 __result__.n = count print(count)"

/-- The second script counts on from where the first one has stopped. -/
theorem call_runs_scripts_in_order_counting :
    run pairTexts countingFiles {} =
        { exit := 0, output := "first\n\x7b\x7d\n2\n\x7b\"n\":2\x7d\n" } ∧
      ∃ invocation start, (secondTurn countingFiles).prepared = (.ok invocation, start) ∧
        start.readGlobal invocation.engine (.ofText "count") = (.ok (.integer 1), start) := by
  have read : Arguments.read pairTexts = .ok pairArguments :=
    ok_getD_of_isSome (by decide +kernel)
  have resolved : configOf pairArguments countingFiles {} = .ok (pairConfig countingFiles) :=
    ok_getD_of_isSome (by decide +kernel)
  have session := call_runs_scripts_in_order read resolved
  obtain ⟨reuse, scripts, succeeds, again, readied, followed, spared, apart, typed, counted⟩ :
      (firstTurn countingFiles).options.policy = .reuse ∧
        pairArguments.scripts = [.ofString "a.lua", .ofString "b.lua"] ∧
        (firstTurn countingFiles).succeeds = true ∧ (secondTurn countingFiles).succeeds = true ∧
        (firstTurn countingFiles).prepared.1.toOption.isSome = true ∧
        (secondTurn countingFiles).prepared.1.toOption.isSome = true ∧
        (firstTurn countingFiles).sparesEngines = true ∧
        isPathApart ((firstTurn countingFiles).left.heap
          (firstTurn countingFiles).invocation.engine) = true ∧
        ((firstTurn countingFiles).left.rawGlobal (firstTurn countingFiles).invocation.engine
          (.ofText "count")).hostTypeName = "integer" ∧
        ((firstTurn countingFiles).left.rawGlobal (firstTurn countingFiles).invocation.engine
          (.ofText "count")).key? = some (.integer 1) := by decide +kernel
  have carried : (turns (firstTurn countingFiles).manager (firstTurn countingFiles).options
      (firstTurn countingFiles).before pairArguments.scripts).IsChain _ := session.carries reuse
  rw [scripts, turns_pair succeeds again] at carried
  have carries := List.isChain_pair.mp carried (Turn.not_mem_of_sparesEngines spared)
  obtain ⟨_, entries⟩ := carries (Turn.prepared_of_isSome readied)
    (Turn.prepared_of_isSome followed) (pathApart_of_isPathApart apart)
  obtain ⟨_, reads⟩ := entries (.ofText "count")
  have value : (firstTurn countingFiles).left.rawGlobal (firstTurn countingFiles).invocation.engine
      (.ofText "count") = .integer 1 := eq_integer_of_key? typed counted
  refine ⟨by decide +kernel, _, _, Turn.prepared_of_isSome followed, ?_⟩
  rw [← value]
  exact reads (.ofText "count") rfl (by rw [Turn.left] at value; rw [value]; rfl)

/-- After the first script, the package library is the table of the globals, so that `path` is a
global that the host assigns. -/
def tamperedFiles : FileTree := pairFiles "package = _G path = 5" "print(path)"

/-- On the same engine, the second script does not find the global that the first one has left. -/
theorem path_of_tampered_package_replaced :
    run pairTexts tamperedFiles {} =
        { exit := 0, output := "\x7b\x7d\n./?.lua;./?/init.lua\n\x7b\x7d\n" } ∧
      (firstTurn tamperedFiles).options.policy = .reuse ∧
      ∃ invocation ready follower start,
        (firstTurn tamperedFiles).prepared = (.ok invocation, ready) ∧
        (secondTurn tamperedFiles).prepared = (.ok follower, start) ∧
        follower.engine = invocation.engine ∧
        ((ready.runInvocation invocation).2.rawGlobal invocation.engine
          (.ofText "path")).typeName = "number" ∧
        (start.rawGlobal follower.engine (.ofText "path")).typeName = "string" := by
  obtain ⟨readied, followed, same, number, string⟩ :
      (firstTurn tamperedFiles).prepared.1.toOption.isSome = true ∧
        (secondTurn tamperedFiles).prepared.1.toOption.isSome = true ∧
        (secondTurn tamperedFiles).invocation.engine = (firstTurn tamperedFiles).invocation.engine ∧
        ((firstTurn tamperedFiles).left.rawGlobal (firstTurn tamperedFiles).invocation.engine
          (.ofText "path")).typeName = "number" ∧
        ((secondTurn tamperedFiles).prepared.2.rawGlobal
          (secondTurn tamperedFiles).invocation.engine (.ofText "path")).typeName = "string" := by
    decide +kernel
  exact ⟨by decide +kernel, by decide +kernel, _, _, _, _, Turn.prepared_of_isSome readied,
    Turn.prepared_of_isSome followed, same, number, string⟩

end ScriptHost.CommandLine
