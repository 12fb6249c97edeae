import ScriptHost.Proofs.CacheEffects
import ScriptHost.ScriptRun

/-!
# The order of search paths

The search paths of an invocation begin with those of its context. Those of the manager follow in
their order, but for the ones that are the same as a path before them.
-/

set_option autoImplicit false

namespace ScriptHost

namespace Path

variable {p q : Path}

theorem same_iff : p.same q = true ↔ p.components = q.components := by
  simp [same]

theorem any_same_congr (paths : List Path) (equal : p.components = q.components) :
    paths.any p.same = paths.any q.same := by
  have pointwise : p.same = q.same := by
    funext other
    rw [same, same, equal]
  rw [pointwise]

/-- The directory of a file: its parent, or the current directory if that is missing or empty. -/
def home (p : Path) : Path :=
  match p.parent? with
  | some parent => if parent.bytes = [] then .ofString "." else parent
  | none => .ofString "."

theorem getD_directory? (p : Path) : p.directory?.getD (.ofString ".") = p.home := by
  unfold directory? home
  cases p.parent? with
  | none => rfl
  | some parent =>
      by_cases empty : parent.bytes = []
      · simp [Option.filter, empty]
      · simp [Option.filter, empty]

end Path

namespace SearchPath

variable {listed before paths further : List Path}

/-- The paths that are not the same as an entry before them, be it of the other list or of their
own. -/
def unlisted (before paths : List Path) : List Path :=
  (paths.zipIdx.filter fun (path, i) => !(before ++ paths.take i).any path.same).map Prod.fst

theorem unlisted_cons (before : List Path) (path : Path) (rest : List Path) :
    unlisted before (path :: rest) =
      (if before.any path.same then [] else [path]) ++ unlisted (before ++ [path]) rest := by
  have later : (fun (p, i) => !(before ++ (path :: rest).take i).any (Path.same p)) ∘
      (fun (entry : Path × Nat) => (entry.1, entry.2 + 1)) =
        fun (p, i) => !(before ++ [path] ++ rest.take i).any (Path.same p) := by
    funext entry
    simp
  have shifted : ((rest.zipIdx 1).filter fun (p, i) =>
      !(before ++ (path :: rest).take i).any (Path.same p)).map Prod.fst =
        unlisted (before ++ [path]) rest := by
    rw [List.zipIdx_succ, List.filter_map, List.map_map, later]
    rfl
  rw [unlisted, List.zipIdx_cons, List.filter_cons, ← shifted]
  by_cases listed : before.any path.same = true
  · simp [listed]
  · simp [listed]

/-- What is left out of the list that grows is the same as something in it, so the list tells as
much apart as all entries before do. -/
theorem foldl_eq_unlisted (covers : ∀ path : Path, listed.any path.same = before.any path.same) :
    further.foldl (fun acc path => if acc.any path.same then acc else acc ++ [path]) listed =
      listed ++ unlisted before further := by
  induction further generalizing listed before with
  | nil => simp [unlisted]
  | cons path rest ih =>
      rw [List.foldl_cons, unlisted_cons, covers path]
      by_cases known : before.any path.same = true
      · rw [if_pos known, if_pos known, List.nil_append]
        refine ih fun other => ?_
        rw [covers other, List.any_append, List.any_cons, List.any_nil, Bool.or_false]
        cases equal : other.same path with
        | false => rw [Bool.or_false]
        | true => rw [Path.any_same_congr before (Path.same_iff.mp equal), known, Bool.true_or]
      · rw [if_neg known, if_neg known, ih fun other => ?_, List.append_assoc]
        rw [List.any_append, List.any_append, covers other]

theorem extend_eq (paths further : List Path) :
    extend paths further = paths ++ unlisted paths further :=
  foldl_eq_unlisted fun _ => rfl

/-- Every path that is left out is the same as one before it. -/
theorem exists_same_of_mem {path : Path} (member : path ∈ further) :
    ∃ other ∈ before ++ unlisted before further, path.same other = true := by
  induction further generalizing before with
  | nil => cases member
  | cons first rest ih =>
      rw [unlisted_cons]
      rcases List.mem_cons.mp member with rfl | later
      · by_cases known : before.any path.same = true
        · obtain ⟨other, there, equal⟩ := List.any_eq_true.mp known
          exact ⟨other, List.mem_append_left _ there, equal⟩
        · rw [if_neg known]
          exact ⟨path, by simp, Path.same_iff.mpr rfl⟩
      · have among : ∃ other ∈ before ++ [first] ++ unlisted (before ++ [first]) rest,
            path.same other = true := ih later
        obtain ⟨other, there, equal⟩ := among
        by_cases known : before.any first.same = true
        · rw [if_pos known, List.nil_append]
          rcases List.mem_append.mp there with old | new
          · rcases List.mem_append.mp old with given | isFirst
            · exact ⟨other, List.mem_append_left _ given, equal⟩
            · -- The first path is left out for one that is the same.
              obtain rfl := List.mem_singleton.mp isFirst
              obtain ⟨earlier, given, alike⟩ := List.any_eq_true.mp known
              refine ⟨earlier, List.mem_append_left _ given, Path.same_iff.mpr ?_⟩
              rw [Path.same_iff.mp equal, Path.same_iff.mp alike]
          · exact ⟨other, List.mem_append_right _ new, equal⟩
        · rw [if_neg known, ← List.append_assoc]
          exact ⟨other, there, equal⟩

/-- What is added differs from everything before it. -/
theorem pairwise_unlisted (before further : List Path) :
    (unlisted before further).Pairwise fun p q => p.same q = false := by
  suffices all : (∀ p ∈ unlisted before further, ∀ q ∈ before, q.same p = false) ∧
      (unlisted before further).Pairwise fun p q => p.same q = false from all.2
  induction further generalizing before with
  | nil => simp [unlisted]
  | cons path rest ih =>
      obtain ⟨fresh, apart⟩ := ih (before ++ [path])
      rw [unlisted_cons]
      have others : ∀ p ∈ unlisted (before ++ [path]) rest, ∀ q ∈ before, q.same p = false :=
        fun p member q given => fresh p member q (List.mem_append_left _ given)
      by_cases known : before.any path.same = true
      · rw [if_pos known, List.nil_append]
        exact ⟨others, apart⟩
      · rw [if_neg known, List.singleton_append]
        refine ⟨fun p member q given => ?_, List.pairwise_cons.mpr ⟨fun p member => ?_, apart⟩⟩
        · rcases List.mem_cons.mp member with rfl | later
          · rw [Bool.eq_false_iff]
            intro equal
            refine known (List.any_eq_true.mpr ⟨q, given, Path.same_iff.mpr ?_⟩)
            exact (Path.same_iff.mp equal).symm
          · exact others p later q given
        · exact fresh p member path (by simp)

/-- Paths that are all listed add nothing. -/
theorem extend_of_listed (listed : ∀ path ∈ further, paths.any path.same = true) :
    extend paths further = paths := by
  unfold extend
  induction further with
  | nil => rfl
  | cons path rest ih =>
      rw [List.foldl_cons, if_pos (listed path List.mem_cons_self)]
      exact ih fun other member => listed other (List.mem_cons_of_mem _ member)

theorem extend_extend (paths further : List Path) :
    extend (extend paths further) further = extend paths further := by
  refine extend_of_listed fun path member => ?_
  rw [extend_eq]
  exact List.any_eq_true.mpr (exists_same_of_mem member)

end SearchPath

namespace Host

open Lua

variable {h middle after : Host} {engine : EngineId}

/-! ## Default paths -/

theorem defaultPaths_of_setup {m n : Manager} (same : m.setup = n.setup) :
    m.defaultPaths = n.defaultPaths := by
  have paths : m.setup.defaultPaths = n.setup.defaultPaths := congrArg Manager.defaultPaths same
  exact paths

theorem effectivePaths_of_setup
    (same : ∀ index : Nat,
      after.managers[index]?.map Manager.setup = h.managers[index]?.map Manager.setup)
    (id : ManagerId) (context : Context) :
    after.effectivePaths id context = h.effectivePaths id context := by
  rw [effectivePaths, defaultPaths_of_setup (setup_manager same id), effectivePaths]

theorem effectivePaths_selectEngine (h : Host) (id other : ManagerId) (policy : Policy)
    (key : CacheKey) (context : Context) :
    (h.selectEngine id policy key).2.effectivePaths other context =
      h.effectivePaths other context := by
  have requested := effectivePaths_of_setup
    (serves_requestEngine h id (.ofPolicy policy)).managers other context
  cases policy with
  | reuse =>
      simp only [selectEngine]
      split
      · rfl
      · exact requested
  | refresh =>
      simp only [selectEngine]
      split
      · rename_i failed
        rwa [failed] at requested
      · rename_i made
        rwa [made] at requested
  | clean => exact requested
  | fullIsolation => exact requested

/-! ## Paths that are set -/

/-- On an engine that does not exist there is no library to assign anything in. -/
theorem present_of_setPackagePath {patterns : List UInt8}
    (assigned : (h.setPackagePath engine patterns).1 = .ok ()) :
    engine.index < h.engines.size := by
  rcases Nat.lt_or_ge engine.index h.engines.size with present | missing
  · exact present
  · have empty := heap_of_le missing
    have plain : ((h.heap engine).table (h.heap engine).globals).metatable? = none := by
      rw [empty]
      rfl
    have absent : (h.heap engine).rawGetText (h.heap engine).globals "package" = .nil := by
      rw [empty]
      rfl
    have settles : Evaluates setting 0 (1 + 0) (h.heap engine)
        (do return [← Operation.index {} none (.table (h.heap engine).globals) (.ofText "package")])
        (.ok [.nil]) (h.heap engine) :=
      (Evaluates.index_found ((lookUp_table_of_plain plain "package").trans
        (congrArg _ absent))).bind (Evaluates.pure _)
    have read : h.global engine "package" = (.ok .nil, h) := by
      rw [global, field, performOperation_of_evaluates settles (by decide) (by decide),
        modifyHeap_heap]
      rfl
    rw [setPackagePath, read] at assigned
    cases assigned

theorem searchPaths_of_setSearchPaths {paths : List Path}
    (sets : h.setSearchPaths engine paths = (.ok (), after)) :
    (after.engine engine).searchPaths = paths := by
  have runs := runsOn_setPackagePath h engine (SearchPath.render paths)
  have present := @present_of_setPackagePath h engine (SearchPath.render paths)
  obtain ⟨_, _, _, refused⟩ | ⟨_, middle, ⟨_, _, refused⟩ | ⟨assigned, done⟩⟩ :=
    h.setSearchPaths_cases engine paths
  · rw [refused] at sets
    cases sets
  · rw [refused] at sets
    cases sets
  · rw [assigned] at runs present
    rw [done] at sets
    cases sets
    rw [engine_modifyEngine_self (by rw [runs.size]; exact present rfl)]

/-- An invocation finds modules by the paths of its context and those of its manager. -/
theorem searchPaths_of_acquire {id : ManagerId} {context : Context} {invocation : Invocation}
    (acquires : h.acquire id context = (.ok invocation, after)) :
    (after.engine invocation.engine).searchPaths = h.effectivePaths id context := by
  obtain ⟨selected, injected, selects, enters, sets, _⟩ := steps_of_acquire acquires
  have chosen := effectivePaths_selectEngine h id id context.policy context.cacheKey context
  have attached := effectivePaths_of_setup
    (serves_attach selected invocation.engine context.output).managers id context
  have injects := effectivePaths_of_setup
    (serves_inject (selected.attach invocation.engine context.output).2 invocation.engine context
      invocation.cached (some id)).managers id context
  rw [selects] at chosen
  rw [enters] at injects
  rw [searchPaths_of_setSearchPaths sets, injects, attached, chosen]

/-- A script finds modules in its own directory first, then in the directories that it is run
with, in their order, and then in those configured ones that are not the same as one before. No
configured directory is missing, none is added twice, and adding them again changes nothing. -/
theorem search_paths_of_script {id : ManagerId} {script : Path} {options : RunOptions}
    {output : Stream} {results : ResultsId} {invocation : Invocation}
    (acquires : h.acquire id (.ofScript script options output results) = (.ok invocation, after)) :
    let given := script.home :: options.searchPaths
    let configured := (h.manager id).defaultPaths
    let added := SearchPath.unlisted given configured
    let paths := (after.engine invocation.engine).searchPaths
    paths = given ++ added ∧
      (∀ path ∈ configured, ∃ other ∈ paths, path.same other = true) ∧
      added.Pairwise (fun path other => path.same other = false) ∧
      SearchPath.extend paths configured = paths := by
  intro given configured added paths
  have own : (Context.ofScript script options output results).searchPaths = given :=
    congrArg (· :: options.searchPaths) (Path.getD_directory? script)
  have extended : paths = SearchPath.extend given configured := by
    rw [← own]
    exact searchPaths_of_acquire acquires
  have whole : paths = given ++ added := extended.trans (SearchPath.extend_eq given configured)
  refine ⟨whole, fun path member => ?_, SearchPath.pairwise_unlisted given configured, ?_⟩
  · rw [whole]
    exact SearchPath.exists_same_of_mem member
  · rw [extended]
    exact SearchPath.extend_extend given configured

/-- A host with a manager whose paths repeat one of a script, in another spelling, and each
other. -/
def pathHost : Host where
  caches := #[{}]
  managers := #[{
    cache := ⟨0⟩
    defaultPaths := ["lib/", "/opt/lua", "./lib", "/opt//lua/."].map Path.ofString }]
  writers := #[.buffer .empty]
  results := #[[]]
  files := default

/-- A script that is run with a path of its own. -/
def pathOptions : RunOptions := { searchPaths := [.ofString "lib", .ofString "lib"] }

theorem search_paths_of_script_repeated :
    ∃ invocation after, pathHost.acquire ⟨0⟩
        (.ofScript (.ofString "tool.lua") pathOptions ⟨"tool", ⟨0⟩⟩ ⟨0⟩) = (.ok invocation, after) ∧
      (after.engine invocation.engine).searchPaths =
        [".", "lib", "lib", "/opt/lua", "./lib"].map Path.ofString := by
  have succeeds : (pathHost.acquire ⟨0⟩ (.ofScript (.ofString "tool.lua") pathOptions
      ⟨"tool", ⟨0⟩⟩ ⟨0⟩)).1.toOption.isSome = true := by decide +kernel
  cases acquires : pathHost.acquire ⟨0⟩
      (.ofScript (.ofString "tool.lua") pathOptions ⟨"tool", ⟨0⟩⟩ ⟨0⟩) with
  | mk result after =>
      rw [acquires] at succeeds
      cases result with
      | error e => cases succeeds
      | ok invocation =>
          refine ⟨invocation, after, rfl, ?_⟩
          rw [(search_paths_of_script acquires).1]
          decide +kernel

end Host

end ScriptHost
