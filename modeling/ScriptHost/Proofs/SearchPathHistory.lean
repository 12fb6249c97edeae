import ScriptHost.Proofs.EffectivePaths
import ScriptHost.Proofs.FreshEngines
import ScriptHost.Proofs.GlobalAssignment
import ScriptHost.Proofs.Injection

/-!
# Histories of search paths

The paths of an engine stand in two places: as a list in the engine, and as patterns in the package
library. Whatever calls have been made, and whichever of them have failed, both are those of the
last call that succeeded.
-/

set_option autoImplicit false

namespace ScriptHost

namespace SearchPath

variable {path : Path} {fault : SearchPathFault}

/-- What a path needs to stand in a list of patterns: it is a text that is not empty, with no
semicolon and no question mark in it. -/
structure Usable (path : Path) : Prop where
  text : ∃ s, path = .ofString s
  nonempty : path.bytes ≠ []
  semicolon : 59 ∉ path.bytes
  questionMark : 63 ∉ path.bytes

theorem isSome_text?_iff (path : Path) : path.text?.isSome = true ↔ ∃ s, path = .ofString s := by
  constructor
  · intro isText
    obtain ⟨s, decoded⟩ := Option.isSome_iff_exists.mp isText
    exact ⟨s, (Path.ofString_of_text? decoded).symm⟩
  · rintro ⟨s, rfl⟩
    rw [Path.text?_ofString]
    rfl

theorem any_isMetacharacter_iff (path : Path) :
    path.bytes.any isMetacharacter = true ↔ 59 ∈ path.bytes ∨ 63 ∈ path.bytes := by
  simp [isMetacharacter]
  grind

theorem fault?_eq_none_iff : fault? path = none ↔ Usable path := by
  have isText := isSome_text?_iff path
  have special := any_isMetacharacter_iff path
  unfold fault?
  constructor
  · intro none
    split at none
    · cases none
    · rename_i text
      split at none
      · cases none
      · rename_i nonempty
        split at none
        · cases none
        · rename_i ordinary
          rw [special] at ordinary
          exact ⟨isText.mp (by simpa [Option.isSome_iff_ne_none] using text),
            by simpa using nonempty, fun here => ordinary (.inl here),
            fun here => ordinary (.inr here)⟩
  · intro usable
    have text := isText.mpr usable.text
    rw [if_neg (by simpa [Option.isSome_iff_ne_none] using text),
      if_neg (by simpa using usable.nonempty), if_neg]
    rw [special]
    exact fun here => here.elim usable.semicolon usable.questionMark

theorem firstFault?_eq_none_iff {paths : List Path} :
    firstFault? paths = none ↔ ∀ path ∈ paths, Usable path := by
  induction paths with
  | nil => simp [firstFault?]
  | cons first rest ih =>
      rw [List.forall_mem_cons, ← fault?_eq_none_iff, ← ih, firstFault?]
      cases fault? first <;> simp

/-- The fault that is named is that of the first path which cannot be used. -/
theorem exists_of_firstFault? {paths : List Path} (found : firstFault? paths = some (path, fault)) :
    ∃ before rest, paths = before ++ path :: rest ∧ (∀ other ∈ before, Usable other) ∧
      fault? path = some fault := by
  induction paths with
  | nil => cases found
  | cons first rest ih =>
      rw [firstFault?] at found
      cases known : fault? first with
      | some _ =>
          rw [known] at found
          cases found
          exact ⟨[], rest, rfl, by simp, known⟩
      | none =>
          rw [known] at found
          obtain ⟨before, rest, rfl, usable, named⟩ := ih found
          exact ⟨first :: before, rest, rfl,
            List.forall_mem_cons.mpr ⟨fault?_eq_none_iff.mp known, usable⟩, named⟩

end SearchPath

namespace Scope

open Lua Heap

variable {h : Heap}

theorem exists_packagePath_of_hasPath (path : hasPath h = true) :
    ∃ s, packagePath h = .string s := by
  cases library : h.rawGetText h.globals "package" with
  | table p =>
      rw [packagePath, library]
      simp only [hasPath, library, Bool.and_eq_true] at path
      cases text : h.rawGetText p "path" with
      | string s => exact ⟨s, text⟩
      | _ => simp [text] at path
  | _ => simp [hasPath, library] at path

theorem exists_packagePath_freshHeap (limit? : Option Nat) :
    ∃ s, packagePath (Library.freshHeap limit?) = .string s := by
  have whole : hasPath Library.wholeHeap = true := by decide +kernel
  unfold Library.freshHeap
  generalize Library.wholeHeap = h at whole ⊢
  exact exists_packagePath_of_hasPath (h := { h with limit? }) whole

/-- On an engine that no script has run on, the package library has patterns in it. -/
theorem Unused.exists_packagePath (unused : Unused h) : ∃ s, packagePath h = .string s := by
  obtain ⟨id, options, rfl⟩ := unused.exists_install
  obtain ⟨s, text⟩ := exists_packagePath_freshHeap options.heapLimit?
  have kept := (ready_freshHeap options.heapLimit?).orderly.packagePath_keep
    (steady_install id options (Library.freshHeap options.heapLimit?)).toKeeps
    fun t name member => not_helperFields (by
      rw [List.mem_cons, List.mem_singleton] at member
      rcases member with rfl | rfl <;> decide) t
  rw [text] at kept
  generalize Engine.install id options (Library.freshHeap options.heapLimit?) = h at kept ⊢
  exact ⟨s, kept⟩

end Scope

namespace Host

open Lua Scope

variable {h : Host} {engine : EngineId} {patterns : ByteArray}

theorem unused_of_toOption {options : EngineOptions}
    (made : (h.newEngine options).1.toOption = some engine) :
    Unused ((h.newEngine options).2.heap engine) := by
  cases done : h.newEngine options with
  | mk result after =>
      rw [done] at made
      cases result with
      | error e => cases made
      | ok new =>
          obtain rfl : new = engine := Option.some.inj made
          exact unused_newEngine done

/-! ## Single calls -/

theorem present_of_rawGetText {heap : Heap} {id : TableId} {name : String}
    (found : (heap.rawGetText id name).isNil = false) : id.index < heap.tables.size := by
  rcases Nat.lt_or_ge id.index heap.tables.size with present | missing
  · exact present
  · rw [Heap.rawGetText, Heap.rawGet, Heap.table_of_le missing, Table.get_empty] at found
    cases found

theorem exists_package_of_packagePath {heap : Heap}
    (text : packagePath heap = .string patterns) :
    ∃ p, heap.rawGetText heap.globals "package" = .table p ∧
      heap.rawGetText p "path" = .string patterns := by
  cases library : heap.rawGetText heap.globals "package" with
  | table p =>
      rw [packagePath, library] at text
      exact ⟨p, rfl, text⟩
  | _ =>
      rw [packagePath, library] at text
      cases text

/-- Where the package library is a table with patterns in it, nothing is asked of metatables: all
that is needed for further ones is room. -/
theorem setPackagePath_of_packagePath (text : packagePath (h.heap engine) = .string patterns)
    (further : List UInt8) :
    ∃ p heap, (h.heap engine).rawGetText (h.heap engine).globals "package" = .table p ∧
      heap.rawGetText heap.globals "package" = .table p ∧
      heap.rawGetText p "path" = .string patterns ∧
      ((h.heap engine).HasRoom p (Heap.sizeOf (.string further.toByteArray)) →
        h.setPackagePath engine further = (.ok (), h.modifyHeap engine fun _ =>
          heap.rawSetText p "path" (.string further.toByteArray))) ∧
      (¬ (h.heap engine).HasRoom p (Heap.sizeOf (.string further.toByteArray)) →
        h.setPackagePath engine further =
          (.error (.ofRun .memory), h.modifyHeap engine fun _ => heap)) := by
  obtain ⟨p, library, field⟩ := exists_package_of_packagePath text
  have present : engine.index < h.engines.size :=
    present_of_globals (present_of_rawGetText (by rw [library]; rfl))
  have read : h.global engine "package" = (.ok (.table p), h) := by
    rw [global_of_value (by rw [library]; rfl), library]
  have spared {heap : Heap} (steady : Heap.Steady (fun _ _ => False) (h.heap engine) heap) :
      heap.rawGetText p "path" = .string patterns := by
    rw [← field]
    exact steady.inert p "path" (present_of_rawGetText (by rw [field]; rfl)) id
      (by rw [field]; exact Value.inert_string _)
  have assigns := setPackagePath_of_table present read further
    fun heap steady => .inl (by rw [spared steady]; rfl)
  have room := Heap.fst_fitsHolding_iff (h.heap engine) p
    (Heap.sizeOf (.string further.toByteArray))
  have kept := Heap.rawGetText_fitsHolding (Heap.sizeOf (.string further.toByteArray)) library
  cases found : Machine.fitsHolding p (h.heap engine)
      (Heap.sizeOf (.string further.toByteArray)) with
  | mk enough heap =>
      have steady := Heap.Steady.of_fitsHolding (fun _ _ => False) found
      rw [found] at assigns room kept
      dsimp only at assigns room kept
      refine ⟨p, heap, library, by rw [steady.globals]; exact kept, spared steady, ?_, ?_⟩
      · intro roomy
        rw [assigns, room.mpr roomy]
      · intro full
        rw [assigns, Bool.eq_false_iff.mpr fun roomy => full (room.mp roomy)]

/-- Whether the memory of an engine has room for the patterns of these paths. -/
def HasRoomFor (heap : Heap) (paths : List Path) : Prop :=
  ∀ p, heap.rawGetText heap.globals "package" = .table p →
    heap.HasRoom p (Heap.sizeOf (.string (SearchPath.render paths).toByteArray))

theorem hasRoomFor_of_unlimited {heap : Heap} (unlimited : heap.limit? = none)
    (paths : List Path) : HasRoomFor heap paths :=
  fun p _ => Heap.hasRoom_of_unlimited unlimited p _

/-- A call succeeds if all paths can be used and there is room for their patterns, and then both
places have them. -/
theorem setSearchPaths_of_usable (text : packagePath (h.heap engine) = .string patterns)
    {paths : List Path} (usable : ∀ path ∈ paths, SearchPath.Usable path)
    (room : HasRoomFor (h.heap engine) paths) :
    ∃ after, h.setSearchPaths engine paths = (.ok (), after) ∧
      (after.engine engine).searchPaths = paths ∧
      packagePath (after.heap engine) = .string (SearchPath.render paths).toByteArray := by
  obtain ⟨p, heap, library, kept, field, assigns, _⟩ :=
    setPackagePath_of_packagePath text (SearchPath.render paths)
  have sets : h.setSearchPaths engine paths = (.ok (), (h.modifyHeap engine fun _ =>
      heap.rawSetText p "path" (.string (SearchPath.render paths).toByteArray)).modifyEngine
        engine fun e => { e with searchPaths := paths }) := by
    rw [setSearchPaths, SearchPath.firstFault?_eq_none_iff.mpr usable]
    dsimp only
    rw [assigns (room p library)]
  have there : engine.index < h.engines.size :=
    present_of_globals (present_of_rawGetText (by rw [library]; rfl))
  have table : p.index < heap.tables.size := present_of_rawGetText (by rw [field]; rfl)
  refine ⟨_, sets, searchPaths_of_setSearchPaths sets, ?_⟩
  rw [heap_withSearchPaths, heap_modifyHeap there, packagePath,
    show (heap.rawSetText p "path" _).globals = heap.globals from rfl,
    Heap.rawGetText_rawSetText_of_ne (by decide), kept]
  exact Heap.rawGetText_rawSetText_self table ..

/-- Without room it fails, and both places have what they had. -/
theorem setSearchPaths_of_full (text : packagePath (h.heap engine) = .string patterns)
    {paths : List Path} (usable : ∀ path ∈ paths, SearchPath.Usable path)
    (full : ¬ HasRoomFor (h.heap engine) paths) :
    ∃ after, h.setSearchPaths engine paths = (.error (.ofRun .memory), after) ∧
      (after.engine engine).searchPaths = (h.engine engine).searchPaths ∧
      packagePath (after.heap engine) = packagePath (h.heap engine) := by
  obtain ⟨p, heap, library, kept, field, _, fails⟩ :=
    setPackagePath_of_packagePath text (SearchPath.render paths)
  have there : engine.index < h.engines.size :=
    present_of_globals (present_of_rawGetText (by rw [library]; rfl))
  have refused := fails fun enough => full fun q found => by
    obtain rfl : p = q := Value.table.inj (library.symm.trans found)
    exact enough
  refine ⟨h.modifyHeap engine fun _ => heap, ?_, ?_, ?_⟩
  · rw [setSearchPaths, SearchPath.firstFault?_eq_none_iff.mpr usable]
    dsimp only
    rw [refused]
  · rw [modifyHeap, engine_modifyEngine_self there]
    rfl
  · rw [heap_modifyHeap there, text, packagePath, kept]
    exact field

/-- If not all paths can be used, it names the first that cannot, and changes nothing at all. -/
theorem setSearchPaths_of_unusable (h : Host) (engine : EngineId) {paths : List Path}
    (unusable : ¬ ∀ path ∈ paths, SearchPath.Usable path) :
    ∃ before path rest fault, paths = before ++ path :: rest ∧
      (∀ other ∈ before, SearchPath.Usable other) ∧ ¬ SearchPath.Usable path ∧
      SearchPath.fault? path = some fault ∧
      h.setSearchPaths engine paths = (.error (.invalidSearchPath path fault), h) := by
  cases found : SearchPath.firstFault? paths with
  | none => exact absurd (SearchPath.firstFault?_eq_none_iff.mp found) unusable
  | some first =>
      obtain ⟨path, fault⟩ := first
      obtain ⟨before, rest, split, usable, named⟩ := SearchPath.exists_of_firstFault? found
      refine ⟨before, path, rest, fault, split, usable, fun fine => ?_, named, ?_⟩
      · rw [SearchPath.fault?_eq_none_iff.mpr fine] at named
        cases named
      · rw [setSearchPaths, found]

theorem setSearchPaths_succeeds_iff (text : packagePath (h.heap engine) = .string patterns)
    (paths : List Path) :
    (h.setSearchPaths engine paths).1 = .ok () ↔
      (∀ path ∈ paths, SearchPath.Usable path) ∧ HasRoomFor (h.heap engine) paths := by
  constructor
  · intro succeeds
    by_cases usable : ∀ path ∈ paths, SearchPath.Usable path
    · refine ⟨usable, Classical.byContradiction fun full => ?_⟩
      obtain ⟨_, fails, _⟩ := setSearchPaths_of_full text usable full
      rw [fails] at succeeds
      cases succeeds
    · obtain ⟨_, _, _, _, _, _, _, _, fails⟩ := setSearchPaths_of_unusable h engine usable
      rw [fails] at succeeds
      cases succeeds
  · rintro ⟨usable, room⟩
    obtain ⟨after, sets, _⟩ := setSearchPaths_of_usable text usable room
    rw [sets]

end Host

open Lua Scope

/-- A host, and the calls that were to set the paths of an engine with what came of them, the
latest last. -/
structure SearchPathHistory where
  host : Host
  calls : List (List Path × Except EngineError Unit) := []

namespace SearchPathHistory

def set (s : SearchPathHistory) (engine : EngineId) (paths : List Path) : SearchPathHistory :=
  ⟨(s.host.setSearchPaths engine paths).2,
    s.calls ++ [(paths, (s.host.setSearchPaths engine paths).1)]⟩

/-- The paths of the last call that succeeded. -/
def latest? (s : SearchPathHistory) : Option (List Path) :=
  (s.calls.filterMap fun (paths, result) => result.toOption.map fun _ => paths).getLast?

/-- Paths are set on an engine. In between, anything may happen that leaves its paths and its
package library alone. -/
inductive Step (engine : EngineId) : SearchPathHistory → SearchPathHistory → Prop where
  | set {s} (paths : List Path) : Step engine s (s.set engine paths)
  | other {s after} : (after.engine engine).searchPaths = (s.host.engine engine).searchPaths →
      packagePath (after.heap engine) = packagePath (s.host.heap engine) →
      Step engine s ⟨after, s.calls⟩

/-- What is reached by steps. -/
inductive Run (engine : EngineId) (s : SearchPathHistory) : SearchPathHistory → Prop where
  | refl : Run engine s s
  | step {t u} : Run engine s t → Step engine t u → Run engine s u

variable {engine : EngineId} {patterns : ByteArray} {start after : Host} {s t : SearchPathHistory}

/-- A script leaves the paths alone in any case. -/
theorem Step.script (runs : Host.RunsOn engine s.host after)
    (alone : packagePath (after.heap engine) = packagePath (s.host.heap engine)) :
    Step engine s ⟨after, s.calls⟩ :=
  .other runs.searchPaths alone

/-- Both places have the paths of the last call that succeeded, or what they had at the start. -/
structure Mirrored (engine : EngineId) (start : Host) (s : SearchPathHistory) : Prop where
  text : ∃ patterns, packagePath (s.host.heap engine) = .string patterns
  list : (s.host.engine engine).searchPaths =
    s.latest?.getD (start.engine engine).searchPaths
  rendered : packagePath (s.host.heap engine) =
    (s.latest?.map fun paths => .string (SearchPath.render paths).toByteArray).getD
      (packagePath (start.heap engine))

theorem latest?_set_of_ok {paths : List Path}
    (sets : s.host.setSearchPaths engine paths = (.ok (), after)) :
    (s.set engine paths).latest? = some paths := by
  simp [latest?, set, sets, Except.toOption]

theorem latest?_set_of_error {paths : List Path} {e : EngineError}
    (fails : s.host.setSearchPaths engine paths = (.error e, after)) :
    (s.set engine paths).latest? = s.latest? := by
  simp [latest?, set, fails, Except.toOption]

theorem Mirrored.of_refused {paths : List Path} {e : EngineError}
    (mirrored : Mirrored engine start s)
    (fails : s.host.setSearchPaths engine paths = (.error e, after))
    (list : (after.engine engine).searchPaths = (s.host.engine engine).searchPaths)
    (text : packagePath (after.heap engine) = packagePath (s.host.heap engine)) :
    Mirrored engine start (s.set engine paths) := by
  have latest := latest?_set_of_error fails
  have reached : (s.set engine paths).host = after := congrArg Prod.snd fails
  obtain ⟨patterns, before⟩ := mirrored.text
  exact ⟨⟨patterns, by rw [reached, text, before]⟩,
    by rw [reached, list, latest, mirrored.list],
    by rw [reached, text, latest, mirrored.rendered]⟩

theorem Mirrored.step (mirrored : Mirrored engine start s) (step : Step engine s t) :
    Mirrored engine start t := by
  obtain ⟨patterns, text⟩ := mirrored.text
  cases step with
  | set paths =>
      by_cases usable : ∀ path ∈ paths, SearchPath.Usable path
      · by_cases room : Host.HasRoomFor (s.host.heap engine) paths
        · obtain ⟨after, sets, list, rendered⟩ :=
            Host.setSearchPaths_of_usable text usable room
          have latest := latest?_set_of_ok sets
          have reached : (s.set engine paths).host = after := congrArg Prod.snd sets
          exact ⟨⟨_, by rw [reached, rendered]⟩, by rw [reached, latest, list]; rfl,
            by rw [reached, latest, rendered]; rfl⟩
        · obtain ⟨after, fails, list, same⟩ := Host.setSearchPaths_of_full text usable room
          exact mirrored.of_refused fails list same
      · obtain ⟨_, path, _, fault, _, _, _, _, fails⟩ :=
          Host.setSearchPaths_of_unusable s.host engine usable
        exact mirrored.of_refused fails rfl rfl
  | other list alone =>
      exact ⟨⟨patterns, alone.trans text⟩, list.trans mirrored.list, alone.trans mirrored.rendered⟩

theorem mirrored_of_run (text : packagePath (start.heap engine) = .string patterns)
    (run : Run engine ⟨start, []⟩ s) : Mirrored engine start s := by
  induction run with
  | refl => exact ⟨⟨patterns, text⟩, rfl, rfl⟩
  | step _ next ih => exact ih.step next

/-- Paths can be set exactly if each of them can be used and there is room for their patterns,
which there always is on an engine without a memory limit. If not, the first that cannot be used is
named and nothing changes, or memory is short and neither place changes. So the list of the engine
and the patterns of its library always agree: both are those of the last call that succeeded. -/
theorem search_paths_mirrored (text : packagePath (start.heap engine) = .string patterns)
    (run : Run engine ⟨start, []⟩ s) :
    (∀ paths, (s.host.setSearchPaths engine paths).1 = .ok () ↔
      (∀ path ∈ paths, SearchPath.Usable path) ∧ Host.HasRoomFor (s.host.heap engine) paths) ∧
    ((s.host.heap engine).limit? = none → ∀ paths, Host.HasRoomFor (s.host.heap engine) paths) ∧
    (∀ paths, (¬ ∀ path ∈ paths, SearchPath.Usable path) →
      ∃ before path rest fault, paths = before ++ path :: rest ∧
        (∀ other ∈ before, SearchPath.Usable other) ∧ ¬ SearchPath.Usable path ∧
        SearchPath.fault? path = some fault ∧
        s.host.setSearchPaths engine paths = (.error (.invalidSearchPath path fault), s.host)) ∧
    (∀ paths, (∀ path ∈ paths, SearchPath.Usable path) →
      ¬ Host.HasRoomFor (s.host.heap engine) paths →
      ∃ after, s.host.setSearchPaths engine paths = (.error (.ofRun .memory), after) ∧
        (after.engine engine).searchPaths = (s.host.engine engine).searchPaths ∧
        packagePath (after.heap engine) = packagePath (s.host.heap engine)) ∧
    match s.latest? with
    | some paths => (s.host.engine engine).searchPaths = paths ∧
        packagePath (s.host.heap engine) = .string (SearchPath.render paths).toByteArray
    | none => (s.host.engine engine).searchPaths = (start.engine engine).searchPaths ∧
        packagePath (s.host.heap engine) = packagePath (start.heap engine) := by
  have mirrored := mirrored_of_run text run
  obtain ⟨_, now⟩ := mirrored.text
  refine ⟨Host.setSearchPaths_succeeds_iff now, Host.hasRoomFor_of_unlimited,
    fun paths => Host.setSearchPaths_of_unusable s.host engine,
    fun paths => Host.setSearchPaths_of_full now, ?_⟩
  have list := mirrored.list
  have rendered := mirrored.rendered
  cases latest : s.latest? with
  | none =>
      rw [latest] at list rendered
      exact ⟨list, rendered⟩
  | some paths =>
      rw [latest] at list rendered
      exact ⟨list, rendered⟩

/-- A new engine whose paths have been set. -/
def configured : SearchPathHistory :=
  (⟨(Host.pathHost.newEngine {}).2, []⟩ : SearchPathHistory).set ⟨0⟩ [.ofString "lib//"]

/-- The same after a script has run. -/
def scripted : Host :=
  (configured.host.exec ⟨0⟩ (Utf8.bytes "script") (Utf8.bytes "answer = 42")).2

/-- The second of three paths cannot be used. -/
def refused : SearchPathHistory :=
  (⟨scripted, configured.calls⟩ : SearchPathHistory).set ⟨0⟩
    [.ofString "first", .ofString "a;b", .ofString ""]

theorem search_paths_mirrored_refused :
    refused.calls.map (fun call => call.2.toOption.isSome) = [true, false] ∧
      (refused.host.engine ⟨0⟩).searchPaths = [.ofString "lib//"] ∧
      packagePath (refused.host.heap ⟨0⟩) =
        .string (Utf8.bytes "lib/?.lua;lib/?/init.lua").toByteArray := by
  have made : (Host.pathHost.newEngine {}).1.toOption = some ⟨0⟩ := by decide +kernel
  obtain ⟨patterns, text⟩ := (Host.unused_of_toOption made).exists_packagePath
  have run : Run ⟨0⟩ ⟨(Host.pathHost.newEngine {}).2, []⟩ refused := by
    have alone : packagePath (scripted.heap ⟨0⟩) = packagePath (configured.host.heap ⟨0⟩) := by
      have same : ∀ host ∈ [scripted, configured.host], packagePath (host.heap ⟨0⟩) =
          .string (Utf8.bytes "lib/?.lua;lib/?/init.lua").toByteArray := by
        intro host member
        refine Value.eq_string_of_key? ?_
        revert host
        decide +kernel
      rw [same scripted (by simp), same configured.host (by simp)]
    exact ((Run.refl.step (.set _)).step (.script (Host.runsOn_exec ..) alone)).step (.set _)
  have latest : refused.latest? = some [.ofString "lib//"] := by decide +kernel
  have mirrored := (search_paths_mirrored text run).2.2.2.2
  rw [latest] at mirrored
  refine ⟨by decide +kernel, mirrored.1, mirrored.2.trans ?_⟩
  rw [show SearchPath.render [.ofString "lib//"] = Utf8.bytes "lib/?.lua;lib/?/init.lua" by
    decide +kernel]

/-- A path of `n` letters. -/
def longPath (n : Nat) : Path := .ofString (String.ofList (List.replicate n 'a'))

theorem bytes_longPath (n : Nat) : (longPath n).bytes = List.replicate n 97 := by
  rw [longPath, Path.ofString, Utf8.bytes_ofList]
  induction n with
  | zero => rfl
  | succ n ih =>
      rw [List.replicate_succ, List.replicate_succ, ← ih]
      rfl

theorem usable_longPath {n : Nat} (some : n ≠ 0) : SearchPath.Usable (longPath n) where
  text := ⟨_, rfl⟩
  nonempty := by
    rw [bytes_longPath]
    simp [some]
  semicolon := by
    rw [bytes_longPath]
    exact fun found => absurd (List.eq_of_mem_replicate found) (by decide)
  questionMark := by
    rw [bytes_longPath]
    exact fun found => absurd (List.eq_of_mem_replicate found) (by decide)

theorem length_render_longPath (n : Nat) :
    2 * n ≤ (SearchPath.render [longPath n]).length := by
  have base : SearchPath.base (longPath n) = List.replicate n 97 := by
    rw [SearchPath.base, bytes_longPath, List.reverse_replicate]
    cases n with
    | zero => rfl
    | succ n =>
        rw [List.replicate_succ, List.dropWhile_cons_of_neg (by decide), ← List.replicate_succ,
          List.reverse_replicate]
  rw [SearchPath.render, List.flatMap_singleton, SearchPath.patterns, base, Path.joinWith,
    Path.joinWith]
  · simp only [List.length_append, List.length_cons, List.length_replicate]
    omega
  · simp

/-- A new engine that may take 256 KiB. -/
def limitedHost : Host := (Host.pathHost.newEngine { memoryLimit? := some 262144 }).2

/-- Nothing is wrong with the path, but its patterns do not fit. -/
theorem long_path_refused :
    SearchPath.Usable (longPath 140000) ∧
      ∃ after, limitedHost.setSearchPaths ⟨0⟩ [longPath 140000] =
        (.error (.ofRun .memory), after) := by
  have made : (Host.pathHost.newEngine { memoryLimit? := some 262144 }).1.toOption = some ⟨0⟩ := by
    decide +kernel
  obtain ⟨patterns, text⟩ := (Host.unused_of_toOption made).exists_packagePath
  have limit : (limitedHost.heap ⟨0⟩).limit? = some 262144 := by decide +kernel
  have usable := usable_longPath (n := 140000) (by decide)
  refine ⟨usable, ?_⟩
  obtain ⟨p, library, _⟩ := Host.exists_package_of_packagePath text
  have full : ¬ Host.HasRoomFor (limitedHost.heap ⟨0⟩) [longPath 140000] := by
    intro room
    have fits := room p library 262144 limit
    have long := length_render_longPath 140000
    rw [Heap.sizeOf, List.size_toByteArray] at fits
    omega
  obtain ⟨after, fails, _⟩ :=
    Host.setSearchPaths_of_full text (List.forall_mem_singleton.mpr usable) full
  exact ⟨after, fails⟩

end SearchPathHistory

end ScriptHost
