import ScriptHost.Proofs.ConfigSources
import ScriptHost.Proofs.SearchPathHistory

/-!
# Where modules are looked for

The files that are tried for a module once search paths have been set. They are those of one path
after those of another; only a backslash at the end of a path is lost on the way.
-/

set_option autoImplicit false

namespace ScriptHost

namespace Path

variable {cut : UInt8} {first rest : List UInt8} {p : Path}

/-! ## Cutting -/

theorem splitAt_ne_nil (cut : UInt8) (bytes : List UInt8) : splitAt cut bytes ≠ [] :=
  (isCut_splitAt bytes).some_piece

/-- What has no cut in it goes to the first piece. -/
theorem splitAt_append_of_not_mem (free : cut ∉ first) {piece : List UInt8}
    {pieces : List (List UInt8)} (split : splitAt cut rest = piece :: pieces) :
    splitAt cut (first ++ rest) = (first ++ piece) :: pieces := by
  induction first with
  | nil => exact split
  | cons b first ih =>
      rw [List.mem_cons, not_or] at free
      rw [List.cons_append, splitAt, if_neg (Ne.symm free.1), ih free.2]
      rfl

theorem splitAt_of_not_mem (free : cut ∉ first) : splitAt cut first = [first] := by
  have split := splitAt_append_of_not_mem free (rfl : splitAt cut [] = [[]])
  simpa using split

theorem splitAt_append_cut (cut : UInt8) (first rest : List UInt8) :
    splitAt cut (first ++ cut :: rest) = splitAt cut first ++ splitAt cut rest := by
  induction first with
  | nil => simp [splitAt]
  | cons b first ih =>
      by_cases here : b = cut
      · simp [splitAt, here, ih]
      · obtain ⟨piece, pieces, split⟩ := List.exists_cons_of_ne_nil (splitAt_ne_nil cut first)
        simp [splitAt, here, ih, split]

theorem splitAt_joinWith {pieces : List (List UInt8)} (some_piece : pieces ≠ [])
    (free : ∀ piece ∈ pieces, cut ∉ piece) : splitAt cut (joinWith cut pieces) = pieces := by
  induction pieces with
  | nil => exact absurd rfl some_piece
  | cons piece others ih =>
      obtain ⟨here, later⟩ := List.forall_mem_cons.mp free
      cases others with
      | nil => exact splitAt_of_not_mem here
      | cons second others =>
          rw [joinWith_cons_cons, splitAt_append_cut, splitAt_of_not_mem here,
            ih (by simp) later]
          rfl

/-! ## Components -/

/-- The components of what comes after the head of a path. -/
def ordinary (bytes : List UInt8) : List Component :=
  ((splitAt slash bytes).filter fun piece => !isBlankPiece piece).map Component.ofPiece

theorem ordinary_append_slash (first rest : List UInt8) :
    ordinary (first ++ slash :: rest) = ordinary first ++ ordinary rest := by
  simp [ordinary, splitAt_append_cut]

theorem ordinary_nil : ordinary [] = [] := rfl

/-- What the head of a path tells about where it starts. -/
def startOf (head : List UInt8) : List Component :=
  match head with
  | [] => []
  | b :: _ => [if b = slash then .root else .current]

theorem components_eq (p : Path) :
    p.components = startOf p.head ++ ordinary (p.bytes.drop p.headLength) := rfl

/-- The part of a path before a slash says what its head is. -/
theorem components_append_slash (first rest : List UInt8) :
    (⟨first ++ slash :: rest⟩ : Path).components =
      (⟨first ++ [slash]⟩ : Path).components ++ ordinary rest := by
  have body : ∀ (k : Nat), k ≤ first.length → ∀ more,
      ordinary ((first ++ slash :: more).drop k) = ordinary (first.drop k) ++ ordinary more := by
    intro k inside more
    rw [List.drop_append_of_le_length inside, ordinary_append_slash]
  cases first with
  | nil =>
      have lengths : ∀ more, (⟨slash :: more⟩ : Path).headLength = 1 := by
        intro more
        cases more <;> simp [headLength]
      simp only [List.nil_append, components_eq, head, lengths]
      rfl
  | cons b first =>
      have lengths : ∀ more, (⟨b :: first ++ slash :: more⟩ : Path).headLength =
          (⟨b :: first ++ [slash]⟩ : Path).headLength := by
        intro more
        cases first <;> rfl
      have short : (⟨b :: first ++ [slash]⟩ : Path).headLength ≤ 1 := by
        cases first <;> simp only [headLength, List.cons_append, List.nil_append] <;> split <;> simp
      simp only [components_eq, head, lengths]
      generalize (⟨b :: first ++ [slash]⟩ : Path).headLength = k at short
      have inside : k ≤ (b :: first).length := Nat.le_trans short (by simp)
      rw [body k inside, body k inside, ordinary_nil, List.append_nil, List.append_assoc,
        List.take_append_of_le_length inside, List.take_append_of_le_length inside]

theorem ordinary_replicate (count : Nat) (rest : List UInt8) :
    ordinary (List.replicate count slash ++ rest) = ordinary rest := by
  induction count with
  | zero => rfl
  | succ count ih =>
      rw [List.replicate_succ, List.cons_append]
      exact (ordinary_append_slash [] _).trans ih

/-- It does not matter how many slashes there are. -/
theorem same_of_slashes (first rest : List UInt8) (count : Nat) :
    (⟨first ++ slash :: rest⟩ : Path).same
      ⟨first ++ List.replicate count slash ++ slash :: rest⟩ = true := by
  have moved : first ++ List.replicate count slash ++ slash :: rest =
      first ++ slash :: (List.replicate count slash ++ rest) := by
    rw [List.append_assoc, ← List.cons_append, ← List.replicate_succ, List.replicate_succ',
      List.append_assoc]
    rfl
  rw [same_iff, moved, components_append_slash, components_append_slash first (_ ++ rest),
    ordinary_replicate]

/-- The text of a component. Only names have any. -/
def Component.text : Component → List UInt8
  | name bytes => bytes
  | root | current | parent => []

theorem count_splitAt {b : UInt8} (other : b ≠ cut) (bytes : List UInt8) :
    (splitAt cut bytes).flatten.count b = bytes.count b := by
  induction bytes with
  | nil => rfl
  | cons c bytes ih =>
      by_cases here : c = cut
      · simp [splitAt, here, ih, other.symm]
      · obtain ⟨piece, pieces, split⟩ := List.exists_cons_of_ne_nil (splitAt_ne_nil cut bytes)
        rw [split, List.flatten_cons] at ih
        simp only [splitAt, here, split, if_false, List.flatten_cons, List.cons_append,
          List.count_cons, ih]

theorem count_ofPiece {b : UInt8} (noDot : b ≠ dot) (piece : List UInt8) :
    (Component.ofPiece piece).text.count b = piece.count b := by
  unfold Component.ofPiece
  split
  · rename_i parent
    rw [eq_of_beq parent]
    simp [Component.text, noDot.symm]
  · rfl

theorem count_of_isBlankPiece {b : UInt8} (noDot : b ≠ dot) {piece : List UInt8}
    (blank : isBlankPiece piece = true) : piece.count b = 0 := by
  have shape : piece = [] ∨ piece = [dot] := by simpa [isBlankPiece] using blank
  rcases shape with rfl | rfl
  · rfl
  · simp [noDot.symm]

theorem count_ordinary {b : UInt8} (noSlash : b ≠ slash) (noDot : b ≠ dot) (bytes : List UInt8) :
    ((ordinary bytes).flatMap Component.text).count b = bytes.count b := by
  rw [← count_splitAt noSlash bytes, ordinary]
  induction splitAt slash bytes with
  | nil => rfl
  | cons piece pieces ih =>
      rw [List.filter_cons, List.flatten_cons, List.count_append, ← ih]
      by_cases blank : isBlankPiece piece = true
      · simp [blank, count_of_isBlankPiece noDot blank]
      · simp [blank, count_ofPiece noDot]

theorem mem_head {b : UInt8} {p : Path} (member : b ∈ p.head) : b = slash ∨ b = dot := by
  unfold head headLength at member
  split at member <;> rename_i bytes <;> rw [bytes] at member
  · cases member
  · split at member <;> simp_all
  · split at member
    · simp_all
      grind
    · cases member

/-- No byte is lost but slashes and dots. -/
theorem count_components {b : UInt8} (noSlash : b ≠ slash) (noDot : b ≠ dot) (p : Path) :
    (p.components.flatMap Component.text).count b = p.bytes.count b := by
  have start : ∀ head, (startOf head).flatMap Component.text = [] := by
    intro head
    cases head with
    | nil => rfl
    | cons c rest => by_cases root : c = slash <;> simp [startOf, root, Component.text]
  have bare : p.head.count b = 0 := List.count_eq_zero.mpr fun member =>
    (mem_head member).elim noSlash noDot
  have whole : p.bytes.count b = (p.bytes.drop p.headLength).count b := by
    rw [← List.take_append_drop p.headLength p.bytes, List.count_append]
    simp only [List.take_append_drop]
    rw [show (p.bytes.take p.headLength).count b = 0 from bare, Nat.zero_add]
  rw [whole, components_eq, List.flatMap_append, start, List.nil_append,
    count_ordinary noSlash noDot]

end Path

namespace SearchPath

open Lua

variable {path : Path} {paths : List Path} {name : List UInt8}

/-! ## The end of a path -/

/-- The last byte of a path that is no slash. -/
def lastByte? (path : Path) : Option UInt8 := path.bytes.reverse.find? (· != Path.slash)

theorem base_of_lastByte?_ne (other : lastByte? path ≠ some 92) :
    ∃ count, path.bytes = base path ++ List.replicate count Path.slash := by
  unfold lastByte? at other
  unfold base
  generalize reversed : path.bytes.reverse = bytes at other ⊢
  have back : path.bytes = bytes.reverse := by rw [← reversed, List.reverse_reverse]
  rw [back]
  clear reversed back
  induction bytes with
  | nil => exact ⟨0, rfl⟩
  | cons b bytes ih =>
      by_cases isSlash : b = Path.slash
      · subst isSlash
        obtain ⟨count, split⟩ := ih (by simpa using other)
        refine ⟨count + 1, ?_⟩
        rw [List.dropWhile_cons_of_pos (by rfl), List.reverse_cons, List.replicate_succ',
          ← List.append_assoc, ← split]
      · have ends : isFinal b = false := by
          have noBackslash : b ≠ 92 := by simpa [isSlash] using other
          simp [isFinal, isSlash, noBackslash]
        exact ⟨0, by rw [List.dropWhile_cons_of_neg (by simp [ends])]; simp⟩

theorem count_base_lt (last : lastByte? path = some 92) :
    (base path).count 92 < path.bytes.count 92 := by
  unfold lastByte? at last
  rw [base, List.count_reverse, ← List.count_reverse (l := path.bytes)]
  generalize path.bytes.reverse = bytes at last ⊢
  induction bytes with
  | nil => cases last
  | cons b bytes ih =>
      by_cases isSlash : b = Path.slash
      · subst isSlash
        rw [List.dropWhile_cons_of_pos (by rfl), List.count_cons_of_ne (by decide)]
        exact ih (by simpa using last)
      · obtain rfl : b = 92 := by simpa [isSlash] using last
        rw [List.dropWhile_cons_of_pos (by rfl), List.count_cons_self]
        exact Nat.lt_succ_of_le ((List.dropWhile_sublist _).count_le 92)

/-- A file in a directory, however many slashes the path of the directory ends with. -/
def within (directory file : List UInt8) : Path := ⟨directory ++ Path.slash :: file⟩

/-- What is tried for a path is in the directory that the path names, unless the path ends in a
backslash. -/
theorem same_within_iff (file : List UInt8) :
    (within (base path) file).same (within path.bytes file) = true ↔
      lastByte? path ≠ some 92 := by
  constructor
  · intro same last
    have counts := congrArg (fun components => (components.flatMap Path.Component.text).count 92)
      (Path.same_iff.mp same)
    simp only [Path.count_components (show (92 : UInt8) ≠ Path.slash by decide)
      (show (92 : UInt8) ≠ Path.dot by decide), within, List.count_append] at counts
    have fewer := count_base_lt last
    omega
  · intro other
    obtain ⟨count, split⟩ := base_of_lastByte?_ne other
    have same := Path.same_of_slashes (base path) file count
    rwa [← split] at same

/-! ## Searching -/

/-- The name of a module in that of a file. Dots separate directories. -/
def moduleStem (name : List UInt8) : List UInt8 := Library.substitute 46 [47] name

/-- The files of a module, seen from a search path. -/
def moduleFiles (name : List UInt8) : List (List UInt8) :=
  [moduleStem name ++ Utf8.bytes ".lua",
    moduleStem name ++ Utf8.bytes "/init.lua"]

/-- The files that are tried for a module: the patterns that are not empty, with the name for every
question mark. -/
def searched (patterns name : List UInt8) : List Path :=
  ((Path.splitAt 59 patterns).filter fun pattern => !pattern.isEmpty).map fun pattern =>
    ⟨Library.substitute 63 (moduleStem name) pattern⟩

theorem not_mem_base {b : UInt8} (absent : b ∉ path.bytes) : b ∉ base path := by
  intro member
  refine absent ?_
  rw [base, List.mem_reverse] at member
  exact List.mem_reverse.mp ((List.dropWhile_sublist _).mem member)

theorem substitute_of_not_mem {b : UInt8} (text : List UInt8) {s : List UInt8} (absent : b ∉ s) :
    Library.substitute b text s = s := by
  induction s with
  | nil => rfl
  | cons c s ih =>
      rw [List.mem_cons, not_or] at absent
      rw [Library.substitute, List.flatMap_cons, if_neg (Ne.symm absent.1)]
      exact congrArg (c :: ·) (ih absent.2)

theorem substitute_append (b : UInt8) (text first second : List UInt8) :
    Library.substitute b text (first ++ second) =
      Library.substitute b text first ++ Library.substitute b text second :=
  List.flatMap_append

theorem moduleFile_eq : moduleFile = Path.slash :: 63 :: Utf8.bytes ".lua" := by decide +kernel

theorem moduleDirectory_eq : moduleDirectory = Path.slash :: 63 :: Utf8.bytes "/init.lua" := by
  decide +kernel

theorem substitute_mark (text : List UInt8) {ending : List UInt8} (plain : 63 ∉ ending) :
    Library.substitute 63 text (Path.slash :: 63 :: ending) = Path.slash :: (text ++ ending) := by
  have rest := substitute_of_not_mem text plain
  rw [Library.substitute] at rest ⊢
  rw [List.flatMap_cons, if_neg (by decide), List.flatMap_cons, if_pos rfl, rest]
  rfl

/-- No pattern is cut in two, and none is empty. -/
theorem patterns_whole (usable : Usable path) {pattern : List UInt8}
    (member : pattern ∈ patterns path) : 59 ∉ pattern ∧ pattern ≠ [] := by
  have free := not_mem_base usable.semicolon
  have fixed : 59 ∉ moduleFile ∧ 59 ∉ moduleDirectory := by decide +kernel
  rw [patterns, List.mem_cons, List.mem_singleton] at member
  rcases member with rfl | rfl
  · exact ⟨by simp [free, fixed.1], by simp [moduleFile_eq]⟩
  · exact ⟨by simp [free, fixed.2], by simp [moduleDirectory_eq]⟩

/-- What is rendered falls into the patterns of the paths again. -/
theorem splitAt_render (usable : ∀ path ∈ paths, Usable path) (some_path : paths ≠ []) :
    Path.splitAt 59 (render paths) = paths.flatMap patterns := by
  refine Path.splitAt_joinWith ?_ fun pattern member => ?_
  · obtain ⟨first, others, rfl⟩ := List.exists_cons_of_ne_nil some_path
    simp [patterns]
  · obtain ⟨path, listed, here⟩ := List.mem_flatMap.mp member
    exact (patterns_whole (usable path listed) here).1

theorem map_substitute_patterns (name : List UInt8) (usable : Usable path) :
    (patterns path).map (Library.substitute 63 (moduleStem name)) =
      ((moduleFiles name).map (within (base path))).map Path.bytes := by
  have plain := not_mem_base usable.questionMark
  have file := substitute_mark (moduleStem name)
    (show 63 ∉ Utf8.bytes ".lua" by decide +kernel)
  have directory := substitute_mark (moduleStem name)
    (show 63 ∉ Utf8.bytes "/init.lua" by decide +kernel)
  simp [patterns, moduleFiles, within, moduleFile_eq, moduleDirectory_eq, substitute_append,
    substitute_of_not_mem _ plain, file, directory]

/-- The files that are tried are those of each path, one path after another. -/
theorem searched_render (usable : ∀ path ∈ paths, Usable path) :
    searched (render paths) name =
      paths.flatMap fun path => (moduleFiles name).map (within (base path)) := by
  by_cases some_path : paths = []
  · subst some_path
    rfl
  · have kept : (paths.flatMap patterns).filter (fun pattern => !pattern.isEmpty) =
        paths.flatMap patterns := by
      refine List.filter_eq_self.mpr fun pattern member => ?_
      obtain ⟨path, listed, here⟩ := List.mem_flatMap.mp member
      simpa using (patterns_whole (usable path listed) here).2
    rw [searched, splitAt_render usable some_path, kept, List.map_flatMap, List.flatMap_def,
      List.flatMap_def]
    refine congrArg List.flatten (List.map_congr_left fun path listed => ?_)
    have filled := congrArg (List.map Path.mk)
      (map_substitute_patterns name (usable path listed))
    simpa [List.map_map, Function.comp_def] using filled

/-! ## The searcher of scripts -/

theorem splitAt_substitute {text : List UInt8} (free : 59 ∉ text) (s : List UInt8) :
    Path.splitAt 59 (Library.substitute 63 text s) =
      (Path.splitAt 59 s).map (Library.substitute 63 text) := by
  induction s with
  | nil => rfl
  | cons b s ih =>
      obtain ⟨piece, pieces, split⟩ := List.exists_cons_of_ne_nil (Path.splitAt_ne_nil 59 s)
      rw [split] at ih
      have extended : ∀ piece, Library.substitute 63 text (b :: piece) =
          (if b = 63 then text else [b]) ++ Library.substitute 63 text piece := fun _ => rfl
      rw [extended]
      by_cases cut : b = 59
      · subst cut
        simp only [if_neg (show (59 : UInt8) ≠ 63 by decide), List.cons_append, List.nil_append,
          Path.splitAt, if_true, ih, split, List.map_cons]
        rfl
      · have kept : 59 ∉ (if b = 63 then text else [b]) := by
          split
          · exact free
          · simpa using Ne.symm cut
        rw [Path.splitAt_append_of_not_mem kept ih, Path.splitAt, if_neg cut, split,
          ← extended]
        rfl

/-- Looks for the first of several files that can be opened. The text tells what has been tried. -/
def searchAmong (text : List UInt8) (files : List Path) : Eval (Except String (List UInt8)) := do
  match ← Library.firstReadable (files.map Path.bytes) with
  | some found => return .ok found
  | none => return .error (Library.notFoundText text)

theorem not_mem_substitute {b c : UInt8} {text s : List UInt8} (fresh : c ∉ text)
    (absent : c ∉ s) : c ∉ Library.substitute b text s := by
  simp only [Library.substitute, List.mem_flatMap, not_exists, not_and]
  intro d member
  split
  · exact fresh
  · simp only [List.mem_singleton]
    rintro rfl
    exact absent member

/-- A script opens the first of these files that there is. -/
theorem searchFiles_render (usable : ∀ path ∈ paths, Usable path) (free : 59 ∉ name) :
    Library.searchFiles (moduleStem name) (render paths) =
      searchAmong (Library.substitute 63 (moduleStem name) (render paths))
        (searched (render paths) name) := by
  have names : (if (Library.substitute 63 (moduleStem name) (render paths)).isEmpty
      then [] else
        Path.splitAt 59 (Library.substitute 63 (moduleStem name) (render paths))) =
      (searched (render paths) name).map Path.bytes := by
    rw [searched_render usable]
    cases paths with
    | nil => rfl
    | cons first others =>
        have clean : 59 ∉ moduleStem name := not_mem_substitute (by decide) free
        have split := splitAt_substitute clean (render (first :: others))
        have filled : ((first :: others).flatMap patterns).map
            (Library.substitute 63 (moduleStem name)) =
              ((first :: others).flatMap fun path =>
                (moduleFiles name).map (within (base path))).map Path.bytes := by
          rw [List.map_flatMap, List.map_flatMap, List.flatMap_def, List.flatMap_def]
          exact congrArg List.flatten (List.map_congr_left fun path listed =>
            map_substitute_patterns name (usable path listed))
        rw [splitAt_render usable (List.cons_ne_nil _ _), filled] at split
        -- The first file has a slash in its name.
        have inhabited : (Library.substitute 63 (moduleStem name)
            (render (first :: others))).isEmpty = false := by
          refine List.isEmpty_eq_false_iff.mpr fun empty => ?_
          rw [empty] at split
          simp [Path.splitAt, moduleFiles, within] at split
        rw [inhabited, split]
        rfl
  rewrite [Library.searchFiles, searchAmong, ← names]
  rfl

end SearchPath

namespace Host

open Lua Scope SearchPath

variable {h after : Host} {engine : EngineId} {previous : ByteArray} {paths : List Path}
  {name : List UInt8}

/-- Once paths have been set, what scripts try for a module is two files for each path, in the order
of the paths, and nothing else. They are in the directory that the path names, but for paths that
end in a backslash, which goes missing. -/
theorem modules_of_search_paths (text : packagePath (h.heap engine) = .string previous)
    (sets : h.setSearchPaths engine paths = (.ok (), after)) (free : 59 ∉ name) :
    ∃ rendered : List UInt8, packagePath (after.heap engine) = .string rendered.toByteArray ∧
      Library.searchFiles (moduleStem name) rendered =
        searchAmong (Library.substitute 63 (moduleStem name) rendered) (searched rendered name) ∧
      searched rendered name =
        paths.flatMap (fun path => (moduleFiles name).map (within (base path))) ∧
      ∀ path ∈ paths, ∀ file ∈ moduleFiles name,
        (within (base path) file).same (within path.bytes file) = true ↔
          lastByte? path ≠ some 92 := by
  obtain ⟨usable, room⟩ := (setSearchPaths_succeeds_iff text paths).mp (by rw [sets])
  obtain ⟨reached, succeeds, _, rendered⟩ := setSearchPaths_of_usable text usable room
  obtain rfl : after = reached := by
    rw [sets] at succeeds
    exact congrArg Prod.snd succeeds
  exact ⟨render paths, rendered, searchFiles_render usable free, searched_render usable,
    fun path _ file _ => same_within_iff file⟩

/-- Paths of which one is the root, one has slashes and a dot at its end, and one a backslash. -/
def oddPaths : List Path := ["/", "lib/.//", "a b", "mods\\"].map .ofString

theorem modules_of_search_paths_odd :
    ∃ after rendered, (pathHost.newEngine {}).2.setSearchPaths ⟨0⟩ oddPaths = (.ok (), after) ∧
      packagePath (after.heap ⟨0⟩) = .string rendered.toByteArray ∧
      searched rendered (Utf8.bytes "pkg.util") =
        ["/pkg/util.lua", "/pkg/util/init.lua", "lib/./pkg/util.lua", "lib/./pkg/util/init.lua",
          "a b/pkg/util.lua", "a b/pkg/util/init.lua", "mods/pkg/util.lua",
          "mods/pkg/util/init.lua"].map Path.ofString := by
  have made : (pathHost.newEngine {}).1.toOption = some ⟨0⟩ := by decide +kernel
  obtain ⟨previous, text⟩ := (unused_of_toOption made).exists_packagePath
  have usable : ∀ path ∈ oddPaths, Usable path :=
    firstFault?_eq_none_iff.mp (by decide +kernel)
  have unlimited : ((pathHost.newEngine {}).2.heap ⟨0⟩).limit? = none := by decide +kernel
  obtain ⟨after, sets, _⟩ :=
    setSearchPaths_of_usable text usable (hasRoomFor_of_unlimited unlimited _)
  obtain ⟨rendered, found, _, files, _⟩ :=
    modules_of_search_paths text sets (show 59 ∉ Utf8.bytes "pkg.util" by decide +kernel)
  refine ⟨after, rendered, sets, found, files.trans ?_⟩
  decide +kernel

/-- A directory whose name ends in a backslash is never looked into, but the one whose name lacks
it. -/
theorem modules_of_backslash_path :
    ∃ after, (pathHost.newEngine {}).2.setSearchPaths ⟨0⟩ [.ofString "mods\\"] = (.ok (), after) ∧
      ∃ rendered : List UInt8, packagePath (after.heap ⟨0⟩) = .string rendered.toByteArray ∧
        searched rendered (Utf8.bytes "m") =
          ["mods/m.lua", "mods/m/init.lua"].map Path.ofString ∧
        (Path.ofString "mods/m.lua").same (.ofString "mods\\/m.lua") = false := by
  have made : (pathHost.newEngine {}).1.toOption = some ⟨0⟩ := by decide +kernel
  obtain ⟨previous, text⟩ := (unused_of_toOption made).exists_packagePath
  have usable : ∀ path ∈ [Path.ofString "mods\\"], Usable path :=
    firstFault?_eq_none_iff.mp (by decide +kernel)
  have unlimited : ((pathHost.newEngine {}).2.heap ⟨0⟩).limit? = none := by decide +kernel
  obtain ⟨after, sets, _, rendered⟩ :=
    setSearchPaths_of_usable text usable (hasRoomFor_of_unlimited unlimited _)
  refine ⟨after, sets, _, rendered, ?_, by decide +kernel⟩
  decide +kernel

end Host

end ScriptHost
