import ScriptHost.Proofs.TomlLines
import ScriptHost.Proofs.Utf8Text
import ScriptHost.Proofs.ConfigReaders

/-!
# Configurations read back from their documents

A configuration can be written unless a path is not text or the heap limit is too large for a TOML
integer, and the document that is written gives the configuration back.
-/

set_option autoImplicit false

namespace ScriptHost

theorem Policy.ofName?_name (policy : Policy) : Policy.ofName? policy.name = some policy := by
  cases policy <;> decide

namespace Config

variable {config : Config} {text : String} {strings : List String} {limit? : Option Nat}

/-! ## The document of a configuration -/

/-- The lines of the heap limit are the entries that it has. -/
def limitEntries (limit? : Option Nat) : Toml.Entries :=
  limit?.toList.map fun (mb : Nat) => ("memory_limit_mb", .integer mb)

def engineEntries (engine : EngineConfig) (strings : List String) : Toml.Entries :=
  limitEntries engine.memoryLimitMb ++
    [("search_paths", .array (strings.map .string)),
      ("collect_on_release", .boolean engine.collectOnRelease),
      ("default_policy", .string engine.defaultPolicy.name)]

def entries (config : Config) (strings : List String) : Toml.Entries :=
  [("debug", .boolean config.debug),
    ("engine", .table .header (engineEntries config.engine strings)),
    ("logging", .table .header [("level", .string config.logging.level)])]

/-- The heap limit fits a TOML integer. -/
def LimitFits (limit? : Option Nat) : Prop := ∀ mb, limit? = some mb → mb < 2 ^ 63

theorem pathText_ofString (s : String) : pathText (Path.ofString s) = .ok (Toml.stringText s) := by
  rw [pathText, Path.text?_ofString]

theorem mapM_pathText (strings : List String) :
    (strings.map Path.ofString).mapM pathText = .ok (strings.map Toml.stringText) := by
  induction strings with
  | nil => rfl
  | cons s strings ih =>
      rw [List.map_cons, List.mapM_cons, pathText_ofString, ih]
      rfl

theorem exists_strings_of_forall {paths : List Path}
    (texts : ∀ path ∈ paths, ∃ s, path = Path.ofString s) :
    ∃ strings : List String, paths = strings.map Path.ofString := by
  induction paths with
  | nil => exact ⟨[], rfl⟩
  | cons path paths ih =>
      obtain ⟨s, rfl⟩ := texts path List.mem_cons_self
      obtain ⟨strings, rfl⟩ := ih fun path member => texts path (List.mem_cons_of_mem _ member)
      exact ⟨s :: strings, rfl⟩

theorem exists_strings_of_mapM {paths : List Path} {texts : List String}
    (written : paths.mapM pathText = .ok texts) :
    ∃ strings : List String, paths = strings.map Path.ofString := by
  induction paths generalizing texts with
  | nil => exact ⟨[], rfl⟩
  | cons path paths ih =>
      rw [List.mapM_cons] at written
      cases others : paths.mapM pathText with
      | error e =>
          cases first : pathText path <;> simp [first, others, bind, Except.bind] at written
      | ok texts =>
          obtain ⟨strings, rfl⟩ := ih others
          cases read : path.text? with
          | none => simp [pathText, read, bind, Except.bind] at written
          | some s => exact ⟨s :: strings, by rw [List.map_cons, Path.ofString_of_text? read]⟩

/-! ## Writing -/

theorem limitLine_of_fits (fits : LimitFits limit?) :
    ∃ line, limitLine limit? = .ok line ∧ ∀ root path, Toml.Lines ⟨root, [], path, false⟩ line.toList
      ⟨root, limitEntries limit?, path, false⟩ := by
  cases limit? with
  | none => exact ⟨"", rfl, fun _ _ => .done⟩
  | some mb =>
      have small := fits mb rfl
      refine ⟨"memory_limit_mb = " ++ mb.repr ++ "\n", if_pos small, fun root path => ?_⟩
      have line := Toml.line_entry ⟨root, [], path, false⟩ "memory_limit_mb"
        ⟨by decide, by decide⟩ (.natural small) rfl
      have lines := Toml.Lines.line (by simp) line .done
      simpa [Nat.toList_repr, limitEntries, Toml.Entries.put] using lines

theorem engineLines (engine : EngineConfig) (strings : List String) (root : Toml.Entries) :
    Toml.Lines ⟨root, limitEntries engine.memoryLimitMb, ["engine"], false⟩
      ("search_paths = " ++ Toml.arrayText (strings.map Toml.stringText) ++ "\n" ++
        "collect_on_release = " ++ Toml.booleanText engine.collectOnRelease ++ "\n" ++
        "default_policy = " ++ Toml.stringText engine.defaultPolicy.name ++ "\n").toList
      ⟨root, engineEntries engine strings, ["engine"], false⟩ := by
  have paths := Toml.line_entry ⟨root, limitEntries engine.memoryLimitMb, ["engine"], false⟩
    "search_paths" ⟨by decide, by decide⟩ (.strings strings)
    (by cases engine.memoryLimitMb <;> rfl)
  have collect := Toml.line_entry
    ⟨root, (limitEntries engine.memoryLimitMb).put "search_paths"
      (.array (strings.map .string)), ["engine"], false⟩
    "collect_on_release" ⟨by decide, by decide⟩ (.boolean engine.collectOnRelease)
    (by cases engine.memoryLimitMb <;> rfl)
  have policy := Toml.line_entry
    ⟨root, ((limitEntries engine.memoryLimitMb).put "search_paths"
      (.array (strings.map .string))).put "collect_on_release" (.boolean engine.collectOnRelease),
      ["engine"], false⟩
    "default_policy" ⟨by decide, by decide⟩ (.string engine.defaultPolicy.name)
    (by cases engine.memoryLimitMb <;> rfl)
  have lines := Toml.Lines.line (by simp) paths (.line (by simp) collect (.line (by simp) policy .done))
  have last : (((limitEntries engine.memoryLimitMb).put "search_paths"
      (.array (strings.map .string))).put "collect_on_release"
      (.boolean engine.collectOnRelease)).put "default_policy" (.string engine.defaultPolicy.name) =
      engineEntries engine strings := by
    unfold engineEntries
    cases engine.memoryLimitMb <;> rfl
  rw [← last]
  simpa using lines

/-- The document is written, and its lines lead to the entries of the configuration. -/
theorem toToml_of_fits (fits : LimitFits config.engine.memoryLimitMb)
    (paths : config.engine.searchPaths = strings.map Path.ofString) :
    ∃ text, toToml config = .ok text ∧ text.toList.head? = some 'd' ∧
      Toml.Lines ⟨[], [], [], false⟩ text.toList
        ⟨(entries config strings).dropLast, [("level", .string config.logging.level)], ["logging"],
          false⟩ := by
  obtain ⟨limit, limitWritten, limitLines⟩ := limitLine_of_fits fits
  have written : toToml config = .ok ("debug = " ++ Toml.booleanText config.debug ++
      "\n\n[engine]\n" ++ limit ++ "search_paths = " ++
      Toml.arrayText (strings.map Toml.stringText) ++ "\n" ++ "collect_on_release = " ++
      Toml.booleanText config.engine.collectOnRelease ++ "\n" ++ "default_policy = " ++
      Toml.stringText config.engine.defaultPolicy.name ++ "\n" ++ "\n[logging]\nlevel = " ++
      Toml.stringText config.logging.level ++ "\n") := by
    rw [toToml, limitWritten, paths, mapM_pathText]
    rfl
  have debug := Toml.line_entry ⟨[], [], [], false⟩ "debug" ⟨by decide, by decide⟩
    (.boolean config.debug) rfl
  have engine : Toml.Line ⟨[], [("debug", .boolean config.debug)], [], false⟩ _
      ⟨[("debug", .boolean config.debug)], [], ["engine"], false⟩ :=
    Toml.line_header "engine" ⟨by decide, by decide⟩ rfl
  have logging : Toml.Line ⟨[("debug", .boolean config.debug)],
      engineEntries config.engine strings, ["engine"], false⟩ _
      ⟨(entries config strings).dropLast, [], ["logging"], false⟩ :=
    Toml.line_header "logging" ⟨by decide, by decide⟩ rfl
  have level := Toml.line_entry ⟨(entries config strings).dropLast, [], ["logging"], false⟩ "level"
    ⟨by decide, by decide⟩ (.string config.logging.level) rfl
  have lines := Toml.Lines.line (by simp) debug <| .line (by simp) (Toml.line_blank _) <|
    .line (by simp) engine <| (limitLines _ _).append <| (engineLines config.engine strings _).append <|
    .line (by simp) (Toml.line_blank _) <| .line (by simp) logging <| .line (by simp) level .done
  exact ⟨_, written, by simp, by simpa [Toml.Entries.put] using lines⟩

/-! ## Reading back -/

theorem parse?_of_lines {doc : Toml.Document} {text : String}
    (lines : Toml.Lines ⟨[], [], [], false⟩ text.toList doc)
    (start : text.toList.head? = some 'd') : Toml.parse? text = doc.close := by
  have read := lines.lines? (Nat.lt_succ_self _)
  rw [Toml.parse?]
  rw [start, if_neg (by decide), read]
  rfl

theorem readPaths (strings : List String) :
    Field.list Field.path (.array (strings.map .string)) = some (strings.map Path.ofString) := by
  rw [Field.list]
  induction strings with
  | nil => rfl
  | cons s strings ih =>
      rw [List.map_cons, List.mapM_cons, ih]
      rfl

/-- The section on engines as a document has it. -/
def enginePart (engine : EngineConfig) (strings : List String) : Section :=
  .keyed (engineEntries engine strings)

theorem found?_enginePart (engine : EngineConfig) (strings : List String) :
    (enginePart engine strings).found? 0 "memory_limit_mb" =
        engine.memoryLimitMb.map (fun (mb : Nat) => .integer mb) ∧
      (enginePart engine strings).found? 1 "search_paths" =
        some (.array (strings.map .string)) ∧
      (enginePart engine strings).found? 2 "collect_on_release" =
        some (.boolean engine.collectOnRelease) ∧
      (enginePart engine strings).found? 3 "default_policy" =
        some (.string engine.defaultPolicy.name) := by
  unfold enginePart engineEntries
  cases engine.memoryLimitMb with
  | none | some mb => exact ⟨rfl, rfl, rfl, rfl⟩

theorem readEngine_engineEntries (engine : EngineConfig)
    (paths : engine.searchPaths = strings.map Path.ofString) :
    readEngine (.table .header (engineEntries engine strings)) = some engine := by
  obtain ⟨limitFound, pathsFound, collectFound, policyFound⟩ := found?_enginePart engine strings
  have limit : (enginePart engine strings).read? 0 "memory_limit_mb" (.optional .natural) none =
      some engine.memoryLimitMb := by
    cases given : engine.memoryLimitMb with
    | none =>
        rw [given] at limitFound
        exact Section.read?_of_missing limitFound
    | some mb =>
        rw [given] at limitFound
        rw [Section.read?_of_found limitFound]
        simp [Field.optional, Field.natural]
  have searched : (enginePart engine strings).read? 1 "search_paths" (.list .path) [] =
      some engine.searchPaths := by
    rw [Section.read?_of_found pathsFound, readPaths, paths]
  have collected : (enginePart engine strings).read? 2 "collect_on_release" .boolean false =
      some engine.collectOnRelease :=
    Section.read?_of_found collectFound
  have policy : (enginePart engine strings).read? 3 "default_policy" .policy Policy.standard =
      some engine.defaultPolicy :=
    (Section.read?_of_found policyFound).trans engine.defaultPolicy.ofName?_name
  rw [readEngine, Section.parse?, Section.ofToml?, Option.bind_some, ← enginePart, limit, searched,
    collected, policy]
  rfl

theorem ofToml?_of_entries (read : Toml.parse? text = some (entries config strings))
    (paths : config.engine.searchPaths = strings.map Path.ofString) :
    ofToml? text = some config := by
  have engine : (Section.keyed (entries config strings)).read? 1 "engine" readEngine {} =
      some config.engine :=
    (Section.read?_of_found rfl).trans (readEngine_engineEntries config.engine paths)
  rw [ofToml?, read, Option.bind_eq_bind, Option.bind_some]
  dsimp only
  rw [engine]
  rfl

theorem fits_of_limitLine {line : String} (written : limitLine limit? = .ok line) :
    LimitFits limit? := by
  rintro mb rfl
  by_cases small : mb < 2 ^ 63
  · exact small
  · rw [limitLine, if_neg small] at written
    cases written

theorem writable_of_toToml (written : toToml config = .ok text) :
    LimitFits config.engine.memoryLimitMb ∧
      ∃ strings : List String, config.engine.searchPaths = strings.map Path.ofString := by
  rw [toToml] at written
  cases limit : limitLine config.engine.memoryLimitMb with
  | error e => simp [limit, bind, Except.bind] at written
  | ok line =>
      cases paths : config.engine.searchPaths.mapM pathText with
      | error e => simp [limit, paths, bind, Except.bind] at written
      | ok texts => exact ⟨fits_of_limitLine limit, exists_strings_of_mapM paths⟩

/-- A configuration can be written exactly when its paths are text and its heap limit fits a TOML
integer, and what is written is read back as the configuration. -/
theorem written_configurations_are_read_back (config : Config) :
    ((∃ text, toToml config = .ok text) ↔
      (∀ path ∈ config.engine.searchPaths, ∃ s, path = Path.ofString s) ∧
        ∀ mb, config.engine.memoryLimitMb = some mb → mb ≤ 2 ^ 63 - 1) ∧
    ∀ text, toToml config = .ok text → ofToml? text = some config := by
  refine ⟨⟨?_, ?_⟩, ?_⟩
  · rintro ⟨text, written⟩
    obtain ⟨fits, strings, paths⟩ := writable_of_toToml written
    refine ⟨fun path member => ?_, fun mb given => Nat.le_sub_one_of_lt (fits mb given)⟩
    rw [paths, List.mem_map] at member
    obtain ⟨s, -, rfl⟩ := member
    exact ⟨s, rfl⟩
  · rintro ⟨texts, fits⟩
    obtain ⟨strings, paths⟩ := exists_strings_of_forall texts
    obtain ⟨text, written, -⟩ := toToml_of_fits
      (fun mb given => Nat.lt_of_le_pred (by decide) (fits mb given)) paths
    exact ⟨text, written⟩
  · intro text written
    obtain ⟨fits, strings, paths⟩ := writable_of_toToml written
    obtain ⟨same, alsoWritten, start, lines⟩ := toToml_of_fits fits paths
    rw [written] at alsoWritten
    cases alsoWritten
    exact ofToml?_of_entries ((parse?_of_lines lines start).trans rfl) paths

/-- Quotes, backslashes, line ends and control characters come back, next to the greatest limit. -/
theorem written_configurations_are_read_back_quoted :
    ∃ config text, config.logging.level = "\"\\\n\r\t\x07 ''' \"\"\" é" ∧
      config.engine.searchPaths = [Path.ofString "'\x7f", Path.ofString "a\\b\nc"] ∧
      config.engine.memoryLimitMb = some (2 ^ 63 - 1) ∧
      toToml config = .ok text ∧ ofToml? text = some config := by
  have readBack := written_configurations_are_read_back
    { debug := true
      engine := {
        memoryLimitMb := some (2 ^ 63 - 1)
        searchPaths := [Path.ofString "'\x7f", Path.ofString "a\\b\nc"]
        defaultPolicy := .clean }
      logging := ⟨"\"\\\n\r\t\x07 ''' \"\"\" é"⟩ }
  obtain ⟨text, written⟩ := readBack.1.mpr ⟨by
    intro path member
    simp only [List.mem_cons, List.not_mem_nil, or_false] at member
    rcases member with rfl | rfl
    · exact ⟨_, rfl⟩
    · exact ⟨_, rfl⟩, fun mb given => Nat.le_of_eq (Option.some.inj given).symm⟩
  exact ⟨_, text, rfl, rfl, rfl, written, readBack.2 text written⟩

end Config

end ScriptHost
