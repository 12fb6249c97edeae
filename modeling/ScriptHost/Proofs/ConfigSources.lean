import ScriptHost.Config.Loader

/-!
# Sources of a configuration

What each source of a configuration gives to each setting, what is wrong with a source, and how a
load puts the sources together: the highest one that sets a setting decides it, and the first one
at fault ends the load.
-/

set_option autoImplicit false

namespace ScriptHost

namespace Path

variable {cut : UInt8}

/-- The pieces between the occurrences of a byte. -/
structure IsCut (cut : UInt8) (bytes : List UInt8) (pieces : List (List UInt8)) : Prop where
  some_piece : pieces ≠ []
  free : ∀ piece ∈ pieces, cut ∉ piece
  joined : joinWith cut pieces = bytes

theorem joinWith_cons_cons (first second : List UInt8) (pieces : List (List UInt8)) :
    joinWith cut (first :: second :: pieces) = first ++ cut :: joinWith cut (second :: pieces) := rfl

theorem isCut_splitAt (bytes : List UInt8) : IsCut cut bytes (splitAt cut bytes) := by
  induction bytes with
  | nil => exact ⟨by simp [splitAt], by simp [splitAt], rfl⟩
  | cons b rest ih =>
      by_cases here : b = cut
      · subst here
        simp only [splitAt, if_true]
        refine ⟨by simp, ?_, ?_⟩
        · intro piece member
          rcases List.mem_cons.mp member with rfl | member
          · simp
          · exact ih.free piece member
        · obtain ⟨first, others, split⟩ := List.exists_cons_of_ne_nil ih.some_piece
          rw [split, joinWith_cons_cons, ← split, ih.joined, List.nil_append]
      · simp only [splitAt, if_neg here]
        obtain ⟨first, others, split⟩ := List.exists_cons_of_ne_nil ih.some_piece
        have joined := ih.joined
        have free := ih.free
        rw [split] at joined free ⊢
        refine ⟨by simp, ?_, ?_⟩
        · intro piece member
          rcases List.mem_cons.mp member with rfl | member
          · have old := free first List.mem_cons_self
            simp only [List.mem_cons, not_or]
            exact ⟨fun same => here same.symm, old⟩
          · exact free piece (List.mem_cons_of_mem _ member)
        · subst joined
          cases others <;> rfl

end Path

namespace Config

/-- A setting of a host. -/
inductive Key where
  | debug
  | memoryLimit
  | searchPaths
  | collectOnRelease
  | defaultPolicy
  | logLevel
deriving DecidableEq

namespace Key

/-- What a setting ranges over. A heap limit counts by the bytes that it allows. -/
def Value : Key → Type
  | debug => Bool
  | memoryLimit => Option Nat
  | searchPaths => List Path
  | collectOnRelease => Bool
  | defaultPolicy => Policy
  | logLevel => String

def read : (key : Key) → Config → key.Value
  | debug, config => config.debug
  | memoryLimit, config => config.engine.memoryLimitBytes
  | searchPaths, config => config.engine.searchPaths
  | collectOnRelease, config => config.engine.collectOnRelease
  | defaultPolicy, config => config.engine.defaultPolicy
  | logLevel, config => config.logging.level

/-- The bytes that a heap limit in MiB allows; zero means no limit. -/
def allowed (mb : Nat) : Option Nat :=
  if mb = 0 then none else some (min (mb * 2 ^ 20) maxBytes)

/-- The value that a layer gives to a setting. -/
def inLayer? : (key : Key) → Layer → Option key.Value
  | debug, layer => layer.debug
  | memoryLimit, layer => layer.engine.memoryLimitMb.map allowed
  | searchPaths, layer => layer.engine.searchPaths
  | collectOnRelease, layer => layer.engine.collectOnRelease
  | defaultPolicy, layer => layer.engine.defaultPolicy
  | logLevel, layer => layer.logging.level

/-- The variable that a setting can be given by. -/
def variableName : Key → String
  | debug => "CINDER_DEBUG"
  | memoryLimit => "CINDER_MEMORY_LIMIT_MB"
  | searchPaths => "CINDER_SEARCH_PATH"
  | collectOnRelease => "CINDER_FULL_GC"
  | defaultPolicy => "CINDER_POLICY"
  | logLevel => "CINDER_LOG_LEVEL"

/-- A word for a truth value, in any case. -/
def IsWord (text : String) : Bool → Prop
  | true => Text.toLower text ∈ ["true", "1", "yes", "on"]
  | false => Text.toLower text ∈ ["false", "0", "no", "off"]

/-- The text of a variable stands for a value of the setting. -/
def Stands : (key : Key) → String → key.Value → Prop
  | debug, text, value => IsWord text value
  | memoryLimit, text, value =>
      Text.trim text = "" ∧ value = none ∨
        ∃ mb, natural64? (Text.trim text) = some mb ∧ value = allowed mb
  | searchPaths, text, value => ∃ pieces, Path.IsCut 58 (Utf8.bytes text) pieces ∧
      value = (pieces.filter fun piece => !piece.isEmpty).map Path.mk
  | collectOnRelease, text, value => IsWord text value
  | defaultPolicy, text, value => Policy.parse text = .ok value
  | logLevel, text, value => value = text

/-- What is said of a text that stands for no value. -/
def complaint : Key → String → String
  | debug, _ | collectOnRelease, _ => "expected bool"
  | memoryLimit, _ => "expected integer"
  | defaultPolicy, text => (UnknownPolicy.mk text).message
  | searchPaths, _ | logLevel, _ => ""

end Key

/-- A place that settings come from. -/
inductive Source where
  | file (path : Path)
  | environment (key : Key)

namespace Source

variable (files : FileTree) (environment : Environment)

/-- A source sets a setting to a value. -/
inductive Gives : Source → (key : Key) → key.Value → Prop
  | layer {path : Path} {text : String} {layer : Layer} {key : Key} {value : key.Value}
      (present : files.exists? path = true) (readable : files.readText path = .ok text)
      (parsed : Layer.ofToml? text = some layer) (sets : key.inLayer? layer = some value) :
      Gives (.file path) key value
  | text {key : Key} {text : String} {value : key.Value}
      (set : environment.text? key.variableName = some text) (stands : key.Stands text value) :
      Gives (.environment key) key value

/-- A source is there, but cannot be used. -/
inductive Fails : Source → LoadError → Prop
  | unreadable {path : Path} {fault : ReadFault} (present : files.exists? path = true)
      (unreadable : files.readText path = .error fault) :
      Fails (.file path) (.unreadable path fault)
  | unparsed {path : Path} {text : String} (present : files.exists? path = true)
      (readable : files.readText path = .ok text) (unparsed : Layer.ofToml? text = none) :
      Fails (.file path) (.parse path)
  | meaningless {key : Key} {text : String} (set : environment.text? key.variableName = some text)
      (meaningless : ∀ value, ¬ key.Stands text value) :
      Fails (.environment key) (.badVariable key.variableName (key.complaint text))

/-- The first source at fault, and what is wrong with it. -/
def FirstFault (sources : List Source) (error : LoadError) : Prop :=
  ∃ earlier source later, sources = earlier ++ source :: later ∧
    source.Fails files environment error ∧
    ∀ other ∈ earlier, ∀ error, ¬ other.Fails files environment error

/-- The value of a setting by the last source that sets it, or else that of a configuration. -/
def Decided (sources : List Source) (initial : Config) (key : Key) (value : key.Value) : Prop :=
  (∃ earlier source later, sources = earlier ++ source :: later ∧
    source.Gives files environment key value ∧
    ∀ other ∈ later, ∀ value, ¬ other.Gives files environment key value) ∨
  (∀ source ∈ sources, ∀ value, ¬ source.Gives files environment key value) ∧
    value = key.read initial

end Source

/-- The sources of a load in their order: the higher ones come later. -/
def Loader.sources (loader : Loader) (environment : Environment) : List Source :=
  (if loader.skipGlobal then []
    else [.file (loader.globalPath?.getD (defaultPath environment))]) ++
  ((if loader.skipProject then []
    else loader.projectRoot?.toList.map fun root => .file (projectPath root)) ++
  (if loader.skipEnvironment then []
    else [.environment .debug, .environment .collectOnRelease, .environment .memoryLimit,
      .environment .defaultPolicy, .environment .searchPaths, .environment .logLevel]))

namespace Key

variable {text : String}

theorem memoryLimitBytes_some (mb : Nat) :
    EngineConfig.memoryLimitBytes { memoryLimitMb := some mb } = allowed mb := by
  by_cases zero : mb = 0
  · simp [EngineConfig.memoryLimitBytes, allowed, zero]
  · simp [EngineConfig.memoryLimitBytes, allowed, zero, Option.filter]

theorem memoryLimitBytes_apply (config : EngineConfig) (layer : EngineLayer) :
    (config.apply layer).memoryLimitBytes =
      (layer.memoryLimitMb.map allowed).getD config.memoryLimitBytes := by
  cases given : layer.memoryLimitMb with
  | none => simp [EngineConfig.apply, EngineConfig.memoryLimitBytes, given]
  | some mb =>
      rw [Option.map_some, Option.getD_some]
      by_cases zero : mb = 0
      · simp [EngineConfig.apply, EngineConfig.memoryLimitBytes, given, limitOf, allowed, zero]
      · simp [EngineConfig.apply, EngineConfig.memoryLimitBytes, given, limitOf, allowed, zero,
          Nat.pos_of_ne_zero zero, Option.filter]

/-- A layer on top decides exactly the settings that it gives. -/
theorem read_apply (key : Key) (config : Config) (layer : Layer) :
    key.read (config.apply layer) = (key.inLayer? layer).getD (key.read config) := by
  cases key with
  | memoryLimit => exact memoryLimitBytes_apply config.engine layer.engine
  | debug | searchPaths | collectOnRelease | defaultPolicy | logLevel => rfl

/-- What a variable is read as: a heap limit is kept in MiB. -/
def Given : Key → Type
  | debug => Bool
  | memoryLimit => Option Nat
  | searchPaths => List Path
  | collectOnRelease => Bool
  | defaultPolicy => Policy
  | logLevel => String

def take : (key : Key) → String → Except String key.Given
  | debug => readBoolean
  | memoryLimit => readLimit
  | searchPaths => fun text => .ok (searchPathVariable text)
  | collectOnRelease => readBoolean
  | defaultPolicy => readPolicy
  | logLevel => .ok

def put : (key : Key) → key.Given → Config → Config
  | debug, b, c => { c with debug := b }
  | memoryLimit, mb, c => { c with engine := { c.engine with memoryLimitMb := mb } }
  | searchPaths, ps, c => { c with engine := { c.engine with searchPaths := ps } }
  | collectOnRelease, b, c => { c with engine := { c.engine with collectOnRelease := b } }
  | defaultPolicy, p, c => { c with engine := { c.engine with defaultPolicy := p } }
  | logLevel, l, c => { c with logging := ⟨l⟩ }

/-- The value that a setting has once it is put. -/
def shown : (key : Key) → key.Given → key.Value
  | debug, b => b
  | memoryLimit, mb => EngineConfig.memoryLimitBytes { memoryLimitMb := mb }
  | searchPaths, ps => ps
  | collectOnRelease, b => b
  | defaultPolicy, p => p
  | logLevel, l => l

theorem read_put (key : Key) (value : key.Given) (config : Config) :
    key.read (key.put value config) = key.shown value := by
  cases key <;> rfl

theorem read_put_of_ne {key other : Key} (distinct : other ≠ key) (value : key.Given)
    (config : Config) : other.read (key.put value config) = other.read config := by
  cases key <;> cases other <;> first | rfl | exact absurd rfl distinct

theorem boolean?_eq_some {value : Bool} : boolean? text = some value ↔ IsWord text value := by
  cases value <;> simp only [boolean?, IsWord, List.mem_cons, List.not_mem_nil, or_false,
    Bool.or_eq_true, decide_eq_true_eq] <;> grind

theorem isWord_of_readBoolean {value : Bool} (result : readBoolean text = .ok value) :
    IsWord text value := by
  rw [← boolean?_eq_some]
  cases found : boolean? text <;> simp_all [readBoolean, Option.elim]

theorem readBoolean_error {reason : String} (result : readBoolean text = .error reason) :
    (∀ value, ¬ IsWord text value) ∧ reason = "expected bool" := by
  simp only [← boolean?_eq_some]
  cases found : boolean? text <;> simp_all [readBoolean, Option.elim]

theorem stands_of_readLimit {limit : Option Nat} (result : readLimit text = .ok limit) :
    memoryLimit.Stands text (memoryLimit.shown limit) := by
  simp only [readLimit, limitVariable?] at result
  split at result
  · rename_i blank
    cases result
    simp only [Bool.or_eq_true, decide_eq_true_eq] at blank
    rcases blank with empty | zero
    · exact .inl ⟨empty, rfl⟩
    · refine .inr ⟨0, ?_, rfl⟩
      rw [zero]
      decide
  · cases parsed : natural64? (Text.trim text) with
    | none => simp [parsed, Option.elim] at result
    | some mb =>
        simp only [parsed, Option.map_some, Option.elim_some, Except.ok.injEq] at result
        subst result
        exact .inr ⟨mb, parsed, memoryLimitBytes_some mb⟩

theorem readLimit_error {reason : String} (result : readLimit text = .error reason) :
    (∀ value, ¬ memoryLimit.Stands text value) ∧ reason = "expected integer" := by
  simp only [readLimit, limitVariable?] at result
  split at result
  · cases result
  · rename_i full
    simp only [Bool.or_eq_true, decide_eq_true_eq, not_or] at full
    cases parsed : natural64? (Text.trim text) with
    | some mb => simp [parsed] at result
    | none =>
        simp only [parsed, Option.map_none, Option.elim_none, Except.error.injEq] at result
        refine ⟨?_, result.symm⟩
        rintro value (⟨empty, _⟩ | ⟨mb, found, _⟩)
        · exact full.1 empty
        · cases parsed.symm.trans found

theorem parse_of_readPolicy {policy : Policy} (result : readPolicy text = .ok policy) :
    Policy.parse text = .ok policy := by
  unfold readPolicy at result
  split at result
  · rename_i parsed
    cases result
    exact parsed
  · cases result

theorem readPolicy_error {reason : String} (result : readPolicy text = .error reason) :
    (∀ policy, ¬ Policy.parse text = .ok policy) ∧ reason = (UnknownPolicy.mk text).message := by
  unfold readPolicy at result
  split at result
  · cases result
  · rename_i unknown parsed
    cases result
    refine ⟨fun policy known => ?_, ?_⟩
    · cases parsed.symm.trans known
    · unfold Policy.parse at parsed
      split at parsed
      · cases parsed
      · cases parsed
        rfl

theorem stands_of_take {key : Key} {value : key.Given} (result : key.take text = .ok value) :
    key.Stands text (key.shown value) := by
  cases key with
  | debug | collectOnRelease => exact isWord_of_readBoolean result
  | memoryLimit => exact stands_of_readLimit result
  | searchPaths =>
      cases result
      exact ⟨_, Path.isCut_splitAt _, rfl⟩
  | defaultPolicy => exact parse_of_readPolicy result
  | logLevel =>
      cases result
      rfl

theorem take_error {key : Key} {reason : String} (result : key.take text = .error reason) :
    (∀ value, ¬ key.Stands text value) ∧ reason = key.complaint text := by
  cases key with
  | debug | collectOnRelease => exact readBoolean_error result
  | memoryLimit => exact readLimit_error result
  | defaultPolicy => exact readPolicy_error result
  | searchPaths | logLevel => cases result

end Key

namespace Source

variable {files : FileTree} {environment : Environment} {source : Source} {before : Config}

/-- The configuration with a source on top. -/
def putOn (files : FileTree) (environment : Environment) (config : Config) :
    Source → Except LoadError Config
  | file path => applyFile files path config
  | .environment key => applyVariable environment key.variableName key.take key.put config

/-- What putting a source on top of a configuration leads to: its fault, or the settings that it
gives beside those that were there. -/
inductive Effect (files : FileTree) (environment : Environment) (source : Source)
    (before : Config) : Except LoadError Config → Prop
  | fault {error : LoadError} (fails : source.Fails files environment error) :
      Effect files environment source before (.error error)
  | sound {after : Config} (usable : ∀ error, ¬ source.Fails files environment error)
      (settled : ∀ key, source.Gives files environment key (key.read after) ∨
        (∀ value, ¬ source.Gives files environment key value) ∧
          key.read after = key.read before) :
      Effect files environment source before (.ok after)

theorem Fails.unique {error other : LoadError} (fails : source.Fails files environment error)
    (too : source.Fails files environment other) : error = other := by
  cases fails with
  | unreadable present unreadable =>
      cases too with
      | unreadable _ again => rw [Except.error.inj (unreadable.symm.trans again)]
      | unparsed _ readable _ => cases unreadable.symm.trans readable
  | unparsed present readable unparsed =>
      cases too with
      | unreadable _ unreadable => cases unreadable.symm.trans readable
      | unparsed _ _ _ => rfl
  | meaningless set meaningless =>
      cases too with
      | meaningless again _ => rw [Option.some.inj (set.symm.trans again)]

theorem applyFile_absent {path : Path} (absent : files.exists? path = false) :
    applyFile files path before = .ok before := by
  simp [applyFile, loadLayer, absent, bind, Except.bind, pure, Except.pure]

theorem applyFile_present {path : Path} (present : files.exists? path = true) :
    applyFile files path before =
      match files.readText path with
      | .error fault => .error (.unreadable path fault)
      | .ok text =>
        match Layer.ofToml? text with
        | some layer => .ok (before.apply layer)
        | none => .error (.parse path) := by
  cases readable : files.readText path with
  | error fault =>
      simp [applyFile, loadLayer, present, readable, bind, Except.bind, throw, throwThe,
        MonadExceptOf.throw]
  | ok text =>
      cases parsed : Layer.ofToml? text <;>
        simp [applyFile, loadLayer, present, readable, parsed, bind, Except.bind, pure,
          Except.pure, throw, throwThe, MonadExceptOf.throw]

theorem effect_file (path : Path) :
    Effect files environment (.file path) before (applyFile files path before) := by
  cases present : files.exists? path with
  | false =>
      rw [applyFile_absent present]
      refine .sound ?_ fun key => .inr ⟨?_, rfl⟩
      · rintro error (⟨there, _⟩ | ⟨there, _, _⟩) <;> simp [present] at there
      · rintro value ⟨there, _, _, _⟩
        simp [present] at there
  | true =>
      rw [applyFile_present present]
      cases readable : files.readText path with
      | error fault => exact .fault (.unreadable present readable)
      | ok text =>
          cases parsed : Layer.ofToml? text with
          | none =>
              simp only [parsed]
              exact .fault (.unparsed present readable parsed)
          | some layer =>
              simp only [parsed]
              refine .sound ?_ fun key => ?_
              · rintro error (⟨_, unreadable⟩ | ⟨_, again, unparsed⟩)
                · cases readable.symm.trans unreadable
                · obtain rfl := Except.ok.inj (readable.symm.trans again)
                  cases parsed.symm.trans unparsed
              · rw [Key.read_apply]
                cases sets : key.inLayer? layer with
                | some value => exact .inl (.layer present readable parsed sets)
                | none =>
                    refine .inr ⟨?_, rfl⟩
                    rintro value ⟨_, again, alike, sets'⟩
                    obtain rfl := Except.ok.inj (readable.symm.trans again)
                    obtain rfl := Option.some.inj (parsed.symm.trans alike)
                    cases sets.symm.trans sets'

theorem effect_environment (key : Key) :
    Effect files environment (.environment key) before
      (applyVariable environment key.variableName key.take key.put before) := by
  unfold applyVariable
  cases set : environment.text? key.variableName with
  | none =>
      refine .sound ?_ fun other => .inr ⟨?_, rfl⟩
      · rintro error (_ | _ | ⟨there, _⟩)
        cases set.symm.trans there
      · rintro value (_ | ⟨there, _⟩)
        cases set.symm.trans there
  | some text =>
      simp only
      cases result : key.take text with
      | error reason =>
          obtain ⟨meaningless, rfl⟩ := Key.take_error result
          exact .fault (.meaningless set meaningless)
      | ok value =>
          have stands := Key.stands_of_take result
          refine .sound ?_ fun other => ?_
          · rintro error (_ | _ | ⟨there, meaningless⟩)
            obtain rfl := Option.some.inj (set.symm.trans there)
            exact meaningless _ stands
          · by_cases same : other = key
            · subst same
              rw [Key.read_put]
              exact .inl (.text set stands)
            · refine .inr ⟨?_, Key.read_put_of_ne same value before⟩
              rintro _ ⟨_, _⟩
              exact same rfl

theorem effect_putOn : Effect files environment source before
    (putOn files environment before source) := by
  cases source with
  | file path => exact effect_file path
  | environment key => exact effect_environment key

/-- Puts sources on top of one another, the lowest first. -/
def putAll (files : FileTree) (environment : Environment) :
    List Source → Config → Except LoadError Config
  | [], config => .ok config
  | source :: later, config => do
    putAll files environment later (← source.putOn files environment config)

variable {sources : List Source} {initial : Config}

theorem FirstFault.cons {error : LoadError} (usable : ∀ error, ¬ source.Fails files environment error)
    (rest : FirstFault files environment sources error) :
    FirstFault files environment (source :: sources) error := by
  obtain ⟨earlier, bad, later, rfl, fails, sound⟩ := rest
  refine ⟨source :: earlier, bad, later, rfl, fails, fun other member => ?_⟩
  rcases List.mem_cons.mp member with rfl | member
  · exact usable
  · exact sound other member

theorem FirstFault.unique {error other : LoadError}
    (first : FirstFault files environment sources error)
    (too : FirstFault files environment sources other) : error = other := by
  induction sources with
  | nil =>
      obtain ⟨earlier, bad, later, split, _⟩ := first
      simp at split
  | cons source sources ih =>
      obtain ⟨_ | ⟨_, earlier⟩, bad, later, split, fails, sound⟩ := first <;>
        obtain ⟨_ | ⟨_, earlier'⟩, bad', later', split', fails', sound'⟩ := too
      · obtain ⟨rfl, rfl⟩ := List.cons.inj split
        obtain ⟨rfl, rfl⟩ := List.cons.inj split'
        exact fails.unique fails'
      · obtain ⟨rfl, rfl⟩ := List.cons.inj split
        obtain ⟨rfl, rfl⟩ := List.cons.inj split'
        exact absurd fails (sound' _ List.mem_cons_self _)
      · obtain ⟨rfl, rfl⟩ := List.cons.inj split
        obtain ⟨rfl, rfl⟩ := List.cons.inj split'
        exact absurd fails' (sound _ List.mem_cons_self _)
      · obtain ⟨rfl, rfl⟩ := List.cons.inj split
        obtain ⟨rfl, same⟩ := List.cons.inj split'
        exact ih
          ⟨earlier, bad, later, rfl, fails, fun o m => sound o (List.mem_cons_of_mem _ m)⟩
          ⟨earlier', bad', later', same, fails', fun o m => sound' o (List.mem_cons_of_mem _ m)⟩

/-- One more source below: it counts where nothing above it sets the setting. -/
theorem Decided.cons {after : Config} {key : Key} {value : key.Value}
    (settled : source.Gives files environment key (key.read after) ∨
      (∀ value, ¬ source.Gives files environment key value) ∧ key.read after = key.read before)
    (rest : Decided files environment sources after key value) :
    Decided files environment (source :: sources) before key value := by
  rcases rest with ⟨earlier, highest, later, rfl, gives, none⟩ | ⟨none, rfl⟩
  · exact .inl ⟨source :: earlier, highest, later, rfl, gives, none⟩
  · rcases settled with gives | ⟨silent, same⟩
    · exact .inl ⟨[], source, sources, rfl, gives, none⟩
    · refine .inr ⟨fun other member => ?_, same⟩
      rcases List.mem_cons.mp member with rfl | member
      · exact silent
      · exact none other member

theorem putAll_cons_ok {after : Config} (result : source.putOn files environment before = .ok after) :
    putAll files environment (source :: sources) before =
      putAll files environment sources after := by
  simp [putAll, result, bind, Except.bind]

theorem putAll_cons_error {error : LoadError}
    (result : source.putOn files environment before = .error error) :
    putAll files environment (source :: sources) before = .error error := by
  simp [putAll, result, bind, Except.bind]

theorem firstFault_of_putAll {error : LoadError}
    (result : putAll files environment sources before = .error error) :
    FirstFault files environment sources error := by
  induction sources generalizing before with
  | nil => cases result
  | cons source sources ih =>
      have effect : Effect files environment source before (source.putOn files environment before) :=
        effect_putOn
      cases put : source.putOn files environment before with
      | error fault =>
          rw [putAll_cons_error put] at result
          obtain rfl := Except.error.inj result
          rw [put] at effect
          cases effect with
          | fault fails => exact ⟨[], source, sources, rfl, fails, by simp⟩
      | ok after =>
          rw [putAll_cons_ok put] at result
          rw [put] at effect
          cases effect with
          | sound usable _ => exact (ih result).cons usable

theorem decided_of_putAll {after : Config}
    (result : putAll files environment sources before = .ok after) :
    (∀ source ∈ sources, ∀ error, ¬ source.Fails files environment error) ∧
      ∀ key, Decided files environment sources before key (key.read after) := by
  induction sources generalizing before with
  | nil =>
      cases result
      exact ⟨by simp, fun key => .inr ⟨by simp, rfl⟩⟩
  | cons source sources ih =>
      have effect : Effect files environment source before (source.putOn files environment before) :=
        effect_putOn
      cases put : source.putOn files environment before with
      | error fault =>
          rw [putAll_cons_error put] at result
          cases result
      | ok middle =>
          rw [putAll_cons_ok put] at result
          rw [put] at effect
          cases effect with
          | sound usable settled =>
              obtain ⟨others, decided⟩ := ih result
              refine ⟨fun other member => ?_, fun key => (decided key).cons (settled key)⟩
              rcases List.mem_cons.mp member with rfl | member
              · exact usable
              · exact others other member

end Source

theorem bind_ok (loaded : Except LoadError Config) : (loaded >>= Except.ok) = loaded := by
  cases loaded <;> rfl

theorem load_eq_putAll (loader : Loader) (files : FileTree) (environment : Environment) :
    loader.load files environment =
      Source.putAll files environment (loader.sources environment) {} := by
  have environment_eq (config : Config) : applyEnvironment environment config =
      Source.putAll files environment [.environment .debug, .environment .collectOnRelease,
        .environment .memoryLimit, .environment .defaultPolicy, .environment .searchPaths,
        .environment .logLevel] config := by
    simp only [Source.putAll, Source.putOn, bind_ok]
    rfl
  obtain ⟨globalPath?, projectRoot?, skipEnvironment, skipGlobal, skipProject⟩ := loader
  cases skipGlobal <;> cases skipProject <;> cases skipEnvironment <;> cases projectRoot? <;>
    simp [Loader.load, Loader.sources, environment_eq, Source.putAll, Source.putOn, bind_ok] <;>
    rfl

/-- A load succeeds just if no source is at fault, and then the highest source that sets a setting
decides it; otherwise the first source at fault is reported. -/
theorem load_by_precedence (loader : Loader) (files : FileTree) (environment : Environment) :
    ((∃ config, loader.load files environment = .ok config) ↔
      ∀ source ∈ loader.sources environment, ∀ error, ¬ source.Fails files environment error) ∧
    (∀ config, loader.load files environment = .ok config → ∀ key,
      Source.Decided files environment (loader.sources environment) {} key (key.read config)) ∧
    ∀ error, loader.load files environment = .error error ↔
      Source.FirstFault files environment (loader.sources environment) error := by
  rw [load_eq_putAll]
  refine ⟨⟨?_, fun sound => ?_⟩, fun config loaded => ?_, fun error => ⟨?_, fun first => ?_⟩⟩
  · rintro ⟨config, loaded⟩
    exact (Source.decided_of_putAll loaded).1
  · cases result : Source.putAll files environment (loader.sources environment) {} with
    | ok config => exact ⟨config, rfl⟩
    | error error =>
        obtain ⟨earlier, bad, later, split, fails, _⟩ := Source.firstFault_of_putAll result
        exact absurd fails (sound bad (by simp [split]) error)
  · exact (Source.decided_of_putAll loaded).2
  · exact Source.firstFault_of_putAll
  · cases result : Source.putAll files environment (loader.sources environment) {} with
    | error other => rw [first.unique (Source.firstFault_of_putAll result)]
    | ok config =>
        obtain ⟨earlier, bad, later, split, fails, _⟩ := first
        exact absurd fails ((Source.decided_of_putAll result).1 bad (by simp [split]) error)

end Config

end ScriptHost
