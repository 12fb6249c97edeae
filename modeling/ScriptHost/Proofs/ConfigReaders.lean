import ScriptHost.Proofs.ConfigSources
import ScriptHost.Proofs.LastEvent

/-!
# Two readers of configuration documents

A document can be read as a configuration or as a layer. The readers accept the same documents, and
a layer on top of the defaults has the settings of the configuration. So layers that are put on top
of one another leave each setting as the last document that gives it does.
-/

set_option autoImplicit false

namespace ScriptHost

namespace Config

namespace Section

/-- The value of a part of a section, by its key or its position. -/
def found? (index : Nat) (key : String) : Section → Option Toml
  | keyed entries => entries.get? key
  | listed items => items[index]?

variable {α : Type} {part : Section} {index : Nat} {key : String} {field : Field α} {absent : α}

theorem read?_of_found {value : Toml} (found : part.found? index key = some value) :
    part.read? index key field absent = field value := by
  cases part with
  | keyed entries | listed items =>
      simp only [found?] at found
      simp only [read?, found]

theorem read?_of_missing (missing : part.found? index key = none) :
    part.read? index key field absent = some absent := by
  cases part with
  | keyed entries | listed items =>
      simp only [found?] at missing
      simp only [read?, missing]

end Section

/-! ## One part of a document -/

/-- A reader that fills in an absent value, and one that does not, have read the same. -/
structure ReadAlike {α : Type} (given? : Option Toml) (absent value : α) (layered? : Option α) :
    Prop where
  value : value = layered?.getD absent
  given : layered?.isSome = given?.isSome

/-- Two readers of a part both fail, or have read the same. -/
inductive Alike {α β : Type} (same : α → β → Prop) : Option α → Option β → Prop where
  | refused : Alike same none none
  | read {a : α} {b : β} : same a b → Alike same (some a) (some b)

namespace Alike

variable {α β γ δ : Type} {same : α → β → Prop} {further : γ → δ → Prop}

theorem bind {a? : Option α} {b? : Option β} {f : α → Option γ} {g : β → Option δ}
    (alike : Alike same a? b?) (next : ∀ a b, same a b → Alike further (f a) (g b)) :
    Alike further (a?.bind f) (b?.bind g) := by
  cases alike with
  | refused => exact .refused
  | read holds => exact next _ _ holds

theorem eq_none_or_read {a? : Option α} {b? : Option β} (alike : Alike same a? b?) :
    (a? = none ∧ b? = none) ∨ ∃ a b, a? = some a ∧ b? = some b ∧ same a b := by
  cases alike with
  | refused => exact .inl ⟨rfl, rfl⟩
  | read holds => exact .inr ⟨_, _, rfl, rfl, holds⟩

end Alike

theorem alike_read {α : Type} (part : Section) (index : Nat) (key : String) (field : Field α)
    (absent : α) :
    Alike (ReadAlike (part.found? index key) absent) (part.read? index key field absent)
      (part.read? index key (.optional field) none) := by
  cases found : part.found? index key with
  | none =>
      rw [Section.read?_of_missing found, Section.read?_of_missing found]
      exact .read ⟨rfl, rfl⟩
  | some value =>
      rw [Section.read?_of_found found, Section.read?_of_found found, Field.optional]
      cases field value with
      | none => exact .refused
      | some a => exact .read ⟨rfl, rfl⟩

theorem alike_limit (part : Section) (index : Nat) (key : String) :
    Alike (fun limit layered? => layered? = limit ∧ limit.isSome = (part.found? index key).isSome)
      (part.read? index key (.optional .natural) none)
      (part.read? index key (.optional .natural) none) := by
  cases found : part.found? index key with
  | none =>
      rw [Section.read?_of_missing found]
      exact .read ⟨rfl, rfl⟩
  | some value =>
      rw [Section.read?_of_found found, Field.optional]
      cases Field.natural value with
      | none => exact .refused
      | some n => exact .read ⟨rfl, rfl⟩

/-! ## Sections -/

/-- The settings of engines, by the two readers of a section. -/
structure EngineAlike (part? : Option Section) (config : EngineConfig) (layer : EngineLayer) :
    Prop where
  memoryLimit : layer.memoryLimitMb = config.memoryLimitMb ∧ config.memoryLimitMb.isSome =
    (part?.bind (Section.found? 0 "memory_limit_mb")).isSome
  searchPaths : ReadAlike (part?.bind (Section.found? 1 "search_paths")) [] config.searchPaths
    layer.searchPaths
  collectOnRelease : ReadAlike (part?.bind (Section.found? 2 "collect_on_release")) false
    config.collectOnRelease layer.collectOnRelease
  defaultPolicy : ReadAlike (part?.bind (Section.found? 3 "default_policy")) Policy.standard
    config.defaultPolicy layer.defaultPolicy

def LoggingAlike (part? : Option Section) (config : LoggingConfig) (layer : LoggingLayer) : Prop :=
  ReadAlike (part?.bind (Section.found? 0 "level")) "warn" config.level layer.level

theorem alike_engine (value : Toml) :
    Alike (EngineAlike (Section.ofToml? value)) (readEngine value) (readEngineLayer value) := by
  unfold readEngine readEngineLayer Section.parse?
  cases Section.ofToml? value with
  | none => exact .refused
  | some part =>
      refine (alike_limit part 0 _).bind fun _ _ limit => ?_
      refine (alike_read part 1 _ _ _).bind fun _ _ paths => ?_
      refine (alike_read part 2 _ _ _).bind fun _ _ collect => ?_
      refine (alike_read part 3 _ _ _).bind fun _ _ policy => ?_
      exact .read ⟨limit, paths, collect, policy⟩

theorem alike_logging (value : Toml) :
    Alike (LoggingAlike (Section.ofToml? value)) (readLogging value) (readLoggingLayer value) := by
  unfold readLogging readLoggingLayer Section.parse?
  cases Section.ofToml? value with
  | none => exact .refused
  | some part => exact (alike_read part 0 _ _ _).bind fun _ _ level => .read level

/-- A section that a document may leave out: both readers take their defaults then. -/
theorem alike_section {α β : Type} {same : Option Section → α → β → Prop} (part : Section)
    (index : Nat) (key : String) {field : Field α} {layerField : Field β} {absent : α} {none_ : β}
    (alike : ∀ value, Alike (same (Section.ofToml? value)) (field value) (layerField value))
    (missing : same none absent none_) :
    Alike (same ((part.found? index key).bind Section.ofToml?)) (part.read? index key field absent)
      (part.read? index key layerField none_) := by
  cases found : part.found? index key with
  | none =>
      rw [Section.read?_of_missing found, Section.read?_of_missing found]
      exact .read missing
  | some value =>
      rw [Section.read?_of_found found, Section.read?_of_found found]
      exact alike value

/-! ## Documents -/

namespace Key

/-- The value that a document has under the name of a setting. -/
def given? (entries : Toml.Entries) : Key → Option Toml
  | debug => entries.get? "debug"
  | memoryLimit => inSection? "engine" 0 "memory_limit_mb"
  | searchPaths => inSection? "engine" 1 "search_paths"
  | collectOnRelease => inSection? "engine" 2 "collect_on_release"
  | defaultPolicy => inSection? "engine" 3 "default_policy"
  | logLevel => inSection? "logging" 0 "level"
where
  inSection? (name : String) (index : Nat) (key : String) : Option Toml :=
    ((entries.get? name).bind Section.ofToml?).bind (Section.found? index key)

theorem memoryLimitBytes_eq (config : EngineConfig) :
    config.memoryLimitBytes = (config.memoryLimitMb.map allowed).getD none := by
  cases given : config.memoryLimitMb with
  | none => simp [EngineConfig.memoryLimitBytes, given]
  | some mb =>
      rw [Option.map_some, Option.getD_some, ← memoryLimitBytes_some]
      simp only [EngineConfig.memoryLimitBytes, given]

/-- A document that can be read sets a setting to a value. -/
def SetBy (key : Key) (document : String) (value : key.Value) : Prop :=
  ∃ entries config, Toml.parse? document = some entries ∧ ofToml? document = some config ∧
    (key.given? entries).isSome = true ∧ value = key.read config

end Key

/-- What two readers of a document make of it. -/
structure DocumentAlike (entries : Toml.Entries) (config : Config) (layer : Layer) : Prop where
  value : ∀ key : Key, key.read config = (key.inLayer? layer).getD (key.read {})
  given : ∀ key : Key, (key.inLayer? layer).isSome = (key.given? entries).isSome

theorem DocumentAlike.ofParts {entries : Toml.Entries} {config : Config} {layer : Layer}
    (debug : ReadAlike (entries.get? "debug") false config.debug layer.debug)
    (engine : EngineAlike ((entries.get? "engine").bind Section.ofToml?) config.engine layer.engine)
    (logging : LoggingAlike ((entries.get? "logging").bind Section.ofToml?) config.logging
      layer.logging) : DocumentAlike entries config layer where
  value key := by
    cases key with
    | debug => exact debug.value
    | searchPaths => exact engine.searchPaths.value
    | collectOnRelease => exact engine.collectOnRelease.value
    | defaultPolicy => exact engine.defaultPolicy.value
    | logLevel => exact logging.value
    | memoryLimit =>
        -- The one setting that the readers keep in different forms: zero means no limit.
        have bytes := Key.memoryLimitBytes_eq config.engine
        rw [← engine.memoryLimit.1] at bytes
        exact bytes
  given key := by
    cases key with
    | debug => exact debug.given
    | searchPaths => exact engine.searchPaths.given
    | collectOnRelease => exact engine.collectOnRelease.given
    | defaultPolicy => exact engine.defaultPolicy.given
    | logLevel => exact logging.given
    | memoryLimit =>
        have mapped : (layer.engine.memoryLimitMb.map Key.allowed).isSome =
            config.engine.memoryLimitMb.isSome := by
          rw [Option.isSome_map, engine.memoryLimit.1]
        exact mapped.trans engine.memoryLimit.2

theorem alike_document (document : String) :
    Alike (fun config layer => ∃ entries, Toml.parse? document = some entries ∧
      DocumentAlike entries config layer) (ofToml? document) (Layer.ofToml? document) := by
  unfold ofToml? Layer.ofToml?
  cases Toml.parse? document with
  | none => exact .refused
  | some entries =>
      refine (alike_read (.keyed entries) 0 _ _ _).bind fun _ _ debug => ?_
      refine (alike_section (.keyed entries) 1 _ alike_engine ?_).bind fun _ _ engine => ?_
      · exact ⟨⟨rfl, rfl⟩, ⟨rfl, rfl⟩, ⟨rfl, rfl⟩, ⟨rfl, rfl⟩⟩
      refine (alike_section (.keyed entries) 2 _ alike_logging ?_).bind fun _ _ logging => ?_
      · exact ⟨rfl, rfl⟩
      exact .read ⟨entries, rfl, .ofParts debug engine logging⟩

/-! ## Layers on top of one another -/

/-- Puts a document on top of a configuration, if it can be read as a layer. -/
def applyDocument (config : Config) (document : String) : Config :=
  (Layer.ofToml? document).elim config config.apply

def applyDocuments (config : Config) (documents : List String) : Config :=
  documents.foldl applyDocument config

def settings (config : Config) : (key : Key) → key.Value := fun key => key.read config

/-- A setting has the value by the last document that sets it, or that of a configuration. -/
def DecidedBy (documents : List String) (base : Config) (key : Key) (value : key.Value) : Prop :=
  History.Last (key.SetBy · value) (fun document => ∀ other, ¬ key.SetBy document other) documents ∨
    (∀ document ∈ documents, ∀ other, ¬ key.SetBy document other) ∧ value = key.read base

variable {base config : Config} {earlier documents : List String} {document : String} {key : Key}

/-- A document on top sets a setting, or leaves it as it is. -/
theorem read_applyDocument (config : Config) (document : String) (key : Key) :
    key.SetBy document (key.read (config.applyDocument document)) ∨
      (∀ other, ¬ key.SetBy document other) ∧
        key.read (config.applyDocument document) = key.read config := by
  unfold applyDocument
  rcases (alike_document document).eq_none_or_read with
    ⟨unread, layered⟩ | ⟨direct, layer, read, layered, entries, parsed, same⟩
  · refine .inr ⟨?_, by rw [layered]; rfl⟩
    rintro other ⟨_, direct, _, read, _⟩
    rw [unread] at read
    cases read
  · have value := same.value key
    have given := same.given key
    rw [layered, Option.elim_some, Key.read_apply]
    cases set : key.inLayer? layer with
    | some v =>
        rw [set] at value given
        exact .inl ⟨entries, direct, parsed, read, given.symm, value.symm⟩
    | none =>
        rw [set] at given
        refine .inr ⟨?_, rfl⟩
        rintro other ⟨entries', _, parsed', _, present, _⟩
        rw [parsed] at parsed'
        cases parsed'
        rw [← given] at present
        cases present

theorem DecidedBy.applyDocument (decided : DecidedBy earlier base key (key.read config))
    (document : String) :
    DecidedBy (earlier ++ [document]) base key (key.read (config.applyDocument document)) := by
  rcases read_applyDocument config document key with set | ⟨silent, same⟩
  · exact .inl (History.last_append_singleton.mpr (.inl set))
  · rw [same]
    rcases decided with before | ⟨none_, initial⟩
    · exact .inl (History.last_append_singleton.mpr (.inr ⟨silent, before⟩))
    · refine .inr ⟨fun other member => ?_, initial⟩
      rcases List.mem_append.mp member with before | now
      · exact none_ other before
      · rw [List.mem_singleton.mp now]
        exact silent

theorem DecidedBy.applyDocuments (decided : DecidedBy earlier base key (key.read config))
    (documents : List String) :
    DecidedBy (earlier ++ documents) base key (key.read (config.applyDocuments documents)) := by
  induction documents generalizing earlier config with
  | nil => rwa [List.append_nil]
  | cons document documents ih =>
      rw [List.append_cons]
      exact ih (decided.applyDocument document)

/-- Read as a configuration or as a layer on top of the defaults, a document gives the same
settings, or it cannot be read. Of documents that are put on top of one another as layers, the last
one that sets a setting decides it; one that cannot be read changes nothing. -/
theorem layers_read_as_configurations :
    (∀ document : String, (ofToml? document).map settings =
      (Layer.ofToml? document).map fun layer => settings (({} : Config).apply layer)) ∧
    (∀ (base : Config) (documents : List String) (key : Key),
      DecidedBy documents base key (key.read (base.applyDocuments documents))) ∧
    ∀ (base : Config) (document : String), ofToml? document = none →
      base.applyDocument document = base := by
  refine ⟨fun document => ?_, fun base documents key => ?_, fun base document refused => ?_⟩
  · rcases (alike_document document).eq_none_or_read with
      ⟨unread, layered⟩ | ⟨direct, layer, read, layered, entries, _, same⟩
    · rw [unread, layered]
      rfl
    · rw [read, layered, Option.map_some, Option.map_some]
      refine congrArg some (funext fun key => ?_)
      rw [settings, settings, Key.read_apply, same.value key]
  · have initially : DecidedBy [] base key (key.read base) := .inr ⟨by simp, rfl⟩
    exact initially.applyDocuments documents
  · rcases (alike_document document).eq_none_or_read with
      ⟨_, layered⟩ | ⟨direct, layer, read, _⟩
    · rw [applyDocument, layered, Option.elim_none]
    · rw [refused] at read
      cases read

/-- A document that cannot be read, between two that can. -/
theorem layers_read_as_configurations_unread :
    ofToml? "debug = 1" = none ∧
      (({} : Config).applyDocument "debug = 1") = {} ∧
      DecidedBy ["[engine]\nmemory_limit_mb = 0", "debug = 1", "[logging]\nlevel = \"info\""]
        { engine := { memoryLimitMb := some 5 } } .memoryLimit none := by
  have unread : ofToml? "debug = 1" = none := by decide +kernel
  refine ⟨unread, layers_read_as_configurations.2.2 {} _ unread, ?_⟩
  have decided := layers_read_as_configurations.2.1 { engine := { memoryLimitMb := some 5 } }
    ["[engine]\nmemory_limit_mb = 0", "debug = 1", "[logging]\nlevel = \"info\""] .memoryLimit
  have value : (applyDocuments { engine := { memoryLimitMb := some 5 } }
      ["[engine]\nmemory_limit_mb = 0", "debug = 1",
        "[logging]\nlevel = \"info\""]).engine.memoryLimitBytes = none := by
    decide +kernel
  rwa [Key.read, value] at decided

end Config

end ScriptHost
