import ScriptHost.CommandLine
import ScriptHost.Proofs.HiddenBindings

/-!
# The flag for a missing document

Whether scripts may go by the flag that says that no document is open. The flag is made from the
pair of documents, the handles from the JSON values in it, and a null among these becomes the
value by which an absent document is read.
-/

set_option autoImplicit false

namespace ScriptHost

open Lua Heap Scope

/-- The flag is true exactly if both documents are absent, and false exactly if both are there. -/
structure Reliable (flag uiDocument document : Value) : Prop where
  closed : flag = .boolean true ↔ uiDocument.isAbsent = true ∧ document.isAbsent = true
  opened : flag = .boolean false ↔ uiDocument.isAbsent = false ∧ document.isAbsent = false

instance : (json : Json) → Decidable (json = .null)
  | .null => isTrue rfl
  | .bool _ | .int _ | .float _ | .str _ | .arr _ | .obj _ => isFalse nofun

instance (b : Bool) : (v : Value) → Decidable (v = .boolean b)
  | .boolean other => decidable_of_iff (other = b) ⟨congrArg Value.boolean, Value.boolean.inj⟩
  | .nil | .integer _ | .float _ | .string _ | .null | .table _ | .closure _ | .builtin _
  | .userdata _ | .coroutine _ => isFalse nofun

/-- If there are documents, none of them is null. -/
def Context.DocumentsPresent (context : Context) : Prop :=
  ∀ documents, context.documents? = some documents →
    documents.uiDocument ≠ .null ∧ documents.document ≠ .null

instance (context : Context) : Decidable context.DocumentsPresent :=
  inferInstanceAs (Decidable (∀ documents ∈ context.documents?,
    documents.uiDocument ≠ .null ∧ documents.document ≠ .null))

/-- What scripts on an engine read about documents is reliable. -/
def Host.FlagReliable (h : Host) (engine : EngineId) : Prop :=
  ∃ flag uiDocument document,
    h.binding engine .noActiveDocument = (.ok flag, h) ∧
    h.binding engine .activeUiDocument = (.ok uiDocument, h) ∧
    h.binding engine .activeDocument = (.ok document, h) ∧
    Reliable flag uiDocument document

section

variable {heap : Heap} {own : TableId → Prop} {subject : Subject} {h : Host} {engine : EngineId}
  {flag uiDocument document v : Value}

/-- Null is the only JSON value that reads as absent. -/
theorem Scope.Denotes.isAbsent_iff {json : Json} (denotes : Denotes heap own json v) :
    v.isAbsent = true ↔ json = .null := by
  cases json with
  | null => simp [show v = .null from denotes, Value.isAbsent]
  | bool b => simp [show v = .boolean b from denotes, Value.isAbsent]
  | int n =>
      rw [show v = Conversion.ofInt n from denotes, Conversion.ofInt]
      split <;> simp [Value.isAbsent]
  | float x => simp [show v = .float x from denotes, Value.isAbsent]
  | str s => simp [show v = .ofText s from denotes, Value.ofText, Value.isAbsent]
  | arr items =>
      obtain ⟨id, _, rfl, _⟩ := denotes
      simp [Value.isAbsent]
  | obj entries =>
      obtain ⟨id, _, rfl, _⟩ := denotes
      simp [Value.isAbsent]

/-- An invocation reads a reliable flag unless one of its documents is null. -/
theorem reliable_iff_of_shows (flags : Scope.Shows heap own subject flag .noActiveDocument)
    (ui : Scope.Shows heap own subject uiDocument .activeUiDocument)
    (plain : Scope.Shows heap own subject document .activeDocument) :
    Reliable flag uiDocument document ↔ subject.context.DocumentsPresent := by
  have flags : flag = .boolean !subject.context.hasDocument := flags
  have ui := Scope.Denotes.isAbsent_iff ui
  have plain := Scope.Denotes.isAbsent_iff plain
  subst flags
  rw [Context.hasDocument, Context.DocumentsPresent]
  generalize subject.context.documents? = documents? at ui plain ⊢
  cases documents? with
  | none =>
      have ui : uiDocument.isAbsent = true := ui.mpr rfl
      have plain : document.isAbsent = true := plain.mpr rfl
      exact ⟨fun _ _ open_ => (nomatch open_),
        fun _ => ⟨by simp [ui, plain], by simp [ui, plain]⟩⟩
  | some documents =>
      change _ ↔ documents.uiDocument = .null at ui
      change _ ↔ documents.document = .null at plain
      constructor
      · rintro ⟨_, opened⟩ _ same
        obtain rfl := Option.some.inj same
        obtain ⟨uiThere, there⟩ := opened.mp rfl
        exact ⟨fun null => by simp [ui.mpr null] at uiThere,
          fun null => by simp [plain.mpr null] at there⟩
      · intro present
        obtain ⟨uiThere, there⟩ := present documents rfl
        rw [Ne, ← ui, Bool.not_eq_true] at uiThere
        rw [Ne, ← plain, Bool.not_eq_true] at there
        exact ⟨by simp [uiThere], by simp [uiThere, there]⟩

/-- Without bindings there is no flag to go by. -/
theorem not_reliable_null : ¬ Reliable .null .null .null := fun reliable =>
  nomatch reliable.closed.mpr ⟨rfl, rfl⟩

/-- Reading a binding changes nothing and has one answer. -/
theorem Host.flagReliable_iff (flags : h.binding engine .noActiveDocument = (.ok flag, h))
    (ui : h.binding engine .activeUiDocument = (.ok uiDocument, h))
    (plain : h.binding engine .activeDocument = (.ok document, h)) :
    h.FlagReliable engine ↔ Reliable flag uiDocument document := by
  constructor
  · rintro ⟨_, _, _, flag', ui', plain', reliable⟩
    rw [flags] at flag'
    rw [ui] at ui'
    rw [plain] at plain'
    cases flag'
    cases ui'
    cases plain'
    exact reliable
  · exact fun reliable => ⟨_, _, _, flags, ui, plain, reliable⟩

end

namespace InvocationHistory

open Acquisition

variable {s : InvocationHistory}

theorem Coherent.flagReliable_iff (coherent : Coherent s) {i : Nat} {a : Acquisition}
    (found : s.log[i]? = some a) (live : a.isLive = true)
    (latest : (s.log.drop (i + 1)).any (liveOn a.invocation.engine) = false) :
    s.host.FlagReliable a.invocation.engine ↔
      (s.log.drop (i + 1)).any (overtakenOn a.invocation.engine) = false ∧
        a.invocation.context.DocumentsPresent := by
  have live := Option.isNone_iff_eq_none.mp live
  obtain ⟨split, _⟩ := exists_log_split found
  have sound := coherent.sound a.invocation.engine (by
    rw [split, onEngine_split rfl]
    simp)
  have orderly := sound.ready.orderly
  rw [split, onEngine_split rfl] at sound
  obtain ⟨contextId, own, _, reads⟩ := sound.reads live ((any_isLive_onEngine ..).trans latest)
  have overtaken : (onEngine a.invocation.engine (s.log.drop (i + 1))).any isOvertaken =
      (s.log.drop (i + 1)).any (overtakenOn a.invocation.engine) := by
    rw [onEngine, List.any_reverse, List.any_filter]
    rfl
  rw [overtaken] at reads
  rw [Host.flagReliable_iff (Host.global_of_orderly orderly _) (Host.global_of_orderly orderly _)
    (Host.global_of_orderly orderly _)]
  have flags := reads .noActiveDocument
  have ui := reads .activeUiDocument
  have plain := reads .activeDocument
  cases blank : (s.log.drop (i + 1)).any (overtakenOn a.invocation.engine) with
  | true =>
      rw [blank, if_pos rfl] at flags ui plain
      rw [flags, ui, plain]
      simp [not_reliable_null]
  | false =>
      rw [blank] at flags ui plain
      rw [reliable_iff_of_shows flags ui plain]
      simp [subject]

end InvocationHistory

namespace InjectionHistory

variable {h : Host} {engine : EngineId}

/-- No global has the name of one of the bindings about documents. -/
def FlagUnhidden (h : Host) (engine : EngineId) : Prop :=
  ∀ binding ∈ [Binding.noActiveDocument, .activeUiDocument, .activeDocument],
    hider h engine binding = .nil

theorem Shows.flagReliable_iff {context : Context} {cached : Bool} {manager? : Option ManagerId}
    (shows_ : Shows h engine context cached manager?) (unhidden : FlagUnhidden h engine) :
    h.FlagReliable engine ↔ context.DocumentsPresent := by
  obtain ⟨contextId, own, _, reads⟩ := shows_
  have seen : ∀ binding ∈ [Binding.noActiveDocument, .activeUiDocument, .activeDocument],
      ∃ v, h.binding engine binding = (.ok v, h) ∧
        Scope.Shows (h.heap engine) own { context, contextId, cached, manager? } v binding := by
    intro binding member
    obtain ⟨v, read, shown⟩ := reads binding
    rw [unhidden binding member] at shown
    exact ⟨v, read, shown⟩
  obtain ⟨flag, readFlag, flags⟩ := seen .noActiveDocument (by simp)
  obtain ⟨uiDocument, readUi, ui⟩ := seen .activeUiDocument (by simp)
  obtain ⟨document, readPlain, plain⟩ := seen .activeDocument (by simp)
  rw [Host.flagReliable_iff readFlag readUi readPlain]
  exact reliable_iff_of_shows flags ui plain

end InjectionHistory

/-- The document of a script is the document of its options, in both roles. -/
theorem Context.documentsPresent_ofScript (script : Path) (options : RunOptions) (output : Stream)
    (results : ResultsId) : (Context.ofScript script options output results).DocumentsPresent ↔
      options.document? ≠ some .null := by
  rw [Context.DocumentsPresent, Context.ofScript]
  cases options.document? with
  | none => simp
  | some document => simp

/-- While an invocation is the innermost one on its engine, its flag is reliable exactly if it has
no documents or two that are not null, provided that scripts see its bindings at all: none that was
acquired later has been overtaken, and no global of the name hides them. The command lets a call
pass null. -/
theorem document_flag_reliable_iff (start : Host) :
    (∀ s, OutputHistory.Idle start → InvocationHistory.Run start s →
      ∀ i a, s.log[i]? = some a → a.isLive = true →
        (s.log.drop (i + 1)).any (Acquisition.liveOn a.invocation.engine) = false →
        (s.host.FlagReliable a.invocation.engine ↔
          (s.log.drop (i + 1)).any (Acquisition.overtakenOn a.invocation.engine) = false ∧
            a.invocation.context.DocumentsPresent)) ∧
    (∀ s, InjectionHistory.Run true ⟨start, []⟩ s →
      (∀ engine context cached manager? guard after,
        InjectionHistory.Covered true start s engine →
        s.host.inject engine context cached manager? = (.ok guard, after) →
        InjectionHistory.FlagUnhidden after engine →
        (after.FlagReliable engine ↔ context.DocumentsPresent)) ∧
      (∀ id context invocation after, InjectionHistory.Admits true s id context →
        s.host.acquire id context = (.ok invocation, after) →
        InjectionHistory.FlagUnhidden after invocation.engine →
        (after.FlagReliable invocation.engine ↔ context.DocumentsPresent))) ∧
    (∀ script arguments config output results,
      (Context.ofScript script (CommandLine.optionsOf arguments config) output
        results).DocumentsPresent ↔ arguments.document? ≠ some .null) := by
  refine ⟨?_, ?_, ?_⟩
  · intro s idle run i a found live latest
    exact (run.coherent idle).flagReliable_iff found live latest
  · intro s run
    have coherent := InjectionHistory.coherent_of_run run
    constructor
    · intro engine context cached manager? guard after covered injects unhidden
      exact (coherent.shows_inject covered injects).flagReliable_iff unhidden
    · intro id context invocation after admits acquires unhidden
      exact (coherent.shows_acquire admits acquires).flagReliable_iff unhidden
  · intro script arguments config output results
    exact Context.documentsPresent_ofScript script _ output results

/-- The context of a script that is called with a document. -/
def documentContext (document : Json) : Context :=
  .ofScript (.ofString "tool.lua") { document? := some document } ⟨"tool", ⟨0⟩⟩ ⟨0⟩

/-- A host with the invocation of a script that is called with a document. -/
def documentInvoked (document : Json) : InvocationHistory :=
  InvocationHistory.acquire ⟨InvocationHistory.oneManager, []⟩ ⟨0⟩ (documentContext document)

/-- A call with a document has a reliable flag, and one with null has none. -/
theorem document_flag_reliable_iff_called :
    (∃ s a, InvocationHistory.Run InvocationHistory.oneManager s ∧ s.log[0]? = some a ∧
      a.isLive = true ∧ (s.log.drop 1).any (Acquisition.liveOn a.invocation.engine) = false ∧
      s.host.FlagReliable a.invocation.engine) ∧
    ∃ guard after, InjectionHistory.oneEngine.inject ⟨0⟩ (documentContext .null) false none =
        (.ok guard, after) ∧
      InjectionHistory.FlagUnhidden after ⟨0⟩ ∧ ¬ after.FlagReliable ⟨0⟩ := by
  constructor
  · have run : InvocationHistory.Run InvocationHistory.oneManager (documentInvoked (.str "Plan")) :=
      .step .start (.acquire ⟨0⟩ _ (InvocationHistory.admits_of_bare rfl (by decide +kernel)))
    have facts : (documentInvoked (.str "Plan")).log[0]?.map (fun a => (a.isLive,
          a.invocation.engine, decide a.invocation.context.DocumentsPresent)) =
          some (true, ⟨0⟩, true) ∧
        ((documentInvoked (.str "Plan")).log.drop 1).any (Acquisition.liveOn ⟨0⟩) = false ∧
        ((documentInvoked (.str "Plan")).log.drop 1).any (Acquisition.overtakenOn ⟨0⟩) = false := by
      decide +kernel
    generalize documentInvoked (.str "Plan") = s at run facts
    obtain ⟨described, latest, overtaken⟩ := facts
    obtain ⟨a, found, described⟩ := Option.map_eq_some_iff.mp described
    simp only [Prod.mk.injEq] at described
    obtain ⟨live, engine, present⟩ := described
    rw [← engine] at latest overtaken
    have reliable := ((document_flag_reliable_iff _).1 s InvocationHistory.idle_oneManager run 0 a
      found live latest).mpr ⟨overtaken, of_decide_eq_true present⟩
    exact ⟨s, a, run, found, live, latest, reliable⟩
  · have facts : (InjectionHistory.oneEngine.inject ⟨0⟩ (documentContext .null) false
          none).1.toOption.isSome = true ∧
        [Binding.noActiveDocument, .activeUiDocument, .activeDocument].all (fun binding =>
          (InjectionHistory.hider (InjectionHistory.oneEngine.inject ⟨0⟩ (documentContext .null)
            false none).2 ⟨0⟩ binding).isNil) = true := by
      decide +kernel
    obtain ⟨succeeds, free⟩ := facts
    cases injects : InjectionHistory.oneEngine.inject ⟨0⟩ (documentContext .null) false none with
    | mk result after =>
        rw [injects] at succeeds free
        cases result with
        | error e => cases succeeds
        | ok guard =>
            have unhidden : InjectionHistory.FlagUnhidden after ⟨0⟩ := fun binding member =>
              Value.eq_nil_of_isNil (List.all_eq_true.mp free binding member)
            have reliable := ((document_flag_reliable_iff _).2.1 ⟨InjectionHistory.oneEngine, []⟩
              .refl).1 ⟨0⟩ _ false none guard after (.inl InjectionHistory.fit_oneEngine) injects
              unhidden
            refine ⟨guard, after, rfl, unhidden, fun claimed => ?_⟩
            exact (reliable.mp claimed ⟨.null, .null⟩ rfl).1 rfl

/-- The flag of a call with null says that a document is open, and both documents are absent. -/
theorem flag_of_null_document :
    ((documentInvoked .null).host.binding ⟨0⟩ .noActiveDocument).1.toOption =
        some (.boolean false) ∧
      ((documentInvoked .null).host.isAbsent ⟨0⟩ .activeUiDocument).1.toOption = some true ∧
      ((documentInvoked .null).host.isAbsent ⟨0⟩ .activeDocument).1.toOption = some true ∧
      (documentInvoked .null).log.map Acquisition.isLive = [true] := by
  have facts : ((documentInvoked .null).host.binding ⟨0⟩ .noActiveDocument).1.toOption.map
        (fun flag => decide (flag = .boolean false)) = some true ∧
      ((documentInvoked .null).host.isAbsent ⟨0⟩ .activeUiDocument).1.toOption = some true ∧
      ((documentInvoked .null).host.isAbsent ⟨0⟩ .activeDocument).1.toOption = some true ∧
      (documentInvoked .null).log.map Acquisition.isLive = [true] := by
    decide +kernel
  obtain ⟨flags, absent⟩ := facts
  obtain ⟨flag, read, isFalse⟩ := Option.map_eq_some_iff.mp flags
  exact ⟨read.trans (congrArg some (of_decide_eq_true isFalse)), absent⟩

end ScriptHost
