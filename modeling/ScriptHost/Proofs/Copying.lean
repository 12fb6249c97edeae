import ScriptHost.Proofs.FreshEngines
import ScriptHost.Proofs.Injection
import ScriptHost.Proofs.ResultsAccess

/-!
# Copying what a host gives into a result

A script that copies a value of its invocation into a result gives the host back the JSON value
that the host gave it, whatever is inside.
-/

set_option autoImplicit false

namespace ScriptHost

open Lua Scope

namespace Host

variable {engine : EngineId} {calls : Nat} {before : Host} {h : Heap} {uid : UserdataId}
  {rid : ResultsId} {key : String} {json : Json} {v : Value} {place : Place}
  {label? : Option Label}

/-! ## The results object -/

theorem attains_index_results (orderly : Orderly h)
    (known : h.resource? uid = some (.results rid)) (found : before.result? rid key = some json) :
    Attains engine (calls + 1) 6 1 before h
      (Operation.index place label? (.userdata uid) (.ofText key)) fun v after later =>
        Stands after json v ∧ later = before := by
  have target : Operation.lookUp h (.userdata uid) (.ofText key) =
      .handler (.builtin (.host .resultsGet)) := by
    simp [Operation.lookUp, Heap.metamethod, known, Resource.metamethod, Value.isNil,
      Operation.Access.ofMetamethod]
  change Attains engine (calls + 1) (1 + (3 + 2 + 0)) (1 + 0) before h (Eval.read _ >>= _) _
  refine .afterwards (.read fun h => Operation.lookUp h (.userdata uid) (.ofText key)) (.refl h) ?_
  rw [target]
  refine .bind (.call (fun values => values) rfl fun middle opened =>
    attains_resultsGet (orderly.keep_all opened.toSteady) (opened.resource? _ _ known) found) ?_
  rintro values after later _ ⟨⟨v, rfl, stands⟩, rfl⟩
  exact .pure ⟨stands, rfl⟩

theorem attains_assign_results (orderly : Orderly h)
    (known : h.resource? uid = some (.results rid)) (whole : json.Exact)
    (stands : Stands h json v) :
    Attains engine (calls + 1) 6 1 before h
      (Operation.assign place label? (.userdata uid) (.ofText key) v) fun _ _ later =>
        later = before.setResult rid key json := by
  have target : Operation.lookUpTarget h (.userdata uid) (.ofText key) =
      .handler (.builtin (.host .resultsSet)) := by
    simp [Operation.lookUpTarget, Heap.metamethod, known, Resource.metamethod, Value.isNil,
      Operation.Access.ofMetamethod]
  change Attains engine (calls + 1) (1 + (3 + 2 + 0)) (1 + 0) before h (Eval.read _ >>= _) _
  refine .afterwards (.read fun h => Operation.lookUpTarget h (.userdata uid) (.ofText key))
    (.refl h) ?_
  rw [target]
  refine .bind (.call (fun values => values) rfl fun middle opened =>
    attains_resultsSet (opened.resource? _ _ known) whole (stands.keep orderly opened.toSteady)) ?_
  rintro values after later _ ⟨_, rfl⟩
  exact .pure rfl

end Host

/-! ## Programs -/

/-- Where a script finds a JSON value that its host gave it. -/
inductive Carrier where
  | host
  | activeUiDocument
  | activeDocument
  | commandData
  | selectedElements
  /-- A result that is there before the script runs. -/
  | result
deriving DecidableEq, Repr

namespace Carrier

def binding : Carrier → Binding
  | host => .host
  | activeUiDocument => .activeUiDocument
  | activeDocument => .activeDocument
  | commandData => .commandData
  | selectedElements => .selectedElements
  | result => .results

/-- The JSON value that is there for an invocation. -/
def value? (h : Host) (context : Context) : Carrier → Option Json
  | host => some context.host
  | activeUiDocument => context.documents?.map Documents.uiDocument
  | activeDocument => context.documents?.map Documents.document
  | commandData => some context.commandData
  | selectedElements => some (.arr context.selectedElements)
  | result => h.result? context.results "y"

/-- The program that copies the value into the result `x`. -/
def program (carrier : Carrier) : String :=
  "__result__.x = " ++ carrier.binding.name ++ (if carrier = result then ".y" else "")

/-- A global by its name. -/
def global (name : String) : Expr := .global (.captured 0 "_ENV") name.toUTF8 1

def expression (carrier : Carrier) : Expr :=
  if carrier = result then .index (global Binding.results.name) (.string "y".toUTF8) 1
  else global carrier.binding.name

def target : Expr := .index (global Binding.results.name) (.string "x".toUTF8) 1

def main (carrier : Carrier) : Proto where
  isVararg := true
  captures := [.local 0]
  body := [.assign [target] [carrier.expression] 1]

theorem parse_program (carrier : Carrier) (name : String) :
    Chunk.parse name (Utf8.bytes carrier.program) = .ok ⟨name, #[carrier.main]⟩ := by
  cases carrier <;> with_unfolding_all rfl

end Carrier

/-! ## Running the programs -/

section

variable {engine : EngineId} {calls : Nat} {before : Host} {h : Heap} {a : Activation}
  {context : Context} {subject : Subject}

/-- A program sees its globals through the first variable that it captures. -/
theorem evaluates_global (orderly : Orderly h)
    (environment : h.cell (a.capturedCell 0) = .table h.globals) (name : String) :
    ∃ steps ≤ 3, Evaluates Host.setting calls steps h (a.values [] (Carrier.global name))
      (.ok [visible h name]) h := by
  obtain ⟨steps, few, indexed⟩ := @Orderly.evaluates_index Host.setting calls h (a.place 1)
    (some ⟨"upvalue", "_ENV"⟩) orderly name
  have read : Evaluates Host.setting calls (1 + 0) h (a.values [] (.captured 0 "_ENV"))
      (.ok [.table h.globals]) h := by
    rw [Activation.values]
    refine (Evaluates.read fun h => h.cell (a.capturedCell 0)).bind ?_
    rw [environment]
    exact .pure _
  refine ⟨1 + 0 + (steps + 0), by omega, ?_⟩
  rw [Carrier.global, Activation.values]
  exact read.bind (indexed.bind (.pure _))

/-- What scripts see of an invocation. -/
structure Displays (h : Heap) (subject : Subject) : Prop where
  orderly : Orderly h
  shown : ∀ binding : Binding, ∃ own, Untouched own (fun _ _ => False) h ∧
    Shows h own subject (visible h binding.name) binding

theorem Scope.Injected.displays {after : Heap} {guard : BindingGuard} (ready : Ready h)
    (injected : Injected h after guard subject) : Displays after subject := by
  obtain ⟨m, _, below, keeps⟩ := injected.keeps
  have unshadowed : Unshadowed after := by
    refine ready.unshadowed.keep ready.orderly keeps fun binding => ?_
    exact not_lookupField_name m _ binding
  have globals : after.globals.index < guard.scope.index + 1 := by
    rw [keeps.globals]
    exact Nat.lt_succ_of_lt (Nat.lt_of_lt_of_le ready.orderly.globals injected.fresh)
  refine ⟨injected.orderly, fun binding => ⟨Within (guard.scope.index + 1) after.tables.size,
    ?_, ?_⟩⟩
  · exact untouched_within globals (Nat.le_refl _) fun _ _ => False.elim
  · have seen : visible after binding.name = after.rawGetText guard.scope binding.name := by
      rw [visible, unshadowed binding, injected.current]
      rfl
    rw [seen]
    exact injected.shown binding

/-- Making new objects shows nothing else to scripts. -/
theorem Displays.keep {after : Heap} (displays : Displays h subject)
    (steady : Heap.Steady (fun _ _ => False) h after) : Displays after subject where
  orderly := displays.orderly.keep_all steady
  shown binding := by
    obtain ⟨own, untouched, shown⟩ := displays.shown binding
    rw [displays.orderly.visible_keep steady.toKeeps
      (displays.orderly.current?_keep steady fun _ _ _ => id) fun _ => id]
    exact ⟨own, untouched.keep steady,
      shown.keep displays.orderly steady.toKeeps untouched fun _ mine => mine⟩

theorem Displays.results (displays : Displays h subject) :
    ∃ uid, visible h Binding.results.name = .userdata uid ∧
      h.resource? uid = some (.results subject.context.results) := by
  obtain ⟨_, _, refers⟩ := displays.shown .results
  exact refers

theorem Displays.stands (displays : Displays h subject) {carrier : Carrier} {json : Json}
    (given : carrier ≠ .result) (carries : carrier.value? before subject.context = some json) :
    Host.Stands h json (visible h carrier.binding.name) := by
  obtain ⟨own, untouched, shown⟩ := displays.shown carrier.binding
  refine ⟨own, untouched, ?_⟩
  cases carrier with
  | result => exact absurd rfl given
  | host => exact Option.some.inj carries ▸ shown
  | commandData => exact Option.some.inj carries ▸ shown
  | selectedElements => exact Option.some.inj carries ▸ shown
  | activeUiDocument =>
      simp only [Carrier.value?] at carries
      simp only [Carrier.binding, Shows, carries] at shown
      exact shown
  | activeDocument =>
      simp only [Carrier.value?] at carries
      simp only [Carrier.binding, Shows, carries] at shown
      exact shown

variable {carrier : Carrier} {json : Json}

theorem attains_expression (displays : Displays h subject)
    (environment : h.cell (a.capturedCell 0) = .table h.globals)
    (carries : carrier.value? before subject.context = some json) :
    Host.Attains engine (calls + 1) 9 1 before h (a.value [] carrier.expression)
      fun v after later => Host.Stands after json v ∧ later = before := by
  unfold Activation.value
  by_cases given : carrier = .result
  · subst given
    obtain ⟨uid, seen, known⟩ := displays.results
    obtain ⟨steps, few, read⟩ := @evaluates_global (calls + 1) h a displays.orderly environment
      Binding.results.name
    rw [seen] at read
    have key : Evaluates Host.setting (calls + 1) 0 h (a.values [] (.string "y".toUTF8))
        (.ok [.ofText "y"]) h := .pure _
    have copied : Host.Attains engine (calls + 1) (steps + (0 + (6 + 0))) (1 + 0) before h
        (a.values [] Carrier.result.expression) fun values after later =>
          (∃ v, values = [v] ∧ Host.Stands after json v) ∧ later = before := by
      rw [Carrier.expression, if_pos rfl, Activation.values]
      refine .afterwards read (.refl h) (.afterwards key (.refl h)
        (.bind (Host.attains_index_results displays.orderly known carries) ?_))
      rintro v after later _ ⟨stands, rfl⟩
      exact .pure ⟨⟨v, rfl, stands⟩, rfl⟩
    have first : Host.Attains engine (calls + 1) (steps + (0 + (6 + 0)) + 0) (1 + 0 + 0) before h
        (a.values [] Carrier.result.expression >>= fun values => pure (firstOf values))
        fun v after later => Host.Stands after json v ∧ later = before := by
      refine copied.bind ?_
      rintro _ after later _ ⟨⟨v, rfl, stands⟩, rfl⟩
      exact .pure ⟨stands, rfl⟩
    exact first.mono (by omega) (by decide) fun _ _ _ _ holds => holds
  · obtain ⟨steps, few, read⟩ := @evaluates_global (calls + 1) h a displays.orderly environment
      carrier.binding.name
    rw [Carrier.expression, if_neg given]
    have copied : Host.Attains engine (calls + 1) (steps + 0) 0 before h
        (a.values [] (Carrier.global carrier.binding.name) >>= fun values => pure (firstOf values))
        fun v after later => Host.Stands after json v ∧ later = before :=
      .afterwards read (.refl h) (.pure ⟨displays.stands given carries, rfl⟩)
    exact copied.mono (by omega) (by decide) fun _ _ _ _ holds => holds

theorem attains_statement (displays : Displays h subject)
    (environment : h.cell (a.capturedCell 0) = .table h.globals)
    (carries : carrier.value? before subject.context = some json) (whole : json.Exact) :
    Host.Attains engine (calls + 1) 20 2 before h
      (a.statement [] (.assign [Carrier.target] [carrier.expression] 1))
      fun _ _ later => later = before.setResult subject.context.results "x" json := by
  obtain ⟨uid, seen, known⟩ := displays.results
  obtain ⟨steps, few, read⟩ := @evaluates_global (calls + 1) h a displays.orderly environment
    Binding.results.name
  rw [seen] at read
  have object : Evaluates Host.setting (calls + 1) (steps + 0) h
      (a.value [] (Carrier.global Binding.results.name)) (.ok (.userdata uid)) h :=
    read.bind (.pure _)
  have key : Evaluates Host.setting (calls + 1) 0 h (a.value [] (.string "x".toUTF8))
      (.ok (.ofText "x")) h := .pure _
  let place : Activation.Target := .entry (.userdata uid) (.ofText "x")
    (Carrier.global Binding.results.name).label? 1
  have aimed : Evaluates Host.setting (calls + 1) (steps + 0 + (0 + 0)) h
      (a.target [] 1 Carrier.target) (.ok place) h :=
    object.bind (key.bind (.pure place))
  have stored : Host.Attains engine (calls + 1) (steps + 0 + (0 + 0) + (9 + 6)) (1 + 1) before h
      (a.target [] 1 Carrier.target >>= fun t => a.value [] carrier.expression >>= fun v =>
        a.store v t) fun _ _ later => later = before.setResult subject.context.results "x" json := by
    refine .afterwards aimed (.refl h) (.bind (attains_expression displays environment carries) ?_)
    rintro v middle between extends_ ⟨stands, rfl⟩
    exact Host.attains_assign_results (displays.keep extends_.toSteady).orderly
      (extends_.resource? _ _ known) whole stands
  have opened : a.statement [] (.assign [Carrier.target] [carrier.expression] 1) =
      a.target [] 1 Carrier.target >>= fun t => a.value [] carrier.expression >>= fun v =>
        a.store v t := rfl
  rw [opened]
  exact stored.mono (by omega) (by decide) fun _ _ _ _ holds => holds

theorem attains_main {id : ClosureId} {chunk : Chunk} {cell : CellId}
    (displays : Displays h subject)
    (closure : h.closure? id = some (.script chunk carrier.main #[cell]))
    (there : cell.index < h.cells.size) (environment : h.cell cell = .table h.globals)
    (carries : carrier.value? before subject.context = some json) (whole : json.Exact) :
    Host.Attains engine (calls + 1 + 1) (1 + 20 + 2 + 2) 2 before h
      (Library.hostCall (.closure id) []) fun values _ later =>
        values = [] ∧ later = before.setResult subject.context.results "x" json := by
  let a : Activation := { chunk, captured := #[cell], varargs := [] }
  let body : Eval Unit := Eval.read (fun _ => ()) >>= fun _ =>
    a.statement [] (.assign [Carrier.target] [carrier.expression] 1)
  have entered : Machine.body? Host.setting h (.closure id) [] =
      some (body fun _ => .done (.returned [])) := by
    simp only [Machine.body?, closure]
    rfl
  refine .hostCall (.call (fun _ => []) entered fun middle opened => ?_)
  have kept : middle.cell (a.capturedCell 0) = .table middle.globals := by
    rw [show a.capturedCell 0 = cell from rfl, opened.cell cell there, environment, opened.globals]
  refine .afterwards (.read fun _ => ()) (.refl middle) ?_
  exact (attains_statement (displays.keep opened.toSteady) kept carries whole).mono (by omega)
    (by omega) fun _ _ _ _ same => ⟨rfl, same⟩

end

namespace Host

variable {engine : EngineId} {h : Host} {carrier : Carrier} {json : Json} {subject : Subject}
  {name : List UInt8}

/-- The main function of a program, on the heap on which the program was loaded. -/
def loaded (name : List UInt8) (main : Proto) (h : Heap) : ClosureId × Heap :=
  let (cell, h) := h.newCell (.table h.globals)
  h.newClosure (.script ⟨Library.chunkDisplay name, #[main]⟩ main #[cell])

theorem load_of_parse {main : Proto} {text : List UInt8} (named : 0 ∉ name)
    (parses : Chunk.parse (Library.chunkDisplay name) text =
      .ok ⟨Library.chunkDisplay name, #[main]⟩) (captures : main.captures = [.local 0]) :
    h.load engine name text = (.ok (.closure (loaded name main (h.heap engine)).1),
      h.modifyHeap engine fun _ => (loaded name main (h.heap engine)).2) := by
  have unmarked : name.findIdx? (· = 0) = none := by
    rw [List.findIdx?_eq_none_iff]
    intro b member
    have marked : b ≠ 0 := fun zero => named (zero ▸ member)
    simpa using marked
  have last : (#[main] : Array Proto)[(#[main] : Array Proto).size - 1]?.getD {} = main := rfl
  simp only [load, unmarked, Library.loadText, parses, last, captures]
  rfl

theorem extends_loaded (name : List UInt8) (main : Proto) (h : Heap) :
    Heap.Extends h (loaded name main h).2 :=
  (Heap.Extends.newCell ..).trans (Heap.Extends.newClosure ..)

/-- The function is there, and its first variable holds the globals. -/
theorem closure?_loaded (name : List UInt8) (main : Proto) (h : Heap) :
    ∃ cell : CellId, (loaded name main h).2.closure? (loaded name main h).1 =
        some (.script ⟨Library.chunkDisplay name, #[main]⟩ main #[cell]) ∧
      cell.index < (loaded name main h).2.cells.size ∧
      (loaded name main h).2.cell cell = .table (loaded name main h).2.globals := by
  refine ⟨⟨h.cells.size⟩, Array.getElem?_push_size, ?_, ?_⟩
  · simp [loaded, Heap.newCell, Heap.newClosure]
  · simp [loaded, Heap.newCell, Heap.newClosure, Heap.cell]

theorem attains_loaded {heap : Heap} (displays : Displays heap subject)
    (carries : carrier.value? h subject.context = some json) (whole : json.Exact) :
    Attains engine 2 25 2 h (loaded name carrier.main heap).2
      (Library.hostCall (.closure (loaded name carrier.main heap).1) []) fun values _ later =>
        values = [] ∧ later = h.setResult subject.context.results "x" json := by
  obtain ⟨cell, closure, there, environment⟩ := closure?_loaded name carrier.main heap
  have kept := displays.keep (extends_loaded name carrier.main heap).toSteady
  exact attains_main kept closure there environment carries whole

/-- A program reports what it copies, unless the memory runs out. -/
theorem exec_program (displays : Displays (h.heap engine) subject) (named : 0 ∉ name)
    (carries : carrier.value? h subject.context = some json) (whole : json.Exact) :
    (∃ after, h.exec engine name (Utf8.bytes carrier.program) = (.ok [], after) ∧
      after.results = (h.setResult subject.context.results "x" json).results) ∨
    (h.heap engine).limit? ≠ none ∧
      ∃ after, h.exec engine name (Utf8.bytes carrier.program) = (.error (.ofRun .memory), after) := by
  have present := present_of_orderly displays.orderly
  let ready := h.modifyHeap engine fun _ => (loaded name carrier.main (h.heap engine)).2
  have opened : ready.heap engine = (loaded name carrier.main (h.heap engine)).2 :=
    heap_modifyHeap present _
  have attains : Attains engine 2 25 2 ready (ready.heap engine)
      (Library.hostCall (.closure (loaded name carrier.main (h.heap engine)).1) [])
      fun values _ later =>
        values = [] ∧ later = ready.setResult subject.context.results "x" json := by
    rw [opened]
    exact attains_loaded displays carries whole
  rw [exec, load_of_parse named (carrier.parse_program _) rfl]
  rcases perform_of_attains attains (by decide) (by decide) (by decide) with
    ⟨values, after, later, performed, _, _, rfl, rfl⟩ | ⟨limited, after, later, performed⟩
  · exact .inl ⟨_, performed, rfl⟩
  · rw [opened] at limited
    exact .inr ⟨limited, _, performed⟩

theorem result?_setResult {id : ResultsId} {key : String} (there : id.index < h.results.size)
    (v : Json) : (h.setResult id key v).result? id key = some v := by
  rw [result?, resultsOf, setResult, modifyResults]
  simp only [Array.getElem?_modify, if_true, Array.getElem?_eq_getElem there, Option.map_some,
    Option.getD_some]
  rw [Ordered.find?_insert, if_pos rfl]

/-- A script that copies what its host gave it into a result gives it back as it was. -/
theorem copied_unchanged {after : Host} {context : Context} {cached : Bool}
    {manager? : Option ManagerId} {guard : BindingGuard} (ready : Ready (h.heap engine))
    (injects : h.inject engine context cached manager? = (.ok guard, after))
    (there : context.results.index < after.results.size) (named : 0 ∉ name)
    (carries : carrier.value? after context = some json) (whole : json.Exact) :
    (∃ last, after.exec engine name (Utf8.bytes carrier.program) = (.ok [], last) ∧
      last.result? context.results "x" = some json) ∨
    (after.heap engine).limit? ≠ none ∧ ∃ last,
      after.exec engine name (Utf8.bytes carrier.program) = (.error (.ofRun .memory), last) := by
  have present := present_of_orderly ready.orderly
  rcases inject_of_orderly present ready.orderly context cached manager? with
    ⟨e, failed, _⟩ | ⟨other, contextId, _, _, _, injected⟩
  · rw [injects] at failed
    cases failed
  · rw [injects] at injected
    have displays : Displays (after.heap engine) _ := injected.displays ready
    refine (exec_program displays named carries whole).imp_left ?_
    rintro ⟨last, ran, results⟩
    refine ⟨last, ran, ?_⟩
    rw [result?, resultsOf, results]
    exact result?_setResult there json

/-- A host with a new engine and with room for the results of one script. -/
def unusedEngine : Except EngineError EngineId × Host :=
  ({ writers := #[.discard], results := #[[]], files := default } : Host).newEngine {}

/-- A context whose host value has empty and nested parts. -/
def nestedContext : Context where
  output := ⟨"output", ⟨0⟩⟩
  host := .obj [("array", .arr []), ("list", .arr [.int 1, .null, .arr [.obj []], .str "x"]),
    ("null", .null), ("object", .obj [])]
  command := { name := "tool" }
  results := ⟨0⟩

theorem copied_unchanged_nested :
    ∃ guard after last, unusedEngine.2.inject ⟨0⟩ nestedContext false none = (.ok guard, after) ∧
      after.exec ⟨0⟩ [] (Utf8.bytes "__result__.x = __host__") = (.ok [], last) ∧
      last.result? ⟨0⟩ "x" = some nestedContext.host := by
  have facts : unusedEngine.1.toOption = some ⟨0⟩ ∧
      (unusedEngine.2.inject ⟨0⟩ nestedContext false none).1.toOption.isSome = true ∧
      (unusedEngine.2.inject ⟨0⟩ nestedContext false none).2.results.size = 1 ∧
      ((unusedEngine.2.inject ⟨0⟩ nestedContext false none).2.heap ⟨0⟩).limit?.isNone = true := by
    decide +kernel
  obtain ⟨made, succeeds, results, unlimited⟩ := facts
  have ready : Ready (unusedEngine.2.heap ⟨0⟩) := by
    cases created : unusedEngine with
    | mk result after =>
        rw [created] at made
        cases result with
        | error e => cases made
        | ok engine =>
            obtain rfl : engine = ⟨0⟩ := Option.some.inj made
            exact (unused_newEngine created).ready
  generalize unusedEngine.2 = h at succeeds results unlimited ready ⊢
  cases injects : h.inject ⟨0⟩ nestedContext false none with
  | mk result after =>
      rw [injects] at succeeds results unlimited
      cases result with
      | error e => cases succeeds
      | ok guard =>
          have ascending : (["array", "list", "null", "object"] : List String).Pairwise (· < ·) := by
            decide
          have whole : nestedContext.host.Exact := by
            refine ⟨ascending, ?_⟩
            simp [Json.Exact, Json.ExactItems, Json.ExactEntries, Ordered.Ascending, Ordered.keys]
          have carries : Carrier.host.value? after nestedContext = some nestedContext.host := rfl
          have there : nestedContext.results.index < after.results.size := by
            rw [results]
            decide
          rcases copied_unchanged ready injects there List.not_mem_nil carries whole with
            ⟨last, ran, read⟩ | ⟨limited, _⟩
          · exact ⟨guard, after, last, rfl, ran, read⟩
          · exact absurd (Option.isNone_iff_eq_none.mp unlimited) limited

end Host

end ScriptHost
