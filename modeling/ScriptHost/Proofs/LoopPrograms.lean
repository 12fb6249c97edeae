import ScriptHost.Proofs.Copying
import ScriptHost.Proofs.IntactEngines
import ScriptHost.Proofs.ResultsLoops

/-!
# Programs that loop over results

Whatever a host starts on an intact engine holds nothing that is missing from the heap. If it is a
loop over the results of an invocation, it comes to the call of `pairs` with which the loop begins.
-/

set_option autoImplicit false

namespace ScriptHost

open Lua Scope

namespace Host

variable {mayPause : Bool} {engine : EngineId} {calls : Nat} {before h : Host}

/-! ## What a host starts -/

/-- Nothing that a script holds at a moment is missing from the heap. -/
def Moment.Sound (m : Moment) : Prop := ∃ V : Vault, ¬ V.tended ∧ SafeMoment V m

theorem Moment.Sound.comes {m later : Moment} (sound : m.Sound)
    (run : Comes mayPause engine m later) : later.Sound := by
  obtain ⟨V, untended, safe⟩ := sound
  exact ⟨V.on later.store.heap, untended, (safe.comes untended run).2⟩

/-- The moment at which a host starts to call a function. -/
def Moment.ofCall (h : Host) (engine : EngineId) (f : Value) (arguments : List Value) : Moment :=
  ⟨(h.engine engine).store, {}, Eval.run (Library.hostCall f arguments), h⟩

theorem Intact.sound_ofCall (intact : Intact engine h) {f : Value} {arguments : List Value}
    (function : (Vault.common (h.heap engine)).Shares f)
    (shared : (Vault.common (h.heap engine)).Shares arguments) :
    (Moment.ofCall h engine f arguments).Sound :=
  ⟨Vault.common (h.heap engine), id, intact.whole, ⟨nofun, nofun⟩,
    Vault.Yields.run (Vault.yields_hostCall function shared)⟩

/-- A program can be anything. -/
theorem Intact.sound_of_load (intact : Intact engine h) {name text : List UInt8} {f : Value}
    {loaded : Host} (loads : h.load engine name text = (.ok f, loaded)) :
    (Moment.ofCall loaded engine f []).Sound := by
  obtain ⟨maintains, shared⟩ := intact.load name text
  rw [loads] at maintains shared
  exact maintains.intact.sound_ofCall (shared f rfl) Vault.shares_nil

/-! ## The beginning of a loop -/

/-- The main function of a program that is one loop over the pairs of its results. -/
def loopMain (body : List Stat) : Proto where
  isVararg := true
  captures := [.local 0]
  body :=
    [.eachLoop 2 [.call (Carrier.global "pairs") [Carrier.global Binding.results.name] 1] body 1]

section

variable {heap middle : Heap} {a : Activation} {place : Place} {label? : Option Label}
  {subject : Subject}

theorem arrives_index_visible (orderly : Orderly heap) (name : String) :
    Arrives mayPause engine calls before heap
      (Operation.index place label? (.table heap.globals) (.ofText name))
      fun outcome after later =>
        outcome = .ok (visible heap name) ∧ after = heap ∧ later = before := by
  refine .read ?_
  unfold visible
  cases absent : (heap.rawGetText heap.globals name).isNil with
  | false =>
      rw [lookUp_table_of_value absent]
      exact .pure ⟨rfl, rfl, rfl⟩
  | true =>
      rw [lookUp_table_of_nil (Value.eq_nil_of_isNil absent), if_pos rfl]
      have link := orderly.link
      cases installed : heap.globalsMetatable? with
      | none =>
          rw [installed] at link
          rw [metamethod_of_metatable?_eq_none link, current?, installed]
          exact .pure ⟨rfl, rfl, rfl⟩
      | some m =>
          rw [installed] at link
          rw [metamethod_of_metatable?_eq_some link, current?_of_link installed]
          rcases (orderly.lookup m installed).index with none | ⟨scope, found, plain⟩
          · rw [none]
            exact .pure ⟨rfl, rfl, rfl⟩
          · rw [found]
            refine .read ?_
            rw [lookUp_table_of_plain plain.metatable? name]
            exact .pure ⟨rfl, rfl, rfl⟩

theorem arrives_global (orderly : Orderly heap)
    (environment : heap.cell (a.capturedCell 0) = .table heap.globals) (name : String) :
    Arrives mayPause engine calls before heap (a.values [] (Carrier.global name))
      fun outcome after later =>
        outcome = .ok [visible heap name] ∧ after = heap ∧ later = before := by
  rw [Carrier.global, Activation.values, Activation.values]
  refine .read ?_
  dsimp only
  rw [environment]
  exact .afterwards (arrives_index_visible orderly name) (.pure ⟨rfl, rfl, rfl⟩)

/-- What a loop over the pairs of results goes by: the library's function, and the results. -/
theorem arrives_values (displays : Displays heap subject)
    (environment : heap.cell (a.capturedCell 0) = .table heap.globals)
    (library : heap.rawGetText heap.globals "pairs" = .builtin (.base .pairs)) :
    ∃ uid, heap.resource? uid = some (.results subject.context.results) ∧
      Arrives mayPause engine calls before heap (do
          let f ← a.values [] (Carrier.global "pairs")
          let arguments ← a.values [] (Carrier.global Binding.results.name)
          return (f, arguments))
        fun outcome after later =>
          outcome = .ok ([.builtin (.base .pairs)], [.userdata uid]) ∧ after = heap ∧
            later = before := by
  obtain ⟨uid, seen, known⟩ := displays.results
  have found : visible heap "pairs" = .builtin (.base .pairs) := by
    rw [visible, library]
    rfl
  have first := @arrives_global mayPause engine calls before heap a displays.orderly environment
    "pairs"
  have second := @arrives_global mayPause engine calls before heap a displays.orderly environment
    Binding.results.name
  rw [found] at first
  rw [seen] at second
  exact ⟨uid, known, .afterwards first (.afterwards second (.pure ⟨rfl, rfl, rfl⟩))⟩

/-- The program comes to the call of `pairs`, whatever the body of its loop is. -/
theorem comes_loopMain {paused : Std.TreeMap Nat Pause} {id : ClosureId} {chunk : Chunk}
    {cell : CellId} {body : List Stat} (displays : Displays heap subject)
    (closure : heap.closure? id = some (.script chunk (loopMain body) #[cell]))
    (there : cell.index < heap.cells.size) (environment : heap.cell cell = .table heap.globals)
    (library : heap.rawGetText heap.globals "pairs" = .builtin (.base .pairs))
    (room : Machine.fits heap 0 = (true, middle)) :
    ∃ (l : TableLoop) (site : Site) (uid : UserdataId) (place : Place),
      l.block = Activation.blockOf ⟨chunk, #[cell], []⟩ body ∧ Machine.depths l.frames = (1, 1) ∧
      middle.resource? uid = some (.results subject.context.results) ∧
      Comes mayPause engine
        ⟨⟨heap, paused⟩, {}, Eval.run (Library.hostCall (.closure id) []), before⟩
        (Surroundings.moment ⟨⟨middle, paused⟩, [], before⟩ l.frames
          (Eval.call site (.builtin (.base .pairs)) [.userdata uid] (l.begin place))) := by
  let a : Activation := ⟨chunk, #[cell], []⟩
  have opened := Heap.Extends.fits heap 0
  rw [room] at opened
  have kept : middle.cell (a.capturedCell 0) = .table middle.globals := by
    rw [show a.capturedCell 0 = cell from rfl, opened.cell cell there, environment, opened.globals]
  obtain ⟨uid, known, _, middle, later, ⟨rfl, rfl, rfl⟩, comes⟩ := @arrives_values mayPause
    engine 0 before middle a subject (displays.keep opened.toSteady) kept (opened.builtin library)
  have entered : Machine.body? setting heap (.closure id) [] =
      some (Activation.enter chunk (loopMain body) #[cell] []) := by
    simp only [Machine.body?, closure]
    rfl
  let returns (values : List Value) : Action := .done (.returned values)
  obtain ⟨caught, started⟩ : ∃ caught, Machine.step setting ⟨heap, paused⟩ {}
      (Eval.run (Library.hostCall (.closure id) [])) =
        .next ⟨heap, paused⟩ ⟨[.guard caught], []⟩ (Eval.callBack (.closure id) [] returns) :=
    ⟨_, rfl⟩
  have called := @Machine.step_call setting heap (.closure id) [] _ {} entered [.guard caught]
    (show 0 + 1 < Machine.depthLimit by decide) (show 0 + 1 < Machine.nestingLimit by decide)
    paused [] returns
  rw [Machine.withRoom, room] at called
  let frames : List Frame := [.call 1 1 {} returns, .guard caught]
  let l := TableLoop.ofStatement a [] body 1 ⟨0⟩ frames (returns [])
  have opens : Machine.step setting ⟨middle, paused⟩ ⟨frames, []⟩
      (Activation.enter chunk (loopMain body) #[cell] []) =
        .next ⟨middle, paused⟩ ⟨frames, []⟩
          (a.statement [] (.eachLoop 2 [.call (Carrier.global "pairs")
            [Carrier.global Binding.results.name] 1] body 1) fun _ => returns []) := rfl
  rw [TableLoop.statement_eachLoop a [] _ _ body 1 1 ⟨0⟩ frames] at opens
  have begun := comes paused frames []
    (fun found => Eval.call (a.site 1 (Carrier.global "pairs").label?) (firstOf found.1) found.2
      (l.begin (a.place 1)))
    (show 1 + 0 < Machine.depthLimit by decide) (show 1 + 0 < Machine.nestingLimit by decide)
  exact ⟨l, _, uid, a.place 1, rfl, rfl, known,
    .head (.step started) (.head (.step called) (.head (.step opens) begun))⟩

end

/-- Without a limit of the memory, loading and starting such a program always comes that far. -/
theorem exists_loop_of_load {name text : List UInt8} {body : List Stat} {subject : Subject}
    (displays : Displays (h.heap engine) subject) (named : 0 ∉ name)
    (parses : Chunk.parse (Library.chunkDisplay name) text =
      .ok ⟨Library.chunkDisplay name, #[loopMain body]⟩)
    (library : (h.heap engine).rawGetText (h.heap engine).globals "pairs" = .builtin (.base .pairs))
    (unlimited : (h.heap engine).limit? = none) :
    ∃ f heap, h.load engine name text = (.ok f, h.modifyHeap engine fun _ => heap) ∧
      Heap.Extends (h.heap engine) heap ∧
      ∃ (s : Surroundings) (l : TableLoop) (site : Site) (uid : UserdataId) (place : Place),
        s.host = h.modifyHeap engine (fun _ => heap) ∧ s.heap = heap ∧
        (∃ a : Activation, l.block = a.blockOf body) ∧ Machine.depths l.frames = (1, 1) ∧
        heap.resource? uid = some (.results subject.context.results) ∧
        Comes mayPause engine (.ofCall (h.modifyHeap engine fun _ => heap) engine f [])
          (s.moment l.frames
            (Eval.call site (.builtin (.base .pairs)) [.userdata uid] (l.begin place))) := by
  let main := loaded name (loopMain body) (h.heap engine)
  let ready := h.modifyHeap engine fun _ => main.2
  have extends_ : Heap.Extends (h.heap engine) main.2 := extends_loaded ..
  have opened : ready.heap engine = main.2 := heap_modifyHeap (present_of_orderly displays.orderly) _
  obtain ⟨cell, closure, there, environment⟩ := closure?_loaded name (loopMain body) (h.heap engine)
  have room : Machine.fits main.2 0 = (true, main.2) := by
    rw [Machine.fits, extends_.limit?, unlimited]
  obtain ⟨l, site, uid, place, block, depths, known, comes⟩ := @comes_loopMain mayPause engine ready
    main.2 main.2 subject (ready.engine engine).store.paused _ _ _ body
    (displays.keep extends_.toSteady) closure there environment (extends_.builtin library) room
  rw [← opened] at comes
  exact ⟨_, main.2, load_of_parse named parses rfl, extends_, ⟨⟨_, _⟩, [], ready⟩, l, site, uid, place,
    rfl, opened, ⟨_, block⟩, depths, known, comes⟩

end Host

end ScriptHost
