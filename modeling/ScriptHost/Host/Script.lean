import ScriptHost.Error
import ScriptHost.Host.Reply
import ScriptHost.Binding

/-!
# Running scripts

A script runs on the heap of its engine and asks its host for everything else. It may pause in a
function that the host gave it; the host can then use the engine as it likes before the script
goes on.
-/

set_option autoImplicit false

namespace ScriptHost

/-- How far a script has come. -/
inductive Progress where
  | ended (result : Except Lua.Thrown (List Lua.Value))
  /-- The script has used up its steps. -/
  | exhausted
  /-- The script waits for a function of the host. -/
  | calling (function : Nat) (stack : Lua.Stack) (next : Bool → Lua.Action)
deriving Inhabited

namespace Host

open Lua

/-- What the library needs from a host. -/
def setting : Library.Setting := ⟨Heap.collect true, Binding.names⟩

/-- Runs a script until it ends or, if it may pause, until it does. The number bounds how often
the host is asked. -/
def drive (mayPause : Bool) (engine : EngineId) :
    Nat → Store → Stack → Action → Host → Progress × Store × Host
  | 0, store, _, _, h => (.exhausted, store, h)
  | rounds + 1, store, stack, action, h =>
    match Machine.run setting h.stepLimit store stack action with
    | (store, _, none) => (.exhausted, store, h)
    | (store, _, some (.finished result)) => (.ended result, store, h)
    | (store, stack, some (.asking request next)) =>
      match mayPause, request, next with
      | true, .callback function, next => (.calling function stack next, store, h)
      | _, request, next =>
        let (answer, h) := h.reply engine request
        drive mayPause engine rounds store stack (next answer) h

/-- Goes on with a script on an engine. -/
def advance (h : Host) (mayPause : Bool) (engine : EngineId) (stack : Stack) (action : Action) :
    Progress × Host :=
  let (progress, store, h) := drive mayPause engine h.stepLimit (h.engine engine).store stack action h
  (progress, h.modifyEngine engine fun e => { e with store })

def start (h : Host) (engine : EngineId) (script : Eval (List Value)) : Progress × Host :=
  let (progress, h) := h.advance true engine {} (Eval.run script)
  match progress with
  | .calling .. => (progress, h.modifyEngine engine fun e => { e with suspended := e.suspended + 1 })
  | .ended _ | .exhausted => (progress, h)

def resume (h : Host) (engine : EngineId) (stack : Stack) (action : Action) : Progress × Host :=
  let (progress, h) := h.advance true engine stack action
  match progress with
  | .calling .. => (progress, h)
  | .ended _ | .exhausted =>
    (progress, h.modifyEngine engine fun e => { e with suspended := e.suspended - 1 })

/-- What a script that has not come to its end counts as. -/
def unfinished : EngineError := .ofRun (.runtime "script did not finish")

/-- The outcome of a script for its host. -/
def outcome (h : Host) (engine : EngineId) : Progress → Except EngineError (List Value)
  | .ended (.ok values) => .ok values
  | .ended (.error .outOfMemory) => .error (.ofRun .memory)
  | .ended (.error (.error v)) =>
    match Library.failure? (h.heap engine) v with
    | some failure => .error (.ofRun failure)
    | none => .error (.ofRun (.runtime (shownBytes (Operation.plainText (h.heap engine) v))))
  | .exhausted | .calling .. => .error unfinished

def perform (h : Host) (engine : EngineId) (script : Eval (List Value)) :
    Except EngineError (List Value) × Host :=
  let (progress, h) := h.advance false engine {} (Eval.run script)
  (h.outcome engine progress, h)

/-! ## Programs -/

def load (h : Host) (engine : EngineId) (name text : List UInt8) :
    Except EngineError Value × Host :=
  match name.findIdx? (· = 0) with
  | some position =>
    (.error (.script (.runtime
      s!"invalid name: nul byte found in provided data at position: {position}") false), h)
  | none =>
    let heap := h.heap engine
    match Library.loadText name text (.table heap.globals) heap with
    | (.ok f, heap) => (.ok f, h.modifyHeap engine fun _ => heap)
    | (.error message, heap) =>
      (.error (.script (.badSyntax message) false), h.modifyHeap engine fun _ => heap)

/-- A function for the values of an expression list, or else for a program. -/
def loadExpression (h : Host) (engine : EngineId) (name text : List UInt8) :
    Except EngineError Value × Host :=
  match h.load engine name (Utf8.bytes "return " ++ text) with
  | (.ok f, h) => (.ok f, h)
  | (.error _, h) => h.load engine name text

def startFunction (h : Host) (engine : EngineId) (f : Value) : Progress × Host :=
  h.start engine (Library.hostCall f [])

def callFunction (h : Host) (engine : EngineId) (f : Value) (arguments : List Value) :
    Except EngineError (List Value) × Host :=
  h.perform engine (Library.hostCall f arguments)

def exec (h : Host) (engine : EngineId) (name text : List UInt8) :
    Except EngineError (List Value) × Host :=
  match h.load engine name text with
  | (.error e, h) => (.error e, h)
  | (.ok f, h) => h.callFunction engine f []

/-- Yields the values of an expression list or of a program. -/
def eval (h : Host) (engine : EngineId) (name text : List UInt8) :
    Except EngineError (List Value) × Host :=
  match h.loadExpression engine name text with
  | (.error e, h) => (.error e, h)
  | (.ok f, h) => h.callFunction engine f []

def loadFile (h : Host) (engine : EngineId) (path : Path) : Except EngineError Value × Host :=
  match h.files.read path with
  | .error fault => (.error (.ofReadFault path fault), h)
  | .ok text => h.load engine (64 :: Utf8.bytes path.display) text.data.toList

def execFile (h : Host) (engine : EngineId) (path : Path) :
    Except EngineError (List Value) × Host :=
  match h.loadFile engine path with
  | (.error e, h) => (.error e, h)
  | (.ok f, h) => h.callFunction engine f []

/-! ## Globals -/

/-- An operation on values whose errors become failures. -/
def reporting (operation : Eval (List Value)) : Eval (List Value) := do
  match ← Eval.protect operation with
  | .ok values => return values
  | .error thrown => Eval.failure (← Library.failureOf thrown)

/-- Does what a host does with values as a script would. -/
def performOperation (h : Host) (engine : EngineId) (operation : Eval (List Value)) :
    Except EngineError (List Value) × Host :=
  h.perform engine (reporting operation)

/-- A field of a value, read with metamethods. -/
def field (h : Host) (engine : EngineId) (v : Value) (name : String) :
    Except EngineError Value × Host :=
  let (result, h) := h.performOperation engine do
    return [← Operation.index {} none v (.ofText name)]
  (result.map firstOf, h)

/-- Assigns a field of a value, with metamethods. -/
def setField (h : Host) (engine : EngineId) (v : Value) (name : String) (value : Value) :
    Except EngineError Unit × Host :=
  let (result, h) := h.performOperation engine do
    Operation.assign {} none v (.ofText name) value
    return []
  (result.map fun _ => (), h)

/-- A global as scripts see it. -/
def global (h : Host) (engine : EngineId) (name : String) : Except EngineError Value × Host :=
  h.field engine (.table (h.heap engine).globals) name

/-- Assigns a global without metamethods. -/
def setGlobal (h : Host) (engine : EngineId) (name : String) (value : Value) : Host :=
  h.modifyHeap engine fun heap => heap.rawSetText heap.globals name value

def collectGarbage (h : Host) (engine : EngineId) : Host := h.modifyEngine engine Engine.collect

end Host

end ScriptHost
