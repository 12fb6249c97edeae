import ScriptHost.Host.Invocation

/-!
# What scripts ask for

The requests that scripts make while a host uses an engine. A host uses an engine by scripts as
well: a metamethod runs when a global is read, and the scripts of a factory prepare a new engine.
-/

set_option autoImplicit false

namespace ScriptHost.Host

open Lua

/-! ## Scripts -/

/-- The requests of a script until it ends, pauses or has used up its steps, in their order. -/
def driveRequests (mayPause : Bool) (engine : EngineId) :
    Nat → Store → Stack → Action → Host → List Request
  | 0, _, _, _, _ => []
  | rounds + 1, store, stack, action, h =>
    match Machine.run setting h.stepLimit store stack action with
    | (_, _, none) | (_, _, some (.finished _)) => []
    | (store, stack, some (.asking request next)) =>
      match mayPause, request, next with
      | true, .callback _, _ => []
      | _, request, next =>
        let (answer, h) := h.reply engine request
        request :: driveRequests mayPause engine rounds store stack (next answer) h

def advanceRequests (h : Host) (mayPause : Bool) (engine : EngineId) (stack : Stack)
    (action : Action) : List Request :=
  driveRequests mayPause engine h.stepLimit (h.engine engine).store stack action h

def performRequests (h : Host) (engine : EngineId) (script : Eval (List Value)) : List Request :=
  h.advanceRequests false engine {} (Eval.run script)

def callRequests (h : Host) (engine : EngineId) (f : Value) (arguments : List Value) :
    List Request :=
  h.performRequests engine (Library.hostCall f arguments)

def execRequests (h : Host) (engine : EngineId) (name text : List UInt8) : List Request :=
  match h.load engine name text with
  | (.error _, _) => []
  | (.ok f, h) => h.callRequests engine f []

def execFileRequests (h : Host) (engine : EngineId) (path : Path) : List Request :=
  match h.loadFile engine path with
  | (.error _, _) => []
  | (.ok f, h) => h.callRequests engine f []

def globalRequests (h : Host) (engine : EngineId) (name : String) : List Request :=
  h.performRequests engine <| reporting do
    return [← Operation.index {} none (.table (h.heap engine).globals) (.ofText name)]

def setFieldRequests (h : Host) (engine : EngineId) (v : Value) (name : String) (value : Value) :
    List Request :=
  h.performRequests engine <| reporting do
    Operation.assign {} none v (.ofText name) value
    return []

/-! ## Bindings and search paths -/

def installRequests (h : Host) (engine : EngineId) : List Request :=
  let globals := (h.heap engine).globals
  let (metatable, heap) := (h.heap engine).newTable
    (.ofEntries [("__newindex", .builtin (.host .guardAssignment))])
  let h := h.modifyHeap engine fun _ => heap
  h.globalRequests engine "setmetatable" ++
    match h.global engine "setmetatable" with
    | (.error _, _) => []
    | (.ok v, h) =>
      match asFunction v with
      | .error _ => []
      | .ok f => h.callRequests engine f [.table globals, .table metatable]

def injectRequests (h : Host) (engine : EngineId) : List Request :=
  match (h.heap engine).globalsMetatable? with
  | some _ => []
  | none => h.installRequests engine

def packagePathRequests (h : Host) (engine : EngineId) (patterns : List UInt8) : List Request :=
  h.globalRequests engine "package" ++
    match h.global engine "package" with
    | (.error _, _) => []
    | (.ok v, h) =>
      match asTable v with
      | .error _ => []
      | .ok package =>
        let text : Value := .string patterns.toByteArray
        match Machine.fitsHolding package (h.heap engine) (Heap.sizeOf text) with
        | (false, _) => []
        | (true, heap) =>
          (h.modifyHeap engine fun _ => heap).setFieldRequests engine (.table package) "path" text

def searchPathRequests (h : Host) (engine : EngineId) (paths : List Path) : List Request :=
  match SearchPath.firstFault? paths with
  | some _ => []
  | none => h.packagePathRequests engine (SearchPath.render paths)

/-! ## Engines and invocations -/

def prepareRequests (h : Host) (engine : EngineId) (index : Nat) : List String → List Request
  | [] => []
  | script :: scripts =>
    h.execRequests engine (Utf8.bytes s!"init{index}") (Utf8.bytes script) ++
      match h.exec engine (Utf8.bytes s!"init{index}") (Utf8.bytes script) with
      | (.ok _, h) => h.prepareRequests engine (index + 1) scripts
      | (.error _, _) => []

def creationRequests (h : Host) (factory : Factory) (options : EngineOptions) : List Request :=
  match h.newEngine (factory.effective options) with
  | (.error _, _) => []
  | (.ok engine, h) => h.prepareRequests engine 0 factory.initializers

def engineRequests (h : Host) (id : ManagerId) (options : EngineOptions) : List Request :=
  let h := h.modifyManager id fun m => { m with requested := m.requested ++ [options] }
  let manager := h.manager id
  if manager.factory.outage.covers manager.requested.length then []
  else h.creationRequests manager.factory options

/-- What the scripts of a factory ask for if an engine is made. -/
def selectionRequests (h : Host) (id : ManagerId) (policy : Policy) (key : CacheKey) :
    List Request :=
  match policy, (h.cacheOf id).get? key with
  | .reuse, some _ => []
  | _, _ => h.engineRequests id (.ofPolicy policy)

/-- What scripts ask for while an engine that was selected is set up for a context. -/
def setupRequests (h : Host) (id : ManagerId) (context : Context) : List Request :=
  match h.selectEngine id context.policy context.cacheKey with
  | (.error _, _) => []
  | (.ok (engine, cached), h) =>
    let (_, h) := h.attach engine context.output
    h.injectRequests engine ++
      match h.inject engine context cached (some id) with
      | (.error _, _) => []
      | (.ok _, h) => h.searchPathRequests engine (h.effectivePaths id context)

end ScriptHost.Host
