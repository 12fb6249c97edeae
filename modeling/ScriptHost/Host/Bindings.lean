import ScriptHost.Engine.Scope
import ScriptHost.Host.Script

/-!
# Injecting bindings

Making the bindings of an invocation visible to scripts, and clearing them again with the guard
that the injection gave.
-/

set_option autoImplicit false

namespace ScriptHost.Host

open Lua

def asFunction : Value → Except EngineError Value
  | .builtin f => .ok (.builtin f)
  | .closure id => .ok (.closure id)
  | v => .error (.script (.ofConversion v.hostTypeName "function" none) false)

/-- Gives the globals the metatable by which scopes are looked up. It counts as installed once
the function `setmetatable` of the engine has returned. -/
def installScopes (h : Host) (engine : EngineId) : Except EngineError Unit × Host :=
  let globals := (h.heap engine).globals
  let (metatable, heap) := (h.heap engine).newTable
    (.ofEntries [("__newindex", .builtin (.host .guardAssignment))])
  let h := h.modifyHeap engine fun _ => heap
  match h.global engine "setmetatable" with
  | (.error e, h) => (.error e, h)
  | (.ok v, h) =>
    match asFunction v with
    | .error e => (.error e, h)
    | .ok f =>
      match h.callFunction engine f [.table globals, .table metatable] with
      | (.error e, h) => (.error e, h)
      | (.ok _, h) =>
        (.ok (), h.modifyHeap engine fun heap => { heap with globalsMetatable? := some metatable })

def ensureScopes (h : Host) (engine : EngineId) : Except EngineError Unit × Host :=
  match (h.heap engine).globalsMetatable? with
  | some _ => (.ok (), h)
  | none => h.installScopes engine

/-- Makes the bindings for a context visible, in front of those that are visible now. -/
def inject (h : Host) (engine : EngineId) (context : Context) (cached : Bool)
    (manager? : Option ManagerId) : Except EngineError BindingGuard × Host :=
  match h.ensureScopes engine with
  | (.error e, h) => (.error e, h)
  | (.ok _, h) =>
    let (contextId, h) := h.addContext context
    let (scope, heap) := Scope.build { context, contextId, cached, manager? } (h.heap engine)
    match Machine.fits heap 0 with
    | (false, heap) => (.error (.ofRun .memory), h.modifyHeap engine fun _ => heap)
    | (true, heap) =>
      let (previous?, heap) := Scope.enter scope heap
      (.ok ⟨engine, scope, previous?⟩, h.modifyHeap engine fun _ => heap)

/-- Makes the bindings of a guard absent, and those before visible again. -/
def clear (h : Host) (engine : EngineId) (guard : BindingGuard) :
    Except EngineError Unit × Host :=
  if guard.engine = engine then (.ok (), h.modifyHeap engine (Scope.leave guard))
  else (.error (.bindingGuardMismatch guard.engine engine), h)

def clearAll (h : Host) (engine : EngineId) : Host := h.modifyHeap engine Scope.blankCurrent

def binding (h : Host) (engine : EngineId) (binding : Binding) : Except EngineError Value × Host :=
  h.global engine binding.name

def isAbsent (h : Host) (engine : EngineId) (binding : Binding) : Except EngineError Bool × Host :=
  let (result, h) := h.binding engine binding
  (result.map Value.isAbsent, h)

end ScriptHost.Host
