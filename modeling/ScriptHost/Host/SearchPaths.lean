import ScriptHost.Engine.SearchPath
import ScriptHost.Host.Script

/-!
# Setting search paths

The paths of an engine are kept in the engine and, as patterns, in the field of the package
library from which scripts load modules.
-/

set_option autoImplicit false

namespace ScriptHost.Host

open Lua

def asTable : Value → Except EngineError TableId
  | .table id => .ok id
  | v => .error (.script (.ofConversion v.hostTypeName "table" none) false)

/-- Assigns the patterns from which scripts load modules, if there is room for them. -/
def setPackagePath (h : Host) (engine : EngineId) (patterns : List UInt8) :
    Except EngineError Unit × Host :=
  match h.global engine "package" with
  | (.error e, h) => (.error e, h)
  | (.ok v, h) =>
    match asTable v with
    | .error e => (.error e, h)
    | .ok package =>
      let text : Value := .string patterns.toByteArray
      match Machine.fitsHolding package (h.heap engine) (Heap.sizeOf text) with
      | (false, heap) => (.error (.ofRun .memory), h.modifyHeap engine fun _ => heap)
      | (true, heap) =>
        (h.modifyHeap engine fun _ => heap).setField engine (.table package) "path" text

/-- Replaces the paths of an engine, all of them or none. -/
def setSearchPaths (h : Host) (engine : EngineId) (paths : List Path) :
    Except EngineError Unit × Host :=
  match SearchPath.firstFault? paths with
  | some (path, fault) => (.error (.invalidSearchPath path fault), h)
  | none =>
    match h.setPackagePath engine (SearchPath.render paths) with
    | (.error e, h) => (.error e, h)
    | (.ok _, h) => (.ok (), h.modifyEngine engine fun e => { e with searchPaths := paths })

end ScriptHost.Host
