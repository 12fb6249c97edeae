import ScriptHost.Engine.Options
import ScriptHost.Lua.Machine
import ScriptHost.Redirection

/-!
# Engines

One interpreter with its global variables, its output and its module search paths.
-/

set_option autoImplicit false

namespace ScriptHost

structure Engine where
  options : EngineOptions
  store : Lua.Store
  routing : Routing
  /-- The paths that scripts find modules in, as they were last set. -/
  searchPaths : List Path := []
  /-- How many scripts wait for a function of the host. -/
  suspended : Nat := 0
deriving Inhabited

namespace Engine

open Lua

/-- The functions and values by which scripts talk to their engine. -/
def helpers (id : EngineId) (options : EngineOptions) : List (String × Value) :=
  [("null", .null), ("engine_id", .ofText id.text), ("frame_mode", .ofText options.frameMode.name),
    ("isnull", .builtin (.host .isAbsent)), ("log", .builtin (.host .log))]

/-- Adds the helpers, and directs what scripts print to the output of the engine. -/
def install (id : EngineId) (options : EngineOptions) (h : Heap) : Heap :=
  let (table, h) := h.newTable (.ofEntries (helpers id options))
  let h := h.rawSetText h.globals "cinder" (.table table)
  let h := h.rawSetText h.globals "print" (.builtin (.host .print))
  match h.rawGetText h.globals "io" with
  | .table io => h.rawSetText io "write" (.builtin (.host .write))
  | _ => h

/-- A new engine; nothing if its limit has no room for one. -/
def fresh? (id : EngineId) (options : EngineOptions) (output : Stream) : Option Engine :=
  let limit? := options.heapLimit?
  if limit?.any fun limit => limit < Library.freshSize then none
  else
    let heap := install id options (Library.freshHeap limit?)
    some
      { options
        store := ⟨{ heap with used := Library.freshSize }, {}⟩
        routing := { output } }

def withHeap (engine : Engine) (heap : Heap) : Engine :=
  { engine with store := { engine.store with heap } }

def collect (engine : Engine) : Engine :=
  engine.withHeap (engine.store.heap.collect (engine.suspended != 0))

end Engine

end ScriptHost
