import ScriptHost.Cache
import ScriptHost.Context
import ScriptHost.Engine
import ScriptHost.Factory

/-!
# Hosts

The state of a host: its engines, the writers behind their output, the caches and managers, and
what invocations report. Everything is named by where it stands, and nothing that has a name
disappears.
-/

set_option autoImplicit false

namespace ScriptHost

/-- What decides, for each invocation, which engine runs it. -/
structure Manager where
  cache : CacheId
  factory : Factory := {}
  /-- Search paths that follow those of every context. -/
  defaultPaths : List Path := []
  /-- How many hold on to the manager; at zero it is gone. -/
  holders : Nat := 1
  requested : List EngineOptions := []
deriving DecidableEq, Repr, Inhabited

theorem Host.stepLimit_default : 10000 ≤ 1000000000000 := by decide

structure Host where
  engines : Array Engine := #[]
  writers : Array Writer := #[]
  caches : Array EngineCache := #[]
  managers : Array Manager := #[]
  contexts : Array Context := #[]
  /-- What scripts have reported, under ascending keys. -/
  results : Array (List (String × Json)) := #[]
  files : FileTree
  console : String := ""
  /-- The most steps a script may take until it ends or asks the host for something. -/
  stepLimit : Nat := 1000000000000
  /-- They suffice for whatever a host itself does with the values of scripts. -/
  stepLimit_large : 10000 ≤ stepLimit := by exact Host.stepLimit_default

instance : Inhabited Host := ⟨{ files := default }⟩

namespace Host

/-! ## Engines -/

def engine (h : Host) (id : EngineId) : Engine := h.engines[id.index]?.getD default

def modifyEngine (h : Host) (id : EngineId) (f : Engine → Engine) : Host :=
  { h with engines := h.engines.modify id.index f }

def heap (h : Host) (id : EngineId) : Lua.Heap := (h.engine id).store.heap

def modifyHeap (h : Host) (id : EngineId) (f : Lua.Heap → Lua.Heap) : Host :=
  h.modifyEngine id fun engine => engine.withHeap (f engine.store.heap)

/-! ## Writers and streams -/

def writer (h : Host) (id : WriterId) : Writer := h.writers[id.index]?.getD .discard

def modifyWriter (h : Host) (id : WriterId) (f : Writer → Writer) : Host :=
  { h with writers := h.writers.modify id.index f }

def newStream (h : Host) (label : String) (writer : Writer) : Stream × Host :=
  (⟨label, ⟨h.writers.size⟩⟩, { h with writers := h.writers.push writer })

def newStandardStream (h : Host) : Stream × Host := h.newStream "stdout" .standard

def newBuffer (h : Host) : Stream × Host := h.newStream "capture" (.buffer .empty)

/-- Writes a text; the empty text can be written everywhere. -/
def write (h : Host) (stream : Stream) (text : String) : Except WriteFault Unit × Host :=
  match h.writer stream.writer with
  | .standard => (.ok (), { h with console := h.console ++ text })
  | .discard => (.ok (), h)
  | .buffer _ =>
    (.ok (), h.modifyWriter stream.writer fun
      | .buffer content => .buffer (content ++ text.toUTF8)
      | writer => writer)
  | .broken => (if text.isEmpty then .ok () else .error .broken, h)

/-! ## Results -/

def newResults (h : Host) : ResultsId × Host :=
  (⟨h.results.size⟩, { h with results := h.results.push [] })

def resultsOf (h : Host) (id : ResultsId) : List (String × Json) :=
  h.results[id.index]?.getD []

def result? (h : Host) (id : ResultsId) (key : String) : Option Json :=
  Ordered.find? key (h.resultsOf id)

def resultCount (h : Host) (id : ResultsId) : Nat := (h.resultsOf id).length

def resultKeys (h : Host) (id : ResultsId) : List String := Ordered.keys (h.resultsOf id)

/-- All results as one JSON object. -/
def resultsJson (h : Host) (id : ResultsId) : Json := .object (h.resultsOf id)

def modifyResults (h : Host) (id : ResultsId)
    (f : List (String × Json) → List (String × Json)) : Host :=
  { h with results := h.results.modify id.index f }

def setResult (h : Host) (id : ResultsId) (key : String) (value : Json) : Host :=
  h.modifyResults id (Ordered.insert key value)

def removeResult (h : Host) (id : ResultsId) (key : String) : Host :=
  h.modifyResults id (Ordered.erase key)

/-! ## Contexts -/

def addContext (h : Host) (context : Context) : ContextId × Host :=
  (⟨h.contexts.size⟩, { h with contexts := h.contexts.push context })

def context? (h : Host) (id : ContextId) : Option Context := h.contexts[id.index]?

/-! ## Caches -/

def newCache (h : Host) : CacheId × Host :=
  (⟨h.caches.size⟩, { h with caches := h.caches.push {} })

def cache (h : Host) (id : CacheId) : EngineCache := h.caches[id.index]?.getD {}

def alterCache {α : Type} (h : Host) (id : CacheId) (f : EngineCache → α × EngineCache) :
    α × Host :=
  let (a, cache) := f (h.cache id)
  (a, { h with caches := h.caches.setIfInBounds id.index cache })

/-! ## Managers -/

def newManager (h : Host) (manager : Manager) : ManagerId × Host :=
  (⟨h.managers.size⟩, { h with managers := h.managers.push manager })

def manager (h : Host) (id : ManagerId) : Manager := h.managers[id.index]?.getD { cache := ⟨0⟩ }

def modifyManager (h : Host) (id : ManagerId) (f : Manager → Manager) : Host :=
  { h with managers := h.managers.modify id.index f }

/-- The manager behind a handle, while somebody holds on to it. -/
def alive? (h : Host) (id? : Option ManagerId) : Option Manager :=
  (id?.bind fun id => h.managers[id.index]?).filter fun manager => 0 < manager.holders

def shareManager (h : Host) (id : ManagerId) : Host :=
  h.modifyManager id fun manager => { manager with holders := manager.holders + 1 }

def dropManager (h : Host) (id : ManagerId) : Host :=
  h.modifyManager id fun manager => { manager with holders := manager.holders - 1 }

def cacheOf (h : Host) (id : ManagerId) : EngineCache := h.cache (h.manager id).cache

/-- Empties the cache of a manager and tells how many engines were in it. -/
def clearEngines (h : Host) (id : ManagerId) : Nat × Host :=
  let (discarded, h) := h.alterCache (h.manager id).cache EngineCache.reset
  (discarded.length, h)

end Host

end ScriptHost
