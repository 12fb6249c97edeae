/-!
# Bindings

The globals under which a script finds its invocation.
-/

set_option autoImplicit false

namespace ScriptHost

inductive Binding where
  /-- Whether the engine comes from the cache. -/
  | cachedEngine
  | engineManager
  /-- The invocation context, for reading only. -/
  | context
  | host
  | activeUiDocument
  | activeDocument
  /-- Whether no document is open. -/
  | noActiveDocument
  | commandData
  | selectedElements
  | commandPath
  | alternateCommandPath
  | commandName
  | commandBundle
  | commandPackage
  | commandUniqueId
  | debugMode
  | alternateMode
  | results
deriving DecidableEq, Repr, Inhabited

namespace Binding

/-- All bindings, in the order in which a scope receives them. -/
def all : List Binding :=
  [cachedEngine, engineManager, context, host, activeUiDocument, activeDocument,
    noActiveDocument, commandData, selectedElements, commandPath, alternateCommandPath,
    commandName, commandBundle, commandPackage, commandUniqueId, debugMode, alternateMode,
    results]

def name : Binding → String
  | cachedEngine => "__cachedengine__"
  | engineManager => "__enginemanager__"
  | context => "__execcontext__"
  | host => "__host__"
  | activeUiDocument => "__activeuidoc__"
  | activeDocument => "__activedoc__"
  | noActiveDocument => "__zerodoc__"
  | commandData => "__commanddata__"
  | selectedElements => "__elements__"
  | commandPath => "__commandpath__"
  | alternateCommandPath => "__alternatecommandpath__"
  | commandName => "__commandname__"
  | commandBundle => "__commandbundle__"
  | commandPackage => "__commandextension__"
  | commandUniqueId => "__commanduniqueid__"
  | debugMode => "__forceddebugmode__"
  | alternateMode => "__alternatemode__"
  | results => "__result__"

def names : List String := all.map name

def ofName? (s : String) : Option Binding := all.find? fun binding => binding.name = s

theorem mem_all (binding : Binding) : binding ∈ all := by
  cases binding <;> decide

theorem name_injective {a b : Binding} (same : a.name = b.name) : a = b := by
  revert same
  cases a <;> cases b <;> decide

end Binding

end ScriptHost
