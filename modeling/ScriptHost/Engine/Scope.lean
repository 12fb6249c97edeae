import ScriptHost.Binding
import ScriptHost.Context
import ScriptHost.Lua.Conversion

/-!
# Binding scopes

The bindings of an invocation stand in a table of their own, its scope. A global that scripts do
not define is looked up in the current scope. Scopes nest: what a host keeps to clear one also
names the scope that was current before.
-/

set_option autoImplicit false

namespace ScriptHost

/-- What a host keeps to clear the bindings of one invocation. -/
structure BindingGuard where
  engine : EngineId
  scope : Lua.TableId
  previous? : Option Lua.TableId
deriving DecidableEq, Repr, Inhabited

def BindingGuard.isNested (guard : BindingGuard) : Bool := guard.previous?.isSome

/-- What the bindings of an invocation tell about it. -/
structure Subject where
  context : Context
  contextId : ContextId
  cached : Bool
  manager? : Option ManagerId
deriving Inhabited

namespace Scope

open Lua

def pathValue : Option Path → Value
  | some path => .ofText path.display
  | none => .null

def documentValue (h : Heap) : Option Json → Value × Heap
  | some document => Conversion.ofJson h document
  | none => (.null, h)

def userdata (h : Heap) (resource : Resource) : Value × Heap :=
  let (id, h) := h.newUserdata resource
  (.userdata id, h)

def value (subject : Subject) (h : Heap) : Binding → Value × Heap :=
  let context := subject.context
  let command := context.command
  fun
  | .cachedEngine => (.boolean subject.cached, h)
  | .engineManager => userdata h (.manager subject.manager?)
  | .context => userdata h (.context subject.contextId)
  | .host => Conversion.ofJson h context.host
  | .activeUiDocument => documentValue h (context.documents?.map Documents.uiDocument)
  | .activeDocument => documentValue h (context.documents?.map Documents.document)
  | .noActiveDocument => (.boolean !context.hasDocument, h)
  | .commandData => Conversion.ofJson h context.commandData
  | .selectedElements => Conversion.ofJson h (.arr context.selectedElements)
  | .commandPath => (pathValue command.scriptDirectory?, h)
  | .alternateCommandPath => (pathValue command.alternateDirectory?, h)
  | .commandName => (.ofText command.name, h)
  | .commandBundle => (.ofText command.bundle, h)
  | .commandPackage => (.ofText command.package, h)
  | .commandUniqueId => (.ofText command.uniqueId, h)
  | .debugMode => (.boolean context.debugMode, h)
  | .alternateMode => (.boolean context.alternateMode, h)
  | .results => userdata h (.results context.results)

def bind (subject : Subject) (scope : TableId) (h : Heap) (binding : Binding) : Heap :=
  let (v, h) := value subject h binding
  h.rawSetText scope binding.name v

/-- A new scope with all bindings, which is not current yet. -/
def build (subject : Subject) (h : Heap) : TableId × Heap :=
  let (scope, h) := h.newTable {}
  (scope, Binding.all.foldl (bind subject scope) h)

/-- The scope in which a global that scripts do not define is looked up. -/
def current? (h : Heap) : Option TableId :=
  match h.globalsMetatable?.map fun metatable => h.rawGetText metatable "__index" with
  | some (.table scope) => some scope
  | _ => none

/-- Makes a scope the current one. -/
def setCurrent (scope : TableId) (h : Heap) : Heap :=
  match h.globalsMetatable? with
  | some metatable => h.rawSetText metatable "__index" (.table scope)
  | none => h

/-- Makes a new scope the current one and yields the one before. -/
def enter (scope : TableId) (h : Heap) : Option TableId × Heap :=
  let previous? := current? h
  let h := setCurrent scope h
  (previous?, { h with held := scope :: previous?.toList ++ h.held })

def blank (scope : TableId) (h : Heap) : Heap :=
  Binding.names.foldl (fun h name => h.rawSetText scope name .null) h

/-- Makes the scope before that of a guard current again, if there is one and the scope of the
guard is the current one. -/
def reenter (guard : BindingGuard) (h : Heap) : Heap :=
  match guard.previous? with
  | some previous => if current? h = some guard.scope then setCurrent previous h else h
  | none => h

/-- Makes the bindings of a scope absent. If it is the current one, the scope before is current
again; without one before, the blank scope stays. -/
def leave (guard : BindingGuard) (h : Heap) : Heap :=
  let h := reenter guard (blank guard.scope h)
  { h with held := guard.previous?.toList.foldl List.erase (h.held.erase guard.scope) }

def blankCurrent (h : Heap) : Heap :=
  match current? h with
  | some scope => blank scope h
  | none => h

end Scope

end ScriptHost
