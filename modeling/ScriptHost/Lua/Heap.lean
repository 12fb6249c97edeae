import ScriptHost.Lua.Table
import ScriptHost.Lua.Syntax

/-!
# Heaps

Everything that values refer to, in stores that only grow, so that a name stays valid. The heap
also keeps an estimate of the memory in use, which a limit may bound.
-/

set_option autoImplicit false

namespace ScriptHost.Lua

inductive Closure where
  | script (chunk : Chunk) (proto : Proto) (captured : Array CellId)
  | native (f : Builtin) (captured : List Value)
deriving Inhabited

inductive CoroutineStatus where
  | suspended | running | normal | dead
deriving DecidableEq, Repr, Inhabited

/-- A coroutine: the function that it runs, and how far it has come. -/
structure Coroutine where
  body : Value
  status : CoroutineStatus := .suspended
deriving Inhabited

structure Heap where
  tables : Array Table := #[]
  closures : Array Closure := #[]
  cells : Array Value := #[]
  userdata : Array Resource := #[]
  coroutines : Array Coroutine := #[]
  globals : TableId := ⟨0⟩
  loaded : TableId := ⟨0⟩
  /-- The metatable that all strings share. -/
  stringMetatable? : Option TableId := none
  /-- The metatable by which a table remembers that it is an array. -/
  arrayMetatable : TableId := ⟨0⟩
  /-- The metatable of the globals, once the host has installed it. -/
  globalsMetatable? : Option TableId := none
  /-- Tables that the host holds on to. -/
  held : List TableId := []
  /-- The bytes in use, roughly. -/
  used : Nat := 0
  /-- The most bytes that may be in use. -/
  limit? : Option Nat := none
deriving Inhabited

/-- What scripts can do with a user datum beyond passing it around. -/
def Resource.metamethod (event : String) : Resource → Value
  | .results _ =>
    if event = "__index" then .builtin (.host .resultsGet)
    else if event = "__newindex" then .builtin (.host .resultsSet)
    else if event = "__len" then .builtin (.host .resultsCount)
    else if event = "__pairs" then .builtin (.host .resultsPairs)
    else .nil
  | .manager _ => if event = "__index" then .builtin (.host .managerIndex) else .nil
  | .context _ => if event = "__index" then .builtin (.host .contextGet) else .nil
  | .failure _ => if event = "__tostring" then .builtin (.host .failureText) else .nil

namespace Heap

def sizeOf : Value → Nat
  | .string s => 40 + s.size
  | _ => 0

def table (h : Heap) (id : TableId) : Table := h.tables[id.index]?.getD {}

def setTable (h : Heap) (id : TableId) (t : Table) : Heap :=
  { h with tables := h.tables.setIfInBounds id.index t }

def modifyTable (h : Heap) (id : TableId) (f : Table → Table) : Heap :=
  { h with tables := h.tables.modify id.index f }

def newTable (h : Heap) (t : Table) : TableId × Heap :=
  (⟨h.tables.size⟩,
    { h with tables := h.tables.push t, used := h.used + 56 + 16 * t.arraySize + 40 * t.capacity })

def rawGet (h : Heap) (id : TableId) (k : Key) : Value := (h.table id).get k

def rawGetText (h : Heap) (id : TableId) (name : String) : Value := h.rawGet id (.ofText name)

/-- Assigns without metamethods. -/
def rawSet (h : Heap) (id : TableId) (k : Key) (v : Value) : Heap :=
  let old := h.rawGet id k
  let h := h.modifyTable id fun t => t.set k v
  { h with used := h.used + sizeOf v + (if old.isNil && !v.isNil then 40 else 0) - sizeOf old }

def rawSetText (h : Heap) (id : TableId) (name : String) (v : Value) : Heap :=
  h.rawSet id (.ofText name) v

def newCell (h : Heap) (v : Value) : CellId × Heap :=
  (⟨h.cells.size⟩, { h with cells := h.cells.push v })

def cell (h : Heap) (id : CellId) : Value := h.cells[id.index]?.getD .nil

def setCell (h : Heap) (id : CellId) (v : Value) : Heap :=
  { h with cells := h.cells.setIfInBounds id.index v }

/-- One cell for each value, the cell of the last value first. -/
def newCells (h : Heap) (locals : List CellId) : List Value → List CellId × Heap
  | [] => (locals, h)
  | v :: vs =>
    let (cell, h) := h.newCell v
    h.newCells (cell :: locals) vs

def newClosure (h : Heap) (c : Closure) : ClosureId × Heap :=
  (⟨h.closures.size⟩, { h with closures := h.closures.push c, used := h.used + 64 })

def closure? (h : Heap) (id : ClosureId) : Option Closure := h.closures[id.index]?

/-- Replaces the values that a native closure captured. -/
def setCaptured (h : Heap) (id : ClosureId) (captured : List Value) : Heap :=
  { h with closures := h.closures.modify id.index fun
      | .native f _ => .native f captured
      | c => c }

def newUserdata (h : Heap) (r : Resource) : UserdataId × Heap :=
  (⟨h.userdata.size⟩, { h with userdata := h.userdata.push r, used := h.used + 64 })

def resource? (h : Heap) (id : UserdataId) : Option Resource := h.userdata[id.index]?

def newCoroutine (h : Heap) (body : Value) : CoroutineId × Heap :=
  (⟨h.coroutines.size⟩,
    { h with coroutines := h.coroutines.push { body }, used := h.used + 1000 })

def coroutineStatus (h : Heap) (id : CoroutineId) : CoroutineStatus :=
  (h.coroutines[id.index]?.map Coroutine.status).getD .dead

def setCoroutineStatus (h : Heap) (id : CoroutineId) (status : CoroutineStatus) : Heap :=
  { h with coroutines := h.coroutines.modify id.index fun c => { c with status } }

/-- The table of metamethods of a value, if it has one that tables can express. -/
def metatable? (h : Heap) : Value → Option TableId
  | .table id => (h.table id).metatable?
  | .string _ => h.stringMetatable?
  | _ => none

/-- A metamethod by its name, nil if there is none. -/
def metamethod (h : Heap) (v : Value) (event : String) : Value :=
  match v with
  | .userdata id => ((h.resource? id).map (Resource.metamethod event)).getD .nil
  | v =>
    match h.metatable? v with
    | some id => h.rawGetText id event
    | none => .nil

def typeNameOf (h : Heap) (v : Value) : String :=
  match v with
  | .userdata id => ((h.resource? id).map Resource.typeName).getD "userdata"
  | .table id =>
    match (h.table id).metatable? with
    | some m =>
      match h.rawGetText m "__name" with
      | .string s => (String.fromUTF8? s).getD "table"
      | _ => "table"
    | none => "table"
  | v => v.typeName

def newList (h : Heap) (items : List Value) : TableId × Heap := h.newTable (.ofItems items)

end Heap

end ScriptHost.Lua
