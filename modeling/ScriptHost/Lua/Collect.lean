import ScriptHost.Lua.Heap

/-!
# Garbage collection

A collection finds what can be reached from the roots, and takes the entries of weak tables away
whose objects cannot. The heap keeps its stores; only the estimate of its size shrinks. Finalizers
of objects (`__gc`) are not run.
-/

set_option autoImplicit false

namespace ScriptHost.Lua

namespace Collect

structure Marks where
  tables : Array Bool
  closures : Array Bool
  cells : Array Bool
deriving Inhabited

inductive Item where
  | value (v : Value)
  | cell (id : CellId)
deriving Inhabited

def isMarked (marks : Array Bool) (i : Nat) : Bool := marks[i]?.getD true

/-- Whether a table is weak in its keys, and in its values. -/
def weakness (h : Heap) (t : Table) : Bool × Bool :=
  match t.metatable?.map fun m => h.rawGetText m "__mode" with
  | some (.string mode) => (mode.toList.contains 107, mode.toList.contains 118)
  | _ => (false, false)

/-- Whether a value is an object that has been reached, or no object. -/
def isReached (marks : Marks) : Value → Bool
  | .table id => isMarked marks.tables id.index
  | .closure id => isMarked marks.closures id.index
  | _ => true

/-- What a table leads to. An entry with a weak key leads on only from a reached key. -/
def tableItems (h : Heap) (marks : Marks) (t : Table) : List Item :=
  let (weakKeys, weakValues) := weakness h t
  let entries := t.slots.toList.flatMap fun (k, slot) =>
    let key := if weakKeys then [] else [Item.value k.value]
    let value :=
      if weakValues || (weakKeys && !isReached marks k.value) then [] else [Item.value slot.value]
    key ++ value
  match t.metatable? with
  | some m => .value (.table m) :: entries
  | none => entries

/-- Marks an item and yields what it leads to, nothing if it was marked already. -/
def visit (h : Heap) (marks : Marks) : Item → Marks × List Item
  | .cell id =>
    if isMarked marks.cells id.index then (marks, [])
    else ({ marks with cells := marks.cells.setIfInBounds id.index true }, [.value (h.cell id)])
  | .value (.table id) =>
    if isMarked marks.tables id.index then (marks, [])
    else
      ({ marks with tables := marks.tables.setIfInBounds id.index true },
        tableItems h marks (h.table id))
  | .value (.closure id) =>
    if isMarked marks.closures id.index then (marks, [])
    else
      ({ marks with closures := marks.closures.setIfInBounds id.index true },
        match h.closure? id with
        | some (.script _ _ captured) => captured.toList.map .cell
        | some (.native _ captured) => captured.map .value
        | none => [])
  | .value (.coroutine id) =>
    (marks, (h.coroutines[id.index]?.map fun c => [Item.value c.body]).getD [])
  | .value _ => (marks, [])

def markAll (h : Heap) (marks : Marks) : List Item → Nat → Marks
  | _, 0 => marks
  | [], _ => marks
  | item :: items, fuel + 1 =>
    let (marks, more) := visit h marks item
    markAll h marks (more ++ items) fuel

/-- An upper bound for how many items a marking meets. -/
def itemCount (h : Heap) : Nat :=
  h.tables.foldl (fun n t => n + 2 * t.slots.size + 2) 0 +
    h.closures.foldl (fun n c => n + 1 + match c with
      | .script _ _ captured => captured.size
      | .native _ captured => captured.length) 0 +
    2 * h.cells.size + 2 * h.coroutines.size + 100

def roots (h : Heap) : List Item :=
  ((h.held ++ [h.globals, h.loaded, h.arrayMetatable] ++ h.stringMetatable?.toList ++
    h.globalsMetatable?.toList).map fun id => Item.value (.table id))

/-- The values of weakly keyed tables that are due because their keys have been reached. -/
def dueItems (h : Heap) (marks : Marks) : List Item :=
  (List.range h.tables.size).flatMap fun i =>
    if isMarked marks.tables i then
      let t := h.table ⟨i⟩
      if weakness h t == (true, false) then
        t.slots.toList.filterMap fun (k, slot) =>
          if isReached marks k.value && !isReached marks slot.value then some (.value slot.value)
          else none
      else []
    else []

/-- Marks until no weakly keyed table has anything due. -/
def settle (h : Heap) (marks : Marks) : Nat → Marks
  | 0 => marks
  | fuel + 1 =>
    match dueItems h marks with
    | [] => marks
    | due => settle h (markAll h marks due (itemCount h)) fuel

/-- Everything that can be reached; while a script runs, that includes all its variables. -/
def reach (h : Heap) (running : Bool) : Marks :=
  let marks : Marks :=
    { tables := Array.replicate h.tables.size false
      closures := Array.replicate h.closures.size false
      cells := Array.replicate h.cells.size false }
  let items := roots h ++
    if running then (List.range h.cells.size).map fun i => .cell ⟨i⟩ else []
  settle h (markAll h marks items (itemCount h)) (h.tables.size + 1)

/-- Takes the entries of a weak table away whose objects have not been reached. -/
def sweepTable (h : Heap) (marks : Marks) (t : Table) : Table :=
  let (weakKeys, weakValues) := weakness h t
  if weakKeys || weakValues then
    t.liveOrder.foldl (fun t k =>
      if (weakKeys && !isReached marks k.value) ||
          (weakValues && !isReached marks (t.get k)) then t.set k .nil
      else t) t
  else t

def tableSize (t : Table) : Nat :=
  t.slots.toList.foldl (fun n (k, slot) => n + 40 + Heap.sizeOf k.value + Heap.sizeOf slot.value)
    56

/-- The bytes of everything that has been reached, beyond what a fresh heap takes. -/
def liveSize (h : Heap) (marks : Marks) : Nat :=
  (List.range h.tables.size).foldl (fun n i =>
    if isMarked marks.tables i then n + tableSize (h.table ⟨i⟩) else n) 0 +
  (List.range h.closures.size).foldl (fun n i =>
    if isMarked marks.closures i then n + 64 else n) 0

end Collect

def Heap.collect (running : Bool) (h : Heap) : Heap :=
  let marks := Collect.reach h running
  let tables := h.tables.mapIdx fun i t =>
    if Collect.isMarked marks.tables i then Collect.sweepTable h marks t else t
  { h with tables, used := min h.used (Collect.liveSize h marks) }

end ScriptHost.Lua
