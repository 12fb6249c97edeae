import ScriptHost.Lua.Library.Arguments

/-!
# The table library

Lists in tables: insertion, removal, joining, moving and sorting. Items are read and written
with metamethods.
-/

set_option autoImplicit false

namespace ScriptHost.Lua.Library

open Operation

/-- A table, or a value that acts as one through its metamethods. -/
def listArgument (args : Arguments) (i : Nat) (events : List String) : Eval Value := do
  let v := args.get i
  match v with
  | .table _ => return v
  | v =>
    let acts ← Eval.read fun h => events.all fun event => !(h.metamethod v event).isNil
    if acts && !v.isNil then return v else args.failType i "table"

def item (list : Value) (i : Int64) : Eval Value := index {} none list (.integer i)

def setItem (list : Value) (i : Int64) (v : Value) : Eval Unit := assign {} none list (.integer i) v

/-- The length of a list, which a metamethod may give. -/
def listLength (list : Value) : Eval Int64 := do
  match ← length {} none list with
  | .integer n => return n
  | v =>
    match v.toInteger? with
    | some n => return n
    | none => Eval.fail "object length is not an integer"

/-- Moves the items from `i` up to `j` one place up, the last one first. -/
def shiftUp (list : Value) (i j : Int64) : Eval Unit :=
  Eval.iterate (j - i + 1).toInt.toNat fun left => do
    if left = 0 then return none
    let k := i + Int64.ofNat left - 1
    setItem list (k + 1) (← item list k)
    return some (left - 1)

def insert (args : Arguments) : Eval (List Value) := do
  let list ← listArgument args 1 ["__index", "__newindex", "__len"]
  let stop := (← listLength list) + 1
  if args.count = 2 then
    setItem list stop (args.get 2)
    return []
  else if args.count = 3 then
    let position ← args.integer 2
    args.check 2 ((position - 1).toUInt64 < stop.toUInt64) "position out of bounds"
    shiftUp list position (stop - 1)
    setItem list position (args.get 3)
    return []
  else Eval.fail "wrong number of arguments to 'insert'"

def remove (args : Arguments) : Eval (List Value) := do
  let list ← listArgument args 1 ["__index", "__newindex", "__len"]
  let size ← listLength list
  let position ← args.integerOr 2 size
  if position != size then
    args.check 2 ((position - 1).toUInt64 ≤ size.toUInt64) "position out of bounds"
  let removed ← item list position
  Eval.iterate (size - position).toInt.toNat fun left => do
    if left = 0 then return none
    let k := size - Int64.ofNat left
    setItem list k (← item list (k + 1))
    return some (left - 1)
  setItem list (if position < size then size else position) .nil
  return [removed]

/-- The items of a list from `i` on. -/
def items (list : Value) (i : Int64) : Nat → Eval (List Value)
  | 0 => return []
  | n + 1 => do
    let v ← item list i
    return v :: (← items list (i + 1) n)

def joinItems (separator : ByteArray) (list : Value) (acc : ByteArray) (i : Int64) :
    Nat → Eval ByteArray
  | 0 => return acc
  | n + 1 => do
    match (← item list i).stringBytes? with
    | none => Eval.fail s!"invalid value (at index {i.toInt}) in table for 'concat'"
    | some s =>
      joinItems separator list (if n = 0 then acc ++ s else acc ++ s ++ separator) (i + 1) n

def concatItems (args : Arguments) : Eval (List Value) := do
  let list ← listArgument args 1 ["__index", "__len"]
  let size ← listLength list
  let separator ← args.bytesOr 2 .empty
  let i ← args.integerOr 3 1
  let j ← args.integerOr 4 size
  let count := (j.toInt - i.toInt + 1).toNat
  return [.string (← joinItems separator list .empty i count)]

def unpack (args : Arguments) : Eval (List Value) := do
  let i ← args.integerOr 2 1
  let j ← if args.isNone 3 then listLength (args.get 1) else args.integer 3
  let count := (j.toInt - i.toInt + 1).toNat
  if 1000000 ≤ count then Eval.fail "too many results to unpack"
  items (args.get 1) i count

def pack (args : Arguments) : Eval (List Value) := do
  let id ← Eval.alter fun h =>
    h.newTable ((Table.ofItems args.values).setText "n" (.integer (Int64.ofNat args.count)))
  return [.table id]

def move (args : Arguments) : Eval (List Value) := do
  let source ← listArgument args 1 ["__index"]
  let first ← args.integer 2
  let last ← args.integer 3
  let start ← args.integer 4
  let target ← if args.isNone 5 then listArgument args 1 ["__newindex"]
    else listArgument args 5 ["__newindex"]
  if first ≤ last then
    args.check 3 (0 < first || last < Int64.maxValue + first) "too many elements to move"
    let count := (last.toInt - first.toInt + 1).toNat
    args.check 4 (start.toInt ≤ Int64.maxValue.toInt - count + 1) "destination wrap around"
    let upward := last < start || start ≤ first || (!args.isNone 5 && !(source.same target))
    Eval.iterate 0 fun k => do
      if count ≤ k then return none
      let offset := Int64.ofNat (if upward then k else count - 1 - k)
      setItem target (start + offset) (← item source (first + offset))
      return some (k + 1)
  return [target]

/-! ## Sorting -/

def before (order : Value) (a b : Value) : Eval Bool := do
  if order.isNil then less {} a b
  else return (firstOf (← Eval.callBack order [a, b])).isTruthy

def badOrder {α : Type} : Eval α := Eval.fail "invalid order function for sorting"

/-- The first place after `i` whose item does not come before the pivot. -/
def scanUp (list order pivot : Value) (stop : Nat) (i : Nat) : Nat → Eval (Nat × Value)
  | 0 => badOrder
  | fuel + 1 => do
    let v ← item list (Int64.ofNat (i + 1))
    if ← before order v pivot then
      if i + 1 = stop then badOrder
      scanUp list order pivot stop (i + 1) fuel
    else return (i + 1, v)

/-- The last place before `j` whose item does not come after the pivot. -/
def scanDown (list order pivot : Value) (i : Nat) (j : Nat) : Nat → Eval (Nat × Value)
  | 0 => badOrder
  | fuel + 1 => do
    let v ← item list (Int64.ofNat (j - 1))
    if ← before order pivot v then
      if j - 1 < i then badOrder
      scanDown list order pivot i (j - 1) fuel
    else return (j - 1, v)

/-- Parts the items around the pivot, which stands before the last item, and yields its place. -/
def partition (list order pivot : Value) (high i j : Nat) : Nat → Eval Nat
  | 0 => badOrder
  | fuel + 1 => do
    let (i, x) ← scanUp list order pivot (high - 1) i (high + 1)
    let (j, y) ← scanDown list order pivot i j (high + 1)
    if j < i then
      setItem list (Int64.ofNat (high - 1)) x
      setItem list (Int64.ofNat i) pivot
      return i
    else
      setItem list (Int64.ofNat i) y
      setItem list (Int64.ofNat j) x
      partition list order pivot high i j fuel

/-- Exchanges two items if the second comes before the first. -/
def orderPair (list order : Value) (i j : Nat) : Eval Bool := do
  let a ← item list (Int64.ofNat i)
  let b ← item list (Int64.ofNat j)
  if ← before order b a then
    setItem list (Int64.ofNat i) b
    setItem list (Int64.ofNat j) a
    return true
  else return false

def sortRange (list order : Value) (low high : Nat) : Nat → Eval Unit
  | 0 => return ()
  | fuel + 1 => do
    if high ≤ low then return ()
    let _ ← orderPair list order low high
    if high - low = 1 then return ()
    let middle := (low + high) / 2
    if !(← orderPair list order low middle) then
      let _ ← orderPair list order middle high
    if high - low = 2 then return ()
    let pivot ← item list (Int64.ofNat middle)
    let last ← item list (Int64.ofNat (high - 1))
    setItem list (Int64.ofNat middle) last
    setItem list (Int64.ofNat (high - 1)) pivot
    let p ← partition list order pivot high low (high - 1) (high + 1)
    if p - low < high - p then
      sortRange list order low (p - 1) fuel
      sortRange list order (p + 1) high fuel
    else
      sortRange list order (p + 1) high fuel
      sortRange list order low (p - 1) fuel

def sort (args : Arguments) : Eval (List Value) := do
  let list ← listArgument args 1 ["__index", "__newindex", "__len"]
  let size := (← listLength list).toInt.toNat
  if 1 < size then
    args.check 1 (size < 2 ^ 31 - 1) "array too big"
    let order ← if args.isNone 2 then pure .nil else args.callable 2
    sortRange list order 1 size (size + 1)
  return []

def table (f : TableFunction) (args : Arguments) : Eval (List Value) :=
  match f with
  | .concat => concatItems args
  | .insert => insert args
  | .move => move args
  | .pack => pack args
  | .remove => remove args
  | .sort => sort args
  | .unpack => unpack args

end ScriptHost.Lua.Library
