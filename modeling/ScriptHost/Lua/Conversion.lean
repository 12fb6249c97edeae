import ScriptHost.Lua.Action
import ScriptHost.Lua.Number

/-!
# Values of scripts and of hosts

JSON values as script values and back, and arguments that hosts take as text or as whole numbers.
A JSON null is the null pointer, and a table remembers by its metatable that it is an array.
-/

set_option autoImplicit false

namespace ScriptHost.Lua

namespace Conversion

/-! ## From JSON -/

/-- A whole number as a script number; those that integers cannot hold are floats. -/
def ofInt (n : Int) : Value :=
  if -(2 ^ 63 : Int) ≤ n && n < 2 ^ 63 then .integer (Int64.ofInt n)
  else .float (if n < 0 then -(Float.ofNat n.natAbs) else Float.ofNat n.natAbs)

mutual

def ofJson (h : Heap) : Json → Value × Heap
  | .null => (.null, h)
  | .bool b => (.boolean b, h)
  | .int n => (ofInt n, h)
  | .float x => (.float x, h)
  | .str s => (.ofText s, h)
  | .arr items =>
    let (values, h) := ofItems h items
    let (id, h) := h.newTable { Table.ofItems values with metatable? := some h.arrayMetatable }
    (.table id, h)
  | .obj entries =>
    let (entries, h) := ofEntries h entries
    let (id, h) := h.newTable (.ofEntries entries)
    (.table id, h)

def ofItems (h : Heap) : List Json → List Value × Heap
  | [] => ([], h)
  | item :: items =>
    let (v, h) := ofJson h item
    let (vs, h) := ofItems h items
    (v :: vs, h)

def ofEntries (h : Heap) : List (String × Json) → List (String × Value) × Heap
  | [] => ([], h)
  | (key, value) :: entries =>
    let (v, h) := ofJson h value
    let (vs, h) := ofEntries h entries
    ((key, v) :: vs, h)

end

/-! ## To JSON -/

/-- Why a value has no JSON form. -/
inductive Fault where
  | unsupported (type : String)
  | recursive
  | illFormed
  | key (found : String)
deriving DecidableEq, Repr

def Fault.message : Fault → String
  | unsupported type => s!"unsupported value type \x60{type}\x60"
  | recursive => "recursive table detected"
  | illFormed => "invalid type: byte array, expected any valid JSON value"
  | key found => s!"invalid type: {found}, expected a string key"

/-- Whether a table stands for an array: it has items, or remembers that it is one. -/
def isArray (h : Heap) (t : Table) : Bool :=
  0 < t.length || t.metatable? == some h.arrayMetatable

/-- The text of a float among error texts, always with a point if it is finite. -/
def floatFound (x : Float) : String :=
  let text := Decimal.plain x
  if x.isFinite && !text.toList.contains '.' then text ++ ".0" else text

def tableFound (h : Heap) (id : TableId) : String :=
  if isArray h (h.table id) then "sequence" else "map"

/-- The text that a key is. -/
def keyText (h : Heap) : Key → Except Fault String
  | .string s =>
    match String.fromUTF8? s with
    | some text => .ok text
    | none => .error (.key "byte array")
  | .integer n => .error (.key s!"integer \x60{n.toInt}\x60")
  | .float bits => .error (.key s!"floating point \x60{floatFound (Float.ofBits bits)}\x60")
  | .boolean b => .error (.key s!"boolean \x60{b}\x60")
  | .null => .error (.key "unit value")
  | .table id => .error (.key (tableFound h id))
  | .closure _ | .builtin _ => .error (.unsupported "function")
  | .userdata _ => .error (.unsupported "userdata")
  | .coroutine _ => .error (.unsupported "thread")

/-- Fails if a value is one of the tables around it. -/
def checkPath (path : List TableId) : Value → Except Fault Unit
  | .table id => if path.contains id then .error .recursive else .ok ()
  | _ => .ok ()

/-- The values `1, 2, ...` of a table up to the first nil. -/
def itemsFrom (t : Table) (i : Nat) : Nat → List Value
  | 0 => []
  | fuel + 1 => if t.hasIndex i then t.getIndex i :: itemsFrom t (i + 1) fuel else []

/-- All values `1, 2, ...` of a table up to the first nil. Each of them stands in one of the two
parts of the table. -/
def items (t : Table) : List Value := itemsFrom t 1 (t.arraySize + t.keys.size + 1)

/-- A value inside the tables of a path. The last argument bounds the depth. -/
def toJsonWithin (h : Heap) (path : List TableId) (v : Value) : Nat → Except Fault Json
  | 0 => .error .recursive
  | fuel + 1 =>
    match v with
    | .nil | .null => .ok .null
    | .boolean b => .ok (.bool b)
    | .integer n => .ok (.int n.toInt)
    | .float x => .ok (if x.isFinite then .float x else .null)
    | .string s =>
      match String.fromUTF8? s with
      | some text => .ok (.str text)
      | none => .error .illFormed
    | .closure _ | .builtin _ => .error (.unsupported "function")
    | .userdata _ => .error (.unsupported "userdata")
    | .coroutine _ => .error (.unsupported "thread")
    | .table id => do
      let t := h.table id
      let path := id :: path
      if isArray h t then
        let items ← (items t).mapM fun item => do
          checkPath path item
          toJsonWithin h path item fuel
        return .arr items
      else
        let entries ← t.liveOrder.mapM fun key => do
          let value := t.get key
          checkPath path key.value
          checkPath path value
          let text ← keyText h key
          return (text, ← toJsonWithin h path value fuel)
        return .object entries

def toJson (h : Heap) (v : Value) : Except Fault Json :=
  toJsonWithin h [] v (h.tables.size + 2)

/-! ## Text and numbers -/

/-- A value as text: a well formed string, or a number. -/
def toText (v : Value) : Except Failure String :=
  match v with
  | .string s =>
    match Utf8.fault? s.toList with
    | none => .ok (Utf8.text s.toList)
    | some fault => .error (.ofConversion "string" "String" (some fault.message))
  | .integer n => .ok (Number.integerText n)
  | .float x => .ok (Number.floatText x)
  | v => .error (.ofConversion v.hostTypeName "String" (some "expected string or number"))

/-- A value as an integer: a number cut at the point, or a string that denotes one. -/
def toInteger (v : Value) : Except Failure Int64 :=
  match v.toNumber? with
  | some (.integer n) => .ok n
  | some (.float x) =>
    match Value.integerOfFloat? (if x < 0 then x.ceil else x.floor) with
    | some n => .ok n
    | none => .error (.ofConversion v.hostTypeName "i64" (some "out of range"))
  | none =>
    .error (.ofConversion v.hostTypeName "i64"
      (some "expected number or string coercible to number"))

/-- A value as a truth value: all but nil and false are true. -/
def toBoolean (v : Value) : Bool := v.isTruthy

end Conversion

end ScriptHost.Lua
