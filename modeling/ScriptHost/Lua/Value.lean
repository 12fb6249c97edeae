import ScriptHost.Identity
import ScriptHost.Instances
import ScriptHost.Lua.Builtin
import ScriptHost.Lua.Failure

/-!
# Script values

Values, and the keys under which tables hold them. Strings are byte strings. Tables, closures,
user data and coroutines are named by where they stand in the heap.
-/

set_option autoImplicit false

namespace ScriptHost.Lua

structure TableId where
  index : Nat
deriving DecidableEq, Repr, Hashable, Inhabited

structure ClosureId where
  index : Nat
deriving DecidableEq, Repr, Hashable, Inhabited

structure CellId where
  index : Nat
deriving DecidableEq, Repr, Hashable, Inhabited

structure UserdataId where
  index : Nat
deriving DecidableEq, Repr, Hashable, Inhabited

structure CoroutineId where
  index : Nat
deriving DecidableEq, Repr, Hashable, Inhabited

inductive Value where
  | nil
  | boolean (value : Bool)
  | integer (value : Int64)
  | float (value : Float)
  | string (value : ByteArray)
  /-- The null pointer, by which a host says that something is absent. -/
  | null
  | table (id : TableId)
  | closure (id : ClosureId)
  | builtin (f : Builtin)
  | userdata (id : UserdataId)
  | coroutine (id : CoroutineId)
deriving Inhabited

/-- Values by which tables are indexed. A float without fraction is the same key as the integer. -/
inductive Key where
  | boolean (value : Bool)
  | integer (value : Int64)
  | float (bits : UInt64)
  | string (value : ByteArray)
  | null
  | table (id : TableId)
  | closure (id : ClosureId)
  | builtin (f : Builtin)
  | userdata (id : UserdataId)
  | coroutine (id : CoroutineId)
deriving DecidableEq, Hashable, Inhabited

inductive Resource where
  | results (id : ResultsId)
  /-- A handle to an engine manager, or to none. -/
  | manager (id? : Option ManagerId)
  | context (id : ContextId)
  | failure (failure : Failure)
deriving DecidableEq, Repr, Inhabited

/-- The name of the type of a user datum, by which error texts call it. -/
def Resource.typeName : Resource → String
  | results _ => "ResultsContainer"
  | manager _ => "ManagerHandle"
  | context _ => "ContextHandle"
  | failure _ => "error"

namespace Value

def ofText (s : String) : Value := .string s.toUTF8

/-- Only nil and false count as false. -/
def isTruthy : Value → Bool
  | nil | boolean false => false
  | _ => true

def isNil : Value → Bool
  | nil => true
  | _ => false

/-- Whether a value is one by which a host says that something is absent. -/
def isAbsent : Value → Bool
  | nil | null => true
  | _ => false

def typeName : Value → String
  | nil => "nil"
  | boolean _ => "boolean"
  | integer _ | float _ => "number"
  | string _ => "string"
  | null | userdata _ => "userdata"
  | table _ => "table"
  | closure _ | builtin _ => "function"
  | coroutine _ => "thread"

/-- The name of the type of a value, as hosts see it. -/
def hostTypeName : Value → String
  | integer _ => "integer"
  | null => "lightuserdata"
  | value => value.typeName

/-- The integer that a float without fraction is, if integers reach that far. -/
def integerOfFloat? (x : Float) : Option Int64 :=
  if x.floor == x && -9223372036854775808.0 ≤ x && x < 9223372036854775808.0 then
    some x.toInt64
  else none

/-- The key a value is; nil and NaN are none. -/
def key? : Value → Option Key
  | nil => none
  | boolean b => some (.boolean b)
  | integer n => some (.integer n)
  | float x =>
    match integerOfFloat? x with
    | some n => some (.integer n)
    | none => if x.isNaN then none else some (.float x.toBits)
  | string s => some (.string s)
  | null => some .null
  | table id => some (.table id)
  | closure id => some (.closure id)
  | builtin f => some (.builtin f)
  | userdata id => some (.userdata id)
  | coroutine id => some (.coroutine id)

/-- Equality without metamethods. -/
def same : Value → Value → Bool
  | nil, nil => true
  | boolean a, boolean b => a == b
  | integer a, integer b => a == b
  | float a, float b => a == b
  | integer a, float b | float b, integer a => integerOfFloat? b == some a
  | string a, string b => a == b
  | null, null => true
  | table a, table b => a == b
  | closure a, closure b => a == b
  | builtin a, builtin b => a == b
  | userdata a, userdata b => a == b
  | coroutine a, coroutine b => a == b
  | _, _ => false

end Value

def Key.value : Key → Value
  | boolean b => .boolean b
  | integer n => .integer n
  | float bits => .float (Float.ofBits bits)
  | string s => .string s
  | null => .null
  | table id => .table id
  | closure id => .closure id
  | builtin f => .builtin f
  | userdata id => .userdata id
  | coroutine id => .coroutine id

def Key.ofText (s : String) : Key := .string s.toUTF8

end ScriptHost.Lua
