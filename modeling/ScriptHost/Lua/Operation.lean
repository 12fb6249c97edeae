import ScriptHost.Lua.Action
import ScriptHost.Lua.Number

/-!
# Operations on values

Indexing, assignment, arithmetic, comparison and conversion to text, with the metamethods that
can change them. An operation fails at the place where it is performed.
-/

set_option autoImplicit false

namespace ScriptHost.Lua

/-- Where an operation is performed; library functions have no lines. -/
structure Place where
  position? : Option Position := none
deriving DecidableEq, Repr, Inhabited

namespace Place

def text (place : Place) : String := (place.position?.map Position.text).getD ""

def site (place : Place) (event : String) : Site :=
  { position? := place.position?, label? := some ⟨"metamethod", event⟩ }

variable {α : Type}

def fail (place : Place) (message : String) : Eval α := Eval.raiseText (place.text ++ message)

def failType (place : Place) (operation : String) (value : Value) (label? : Option Label) :
    Eval α := do
  let type ← Eval.read fun h => h.typeNameOf value
  place.fail (s!"attempt to {operation} a {type} value" ++ Label.suffix label?)

end Place

namespace Operation

/-! ## Indexing -/

/-- What a table access without metamethods finds. -/
inductive Access where
  | found (value : Value)
  /-- A function that answers in place of the object. -/
  | handler (f : Value)
  /-- Another value that answers in place of the object. -/
  | forward (object : Value)
  | refused
deriving Inhabited

/-- What to do with the value of an `__index` or `__newindex` field. -/
def Access.ofMetamethod (m : Value) : Access :=
  match m with
  | .closure _ | .builtin _ => .handler m
  | m => .forward m

def lookUp (h : Heap) (object key : Value) : Access :=
  let viaMetamethod (absent : Access) :=
    let m := h.metamethod object "__index"
    if m.isNil then absent else .ofMetamethod m
  match object with
  | .table id =>
    let v := (key.key?.map (h.rawGet id)).getD .nil
    if v.isNil then viaMetamethod (.found .nil) else .found v
  | _ => viaMetamethod .refused

/-- How many objects may answer one for another. -/
def chainLimit : Nat := 2000

def indexWithin (place : Place) (label? : Option Label) (object key : Value) :
    Nat → Eval Value
  | 0 => place.fail "'__index' chain too long; possibly a loop"
  | fuel + 1 => do
    match ← Eval.read fun h => lookUp h object key with
    | .found v => return v
    | .handler f => return firstOf (← Eval.call (place.site "index") f [object, key])
    | .forward object => indexWithin place none object key fuel
    | .refused => place.failType "index" object label?

def index (place : Place) (label? : Option Label) (object key : Value) : Eval Value :=
  indexWithin place label? object key chainLimit

/-- How `object[key]` is assigned; `found` stands for an assignment to the table itself. -/
def lookUpTarget (h : Heap) (object key : Value) : Access :=
  let viaMetamethod (absent : Access) :=
    let m := h.metamethod object "__newindex"
    if m.isNil then absent else .ofMetamethod m
  match object with
  | .table id =>
    let v := (key.key?.map (h.rawGet id)).getD .nil
    if v.isNil then viaMetamethod (.found .nil) else .found v
  | _ => viaMetamethod .refused

/-- Assigns to a table without metamethods. -/
def assignRaw (place : Place) (id : TableId) (key value : Value) : Eval Unit := do
  match key.key? with
  | some k => Eval.modify fun h => h.rawSet id k value
  | none => place.fail (if key.isNil then "table index is nil" else "table index is NaN")

def assignWithin (place : Place) (label? : Option Label) (object key value : Value) :
    Nat → Eval Unit
  | 0 => place.fail "'__newindex' chain too long; possibly a loop"
  | fuel + 1 => do
    match ← Eval.read fun h => lookUpTarget h object key with
    | .found _ =>
      match object with
      | .table id => assignRaw place id key value
      | _ => pure ()
    | .handler f =>
      let _ ← Eval.call (place.site "newindex") f [object, key, value]
    | .forward object => assignWithin place none object key value fuel
    | .refused => place.failType "index" object label?

def assign (place : Place) (label? : Option Label) (object key value : Value) : Eval Unit :=
  assignWithin place label? object key value chainLimit

/-! ## Arithmetic -/

def eventOf : ArithOp → String
  | .add => "add" | .subtract => "sub" | .multiply => "mul" | .modulo => "mod" | .power => "pow"
  | .divide => "div" | .floorDivide => "idiv" | .bitAnd => "band" | .bitOr => "bor"
  | .bitXor => "bxor" | .shiftLeft => "shl" | .shiftRight => "shr"

def isBitwise : ArithOp → Bool
  | .bitAnd | .bitOr | .bitXor | .shiftLeft | .shiftRight => true
  | _ => false

/-- Why two numbers have no result. -/
inductive ArithFault where
  | divideByZero
  | moduloByZero
  | noInteger
deriving DecidableEq, Repr

def ArithFault.message : ArithFault → String
  | divideByZero => "attempt to perform 'n//0'"
  | moduloByZero => "attempt to perform 'n%%0'"
  | noInteger => "number has no integer representation"

/-- An operation on integers, or on floats if one operand is a float. -/
def combine (onIntegers : Int64 → Int64 → Int64) (onFloats : Float → Float → Float)
    (a b : Number) : Number :=
  match a, b with
  | .integer a, .integer b => .integer (onIntegers a b)
  | a, b => .float (onFloats a.toFloat b.toFloat)

def onIntegers (f : Int64 → Int64 → Int64) (a b : Number) : Except ArithFault Number :=
  match a.toInteger?, b.toInteger? with
  | some a, some b => .ok (.integer (f a b))
  | _, _ => .error .noInteger

def compute (op : ArithOp) (a b : Number) : Except ArithFault Number :=
  match op with
  | .add => .ok (combine (· + ·) (· + ·) a b)
  | .subtract => .ok (combine (· - ·) (· - ·) a b)
  | .multiply => .ok (combine (· * ·) (· * ·) a b)
  | .power => .ok (.float (if b.toFloat == 2.0 then a.toFloat * a.toFloat
      else a.toFloat.pow b.toFloat))
  | .divide => .ok (.float (a.toFloat / b.toFloat))
  | .modulo =>
    match a, b with
    | .integer a, .integer b =>
      if b == 0 then .error .moduloByZero else .ok (.integer (Number.floorMod a b))
    | a, b => .ok (.float (Number.floatMod a.toFloat b.toFloat))
  | .floorDivide =>
    match a, b with
    | .integer a, .integer b =>
      if b == 0 then .error .divideByZero else .ok (.integer (Number.floorDiv a b))
    | a, b => .ok (.float (a.toFloat / b.toFloat).floor)
  | .bitAnd => onIntegers (· &&& ·) a b
  | .bitOr => onIntegers (· ||| ·) a b
  | .bitXor => onIntegers (· ^^^ ·) a b
  | .shiftLeft => onIntegers Number.shiftLeft a b
  | .shiftRight => onIntegers (fun a b => Number.shiftLeft a (-b)) a b

/-- The metamethod of the first of two values that has one. -/
def binaryMetamethod (h : Heap) (event : String) (a b : Value) : Value :=
  let m := h.metamethod a event
  if m.isNil then h.metamethod b event else m

/-- The number a value is for an operation: bitwise operations also take strings. -/
def operand? (op : ArithOp) (v : Value) : Option Number :=
  if isBitwise op then v.toNumber? else v.number?

def failInteger (place : Place) (label? : Option Label) : Eval Value :=
  place.fail ("number" ++ Label.suffix label? ++ " has no integer representation")

/-- Arithmetic on values that are not both numbers. -/
def arithByMetamethod (place : Place) (op : ArithOp)
    (labels : Option Label × Option Label) (a b : Value) : Eval Value := do
  let event := eventOf op
  let m ← Eval.read fun h => binaryMetamethod h ("__" ++ event) a b
  if !m.isNil then return firstOf (← Eval.call (place.site event) m [a, b])
  let (culprit, label?) := if a.number?.isNone then (a, labels.1) else (b, labels.2)
  if isBitwise op then
    if a.number?.isSome && b.number?.isSome then
      failInteger place (if a.toInteger?.isNone then labels.1 else labels.2)
    else place.failType "perform bitwise operation on" culprit label?
  else place.failType "perform arithmetic on" culprit label?

def arith (place : Place) (op : ArithOp) (labels : Option Label × Option Label) (a b : Value) :
    Eval Value := do
  match operand? op a, operand? op b with
  | some x, some y =>
    match compute op x y with
    | .ok n => return n.value
    | .error .noInteger =>
      -- a metamethod may still know what to do with numbers that are no integers
      arithByMetamethod place op labels a b
    | .error fault => place.fail fault.message
  | _, _ => arithByMetamethod place op labels a b

def negate (place : Place) (label? : Option Label) (v : Value) : Eval Value := do
  match v.number? with
  | some n => return n.negate.value
  | none =>
    let m ← Eval.read fun h => h.metamethod v "__unm"
    if m.isNil then place.failType "perform arithmetic on" v label?
    else return firstOf (← Eval.call (place.site "unm") m [v, v])

def bitNot (place : Place) (label? : Option Label) (v : Value) : Eval Value := do
  match v.toInteger? with
  | some n => return .integer (n ^^^ -1)
  | none =>
    let m ← Eval.read fun h => h.metamethod v "__bnot"
    if !m.isNil then return firstOf (← Eval.call (place.site "bnot") m [v, v])
    else if v.number?.isSome then failInteger place label?
    else place.failType "perform bitwise operation on" v label?

/-! ## Strings and length -/

def concat (place : Place) (labels : Option Label × Option Label) (a b : Value) :
    Eval Value := do
  match a.stringBytes?, b.stringBytes? with
  | some x, some y =>
    if 4096 < x.size + y.size then Eval.reserve (x.size + y.size)
    return .string (x ++ y)
  | _, _ =>
    let m ← Eval.read fun h => binaryMetamethod h "__concat" a b
    if !m.isNil then return firstOf (← Eval.call (place.site "concat") m [a, b])
    if a.stringBytes?.isSome then place.failType "concatenate" b labels.2
    else place.failType "concatenate" a labels.1

def length (place : Place) (label? : Option Label) (v : Value) : Eval Value := do
  match v with
  | .string s => return .integer (Int64.ofNat s.size)
  | v =>
    let m ← Eval.read fun h => h.metamethod v "__len"
    if !m.isNil then return firstOf (← Eval.call (place.site "len") m [v, v])
    match v with
    | .table id => return .integer (← Eval.read fun h => Int64.ofNat (h.table id).length)
    | v => place.failType "get length of" v label?

/-! ## Comparison -/

def bytesLess : List UInt8 → List UInt8 → Bool
  | _, [] => false
  | [], _ :: _ => true
  | a :: as, b :: bs => a < b || (a == b && bytesLess as bs)

def equal (place : Place) (a b : Value) : Eval Bool := do
  if a.same b then return true
  match a, b with
  | .table _, .table _ | .userdata _, .userdata _ =>
    let m ← Eval.read fun h => binaryMetamethod h "__eq" a b
    if m.isNil then return false
    else return (firstOf (← Eval.call (place.site "eq") m [a, b])).isTruthy
  | _, _ => return false

def failOrder {α : Type} (place : Place) (a b : Value) : Eval α := do
  let (left, right) ← Eval.read fun h => (h.typeNameOf a, h.typeNameOf b)
  if left == right then place.fail s!"attempt to compare two {left} values"
  else place.fail s!"attempt to compare {left} with {right}"

def order (place : Place) (event : String) (onNumbers : Number → Number → Bool)
    (onStrings : List UInt8 → List UInt8 → Bool) (a b : Value) : Eval Bool := do
  match a, b with
  | .string x, .string y => return onStrings x.toList y.toList
  | a, b =>
    match a.number?, b.number? with
    | some x, some y => return onNumbers x y
    | _, _ =>
      let m ← Eval.read fun h => binaryMetamethod h ("__" ++ event) a b
      if m.isNil then failOrder place a b
      else return (firstOf (← Eval.call (place.site event) m [a, b])).isTruthy

def less (place : Place) : Value → Value → Eval Bool :=
  order place "lt" Number.less bytesLess

def lessEqual (place : Place) : Value → Value → Eval Bool :=
  order place "le" Number.lessEqual fun x y => !bytesLess y x

def compare (place : Place) (op : CompareOp) (a b : Value) : Eval Bool := do
  match op with
  | .equal => equal place a b
  | .unequal => return !(← equal place a b)
  | .less => less place a b
  | .lessEqual => lessEqual place a b
  | .greater => less place b a
  | .greaterEqual => lessEqual place b a

/-! ## Text -/

def addressText (kind : String) (index : Nat) : String :=
  let digits := String.ofList (Nat.toDigits 16 (0x1000 + 16 * index))
  let zeros := String.ofList (List.replicate (14 - digits.length) '0')
  s!"{kind}: 0x{zeros}{digits}"

def plainText (h : Heap) : Value → ByteArray
  | .nil => "nil".toUTF8
  | .boolean b => (if b then "true" else "false").toUTF8
  | .integer n => (Number.integerText n).toUTF8
  | .float x => (Number.floatText x).toUTF8
  | .string s => s
  | .null => "userdata: (nil)".toUTF8
  | .table id => (addressText (h.typeNameOf (.table id)) id.index).toUTF8
  | .closure id => (addressText "function" id.index).toUTF8
  | .builtin _ => "function: builtin".toUTF8
  | .userdata id => (addressText (h.typeNameOf (.userdata id)) id.index).toUTF8
  | .coroutine id => (addressText "thread" id.index).toUTF8

/-- The text of a value, which a metamethod may give. -/
def toText (v : Value) : Eval ByteArray := do
  let m ← Eval.read fun h => h.metamethod v "__tostring"
  if m.isNil then Eval.read fun h => plainText h v
  else
    match firstOf (← Eval.callBack m [v]) with
    | .string s => return s
    | result =>
      match result.number? with
      | some n => return n.text.toUTF8
      | none => Eval.fail "'__tostring' must return a string"

end Operation

end ScriptHost.Lua
