import ScriptHost.Lua.Operation

/-!
# Arguments of library functions

Access to arguments, counted from one, and the errors for wrong ones. An error names the
function as the call names it.
-/

set_option autoImplicit false

namespace ScriptHost.Lua

structure Arguments where
  function : String
  values : List Value
deriving Inhabited

namespace Arguments

variable {α : Type}

def count (args : Arguments) : Nat := args.values.length

/-- An argument, nil if it is missing. -/
def get (args : Arguments) (i : Nat) : Value := args.values[i - 1]?.getD .nil

def isMissing (args : Arguments) (i : Nat) : Bool := args.count < i

def fail (args : Arguments) (i : Nat) (message : String) : Eval α := do
  let label? := (← Eval.sites).head?.bind Site.label?
  let name := (label?.map Label.name).getD args.function
  if (label?.map Label.kind) == some "method" then
    if i = 1 then Eval.fail s!"calling '{name}' on bad self ({message})"
    else Eval.fail s!"bad argument #{i - 1} to '{name}' ({message})"
  else Eval.fail s!"bad argument #{i} to '{name}' ({message})"

def typeName (args : Arguments) (i : Nat) : Eval String :=
  if args.isMissing i then return "no value"
  else
    match args.get i with
    | .null => return "light userdata"
    | v => Eval.read fun h => h.typeNameOf v

def failType (args : Arguments) (i : Nat) (expected : String) : Eval α := do
  args.fail i s!"{expected} expected, got {← args.typeName i}"

def any (args : Arguments) (i : Nat) : Eval Value := do
  if args.isMissing i then args.fail i "value expected" else return args.get i

def table (args : Arguments) (i : Nat) : Eval TableId := do
  match args.get i with
  | .table id => return id
  | _ => args.failType i "table"

def function? (args : Arguments) (i : Nat) : Bool :=
  match args.get i with
  | .closure _ | .builtin _ => true
  | _ => false

def callable (args : Arguments) (i : Nat) : Eval Value := do
  if args.function? i then return args.get i else args.failType i "function"

def number (args : Arguments) (i : Nat) : Eval Number := do
  match (args.get i).toNumber? with
  | some n => return n
  | none => args.failType i "number"

def float (args : Arguments) (i : Nat) : Eval Float := do return (← args.number i).toFloat

def integer (args : Arguments) (i : Nat) : Eval Int64 := do
  match (← args.number i).toInteger? with
  | some n => return n
  | none => args.fail i "number has no integer representation"

/-- Whether an argument is left out, by nil or by its absence. -/
def isNone (args : Arguments) (i : Nat) : Bool := (args.get i).isNil

def integerOr (args : Arguments) (i : Nat) (absent : Int64) : Eval Int64 := do
  if args.isNone i then return absent else args.integer i

def bytes (args : Arguments) (i : Nat) : Eval ByteArray := do
  match (args.get i).stringBytes? with
  | some s => return s
  | none => args.failType i "string"

def bytesOr (args : Arguments) (i : Nat) (absent : ByteArray) : Eval ByteArray := do
  if args.isNone i then return absent else args.bytes i

/-- Fails unless a condition on an argument holds. -/
def check (args : Arguments) (i : Nat) (condition : Bool) (message : String) : Eval Unit := do
  if !condition then args.fail i message

end Arguments

/-- A byte string for use in an error text. -/
def shownBytes (s : ByteArray) : String := Utf8.text s.toList

end ScriptHost.Lua
