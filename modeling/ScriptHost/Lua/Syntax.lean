import ScriptHost.Lua.Value

/-!
# Programs

Programs after name resolution. A local variable is named by how many variables were declared
after it in the same function, a variable of an enclosing function by its place among the
variables that the function captures, and every other name is a field of the environment.
-/

set_option autoImplicit false

namespace ScriptHost.Lua

inductive UnaryOp where
  | negate | not | length | bitNot
deriving DecidableEq, Repr, Inhabited

inductive ArithOp where
  | add | subtract | multiply | modulo | power | divide | floorDivide
  | bitAnd | bitOr | bitXor | shiftLeft | shiftRight
deriving DecidableEq, Repr, Inhabited

inductive CompareOp where
  | equal | unequal | less | lessEqual | greater | greaterEqual
deriving DecidableEq, Repr, Inhabited

inductive BinaryOp where
  | arith (op : ArithOp)
  | compare (op : CompareOp)
  | concat
  | and
  | or
deriving DecidableEq, Repr, Inhabited

mutual

inductive Expr where
  | nil
  | boolean (value : Bool)
  | integer (value : Int64)
  | float (value : Float)
  | string (value : ByteArray)
  | varargs
  | local (index : Nat) (name : String)
  | captured (index : Nat) (name : String)
  /-- A field of the environment, which is a variable. -/
  | global (environment : Expr) (name : ByteArray) (line : Nat)
  | function (index : Nat)
  | index (object key : Expr) (line : Nat)
  | call (function : Expr) (arguments : List Expr) (line : Nat)
  | method (object : Expr) (name : ByteArray) (arguments : List Expr) (line : Nat)
  | unary (op : UnaryOp) (operand : Expr) (line : Nat)
  | binary (op : BinaryOp) (left right : Expr) (line : Nat)
  /-- An expression in parentheses, which has one value. -/
  | group (inner : Expr)
  | table (fields : List Field) (line : Nat)

inductive Field where
  | item (value : Expr)
  | entry (key value : Expr)

end

instance : Inhabited Expr := ⟨.nil⟩

inductive Attribute where
  | regular
  | constant
  /-- Closed when its block ends. -/
  | closing
deriving DecidableEq, Repr, Inhabited

inductive Stat where
  | declare (attributes : List (String × Attribute)) (values : List Expr) (line : Nat)
  | declareFunction (name : String) (index : Nat)
  | assign (targets values : List Expr) (line : Nat)
  | call (call : Expr)
  | block (body : List Stat)
  | whileDo (condition : Expr) (body : List Stat)
  /-- A body that is repeated until it breaks. -/
  | repeatBody (body : List Stat)
  | ifThen (condition : Expr) (thenBody elseBody : List Stat)
  | countLoop (first last step : Expr) (body : List Stat) (line : Nat)
  | eachLoop (count : Nat) (values : List Expr) (body : List Stat) (line : Nat)
  | return (values : List Expr) (line : Nat)
  | break
  | goto (label : String)
  | label (name : String)
deriving Inhabited

/-- Where a function finds a variable that it captures, when it is made. -/
inductive Capture where
  | local (index : Nat)
  | captured (index : Nat)
deriving DecidableEq, Repr, Inhabited

structure Proto where
  parameters : Nat := 0
  isVararg : Bool := false
  captures : List Capture := []
  body : List Stat := []
deriving Inhabited

/-- A program: its functions, the main one last, and the name that error texts give it. -/
structure Chunk where
  name : String
  protos : Array Proto
deriving Inhabited

end ScriptHost.Lua
