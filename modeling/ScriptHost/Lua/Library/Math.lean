import ScriptHost.Lua.Library.Arguments

/-!
# The mathematical library
-/

set_option autoImplicit false

namespace ScriptHost.Lua.Library

/-- A float as an integer if it has no fraction and integers reach that far. -/
def wholeOrFloat (x : Float) : Value :=
  match Value.integerOfFloat? x with
  | some n => .integer n
  | none => .float x

def applyFloat (args : Arguments) (f : Float → Float) : Eval (List Value) := do
  return [.float (f (← args.float 1))]

def extreme (better : Number → Number → Bool) (args : Arguments) : Eval (List Value) := do
  let first ← args.number 1
  let rec go (best : Number) (i : Nat) : Nat → Eval Number
    | 0 => return best
    | n + 1 => do
      let x ← args.number i
      go (if better x best then x else best) (i + 1) n
  return [(← go first 2 (args.count - 1)).value]

def fmod (args : Arguments) : Eval (List Value) := do
  match args.get 1, args.get 2 with
  | .integer a, .integer b =>
    args.check 2 (b != 0) "zero"
    return [.integer (Int64.ofInt (a.toInt.tmod b.toInt))]
  | _, _ => return [.float (Number.truncatedMod (← args.float 1) (← args.float 2))]

def modf (args : Arguments) : Eval (List Value) := do
  let x ← args.float 1
  let whole := if x < 0 then x.ceil else x.floor
  let shown := match args.get 1 with
    | .integer n => Value.float n.toFloat
    | _ => Value.float whole
  return [shown, .float (if x == whole then 0.0 else x - whole)]

def log (args : Arguments) : Eval (List Value) := do
  let x ← args.float 1
  if args.isNone 2 then return [.float x.log]
  let base ← args.float 2
  if base == 2.0 then return [.float x.log2]
  else if base == 10.0 then return [.float x.log10]
  else return [.float (x.log / base.log)]

def math (f : MathFunction) (args : Arguments) : Eval (List Value) :=
  match f with
  | .abs => do
    match ← args.number 1 with
    | .integer n => return [.integer (if n < 0 then -n else n)]
    | .float x => return [.float x.abs]
  | .acos => applyFloat args Float.acos
  | .asin => applyFloat args Float.asin
  | .atan => do
    let y ← args.float 1
    let x ← if args.isNone 2 then pure 1.0 else args.float 2
    return [.float (Float.atan2 y x)]
  | .ceil => do
    match ← args.number 1 with
    | .integer n => return [.integer n]
    | .float x => return [wholeOrFloat x.ceil]
  | .floor => do
    match ← args.number 1 with
    | .integer n => return [.integer n]
    | .float x => return [wholeOrFloat x.floor]
  | .cos => applyFloat args Float.cos
  | .sin => applyFloat args Float.sin
  | .tan => applyFloat args Float.tan
  | .sqrt => applyFloat args Float.sqrt
  | .exp => applyFloat args Float.exp
  | .deg => applyFloat args fun x => x * (180.0 / 3.141592653589793)
  | .rad => applyFloat args fun x => x * (3.141592653589793 / 180.0)
  | .fmod => fmod args
  | .log => log args
  | .max => extreme (fun x best => Number.less best x) args
  | .min => extreme Number.less args
  | .modf => modf args
  | .random => do
    if args.count = 0 then return [.float 0.5]
    else if args.count = 1 then
      let high ← args.integer 1
      args.check 1 (1 ≤ high || high == 0) "interval is empty"
      return [.integer (if high == 0 then 0 else 1)]
    else if args.count = 2 then
      let low ← args.integer 1
      let high ← args.integer 2
      args.check 2 (low ≤ high) "interval is empty"
      return [.integer low]
    else Eval.fail "wrong number of arguments"
  | .randomseed => return []
  | .tointeger => do
    let v ← args.any 1
    return [match v with
      | .integer n => .integer n
      | v => ((v.toInteger?).map Value.integer).getD .nil]
  | .type => do
    match ← args.any 1 with
    | .integer _ => return [.ofText "integer"]
    | .float _ => return [.ofText "float"]
    | _ => return [.nil]
  | .ult => do
    let a ← args.integer 1
    let b ← args.integer 2
    return [.boolean (a.toUInt64 < b.toUInt64)]

end ScriptHost.Lua.Library
