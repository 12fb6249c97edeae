import ScriptHost.Lua.Date
import ScriptHost.Lua.Library.Arguments

/-!
# The system library

Dates of times that scripts name. What the machine itself would tell is hidden from scripts: the
clock stands still, no variables are set, and there are no files and no programs.
-/

set_option autoImplicit false

namespace ScriptHost.Lua.Library

open Operation

/-- The fields of the table for a date. -/
def dateFields (d : Date) : List (String × Value) :=
  let number (n : Int) : Value := .integer (Int64.ofInt n)
  [("year", number d.year), ("month", number d.month), ("day", number d.day),
    ("hour", number d.hour), ("min", number d.minute), ("sec", number d.second),
    ("yday", number (d.yearday + 1)), ("wday", number (d.weekday + 1)), ("isdst", .boolean false)]

def assignFields (object : Value) : List (String × Value) → Eval Unit
  | [] => return ()
  | (name, v) :: fields => do
    assign {} none object (.ofText name) v
    assignFields object fields

/-- A field of the table for a date, which is kept as a small number counted from `base`. -/
def dateField (object : Value) (name : String) (absent? : Option Int) (base : Int) :
    Eval Int := do
  let v ← index {} none object (.ofText name)
  match v.toInteger? with
  | some n =>
    let n := n.toInt
    let small := if 0 ≤ n then n - base < 2 ^ 31 else -2 ^ 31 + base ≤ n
    if !small then Eval.fail s!"field '{name}' is out-of-bound"
    return n
  | none =>
    if !v.isNil then Eval.fail s!"field '{name}' is not an integer"
    match absent? with
    | some n => return n
    | none => Eval.fail s!"field '{name}' missing in date table"

/-- The time of a date, whose fields become those of the date that it comes to. -/
def timeOf (args : Arguments) : Eval (List Value) := do
  let object := Value.table (← args.table 1)
  let year ← dateField object "year" none 1900
  let month ← dateField object "month" none 1
  let day ← dateField object "day" none 0
  let hour ← dateField object "hour" (some 12) 0
  let minute ← dateField object "min" (some 0) 0
  let second ← dateField object "sec" (some 0) 0
  let t := Date.secondsAt year month day hour minute second
  let d := Date.ofSeconds t
  assignFields object (dateFields d)
  if t = -1 || !d.isRepresentable then
    Eval.fail "time result cannot be represented in this installation"
  return [.integer (Int64.ofInt t)]

def date (args : Arguments) : Eval (List Value) := do
  let pattern := (← args.bytesOr 1 "%c".toUTF8).toList
  let d := Date.ofSeconds (← args.integerOr 2 0).toInt
  let (zone, pattern) := match pattern with
    | 33 :: rest => ("GMT", rest)
    | pattern => ("UTC", pattern)
  if !d.isRepresentable then
    Eval.fail "date result cannot be represented in this installation"
  if pattern = Utf8.bytes "*t" then
    let id ← Eval.alter fun h => h.newTable (.ofEntries (dateFields d))
    return [.table id]
  match Date.format zone d pattern pattern.length with
  | .ok text => return [.string text.toByteArray]
  | .error rest =>
    let shown := Utf8.text rest
    args.fail 1 s!"invalid conversion specifier '%{shown}'"

def system (f : SystemFunction) (args : Arguments) : Eval (List Value) :=
  match f with
  | .clock => return [.float 0.0]
  | .date => date args
  | .difftime => do return [.float ((← args.float 1) - (← args.float 2))]
  | .getenv => do
    let _ ← args.bytes 1
    return [.nil]
  | .time => if args.isNone 1 then return [.integer 0] else timeOf args
  | .absent library name => Eval.fail s!"'{library}.{name}' is not available"

end ScriptHost.Lua.Library
