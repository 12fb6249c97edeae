import ScriptHost.Lua.Library.Arguments
import ScriptHost.Lua.Library.Base

/-!
# The coroutine library

The first coroutine of a heap stands for the script itself, outside of all coroutines.
-/

set_option autoImplicit false

namespace ScriptHost.Lua.Library

/-- The script outside of all coroutines. -/
def mainCoroutine : CoroutineId := ⟨0⟩

def coroutineArgument (args : Arguments) (i : Nat) : Eval CoroutineId := do
  match args.get i with
  | .coroutine id => return id
  | _ => args.failType i "coroutine"

def runningCoroutine : Eval (Option CoroutineId) := fun next => .running next

def statusOf (id : CoroutineId) : Eval CoroutineStatus := do
  if id = mainCoroutine then
    return if (← runningCoroutine).isNone then .running else .normal
  else Eval.read fun h => h.coroutineStatus id

def statusText : CoroutineStatus → String
  | .suspended => "suspended"
  | .running => "running"
  | .normal => "normal"
  | .dead => "dead"

/-- Goes on with a coroutine up to its next pause or its end. -/
def resumeCoroutine (id : CoroutineId) (values : List Value) :
    Eval (Except Thrown (List Value)) := do
  match ← statusOf id with
  | .suspended => fun next => .resume id values next
  | .dead => return .error (.error (.ofText "cannot resume dead coroutine"))
  | _ => return .error (.error (.ofText "cannot resume non-suspended coroutine"))

def newCoroutine (args : Arguments) : Eval CoroutineId := do
  let f ← args.callable 1
  Eval.alter fun h => h.newCoroutine f

/-- Closes values one after another; an error of one is the error that the next one sees. -/
def closeValues (error : Value) : List Value → Eval Value
  | [] => return error
  | v :: vs => do
    let m ← Eval.read fun h => h.metamethod v "__close"
    match ← Eval.protect (Eval.callBack m [v, error]) with
    | .ok _ => closeValues error vs
    | .error thrown => closeValues (caught thrown) vs

def closeCoroutine (args : Arguments) : Eval (List Value) := do
  let id ← coroutineArgument args 1
  match ← statusOf id with
  | .suspended | .dead =>
    let pending ← fun next => .abandon id next
    let error ← closeValues .nil (pending.filter Value.isTruthy)
    return if error.isNil then [.boolean true] else [.boolean false, error]
  | status => Eval.fail s!"cannot close a {statusText status} coroutine"

/-- A step of a wrapped coroutine; its errors go on to the caller. -/
def wrapped (captured args : List Value) : Eval (List Value) := do
  match captured with
  | [.coroutine id] =>
    match ← resumeCoroutine id args with
    | .ok vs => return vs
    | .error (.error (.string s)) => raiseAt 1 (.string s)
    | .error thrown => Eval.raise thrown
  | _ => return []

def coroutine (captured : List Value) (f : CoroutineFunction) (args : Arguments) :
    Eval (List Value) :=
  match f with
  | .create => do return [.coroutine (← newCoroutine args)]
  | .close => closeCoroutine args
  | .isyieldable => do return [.boolean (← runningCoroutine).isSome]
  | .resume => do
    let id ← coroutineArgument args 1
    match ← resumeCoroutine id (args.values.drop 1) with
    | .ok vs => return .boolean true :: vs
    | .error thrown => return [.boolean false, caught thrown]
  | .running => do
    match ← runningCoroutine with
    | some id => return [.coroutine id, .boolean false]
    | none => return [.coroutine mainCoroutine, .boolean true]
  | .status => do
    let id ← coroutineArgument args 1
    return [.ofText (statusText (← statusOf id))]
  | .wrap => do
    let id ← newCoroutine args
    let f ← Eval.alter fun h => h.newClosure (.native (.coroutine .wrapped) [.coroutine id])
    return [.closure f]
  | .wrapped => wrapped captured args.values
  | .yield => do
    match ← runningCoroutine with
    | some _ => fun next => .yield args.values next
    | none => Eval.raiseText "attempt to yield from outside a coroutine"

end ScriptHost.Lua.Library
