import ScriptHost.Files
import ScriptHost.Json.Basic
import ScriptHost.Lua.Heap

/-!
# Actions of scripts

What a script does, step by step, as a value: it changes the heap, calls functions, raises
errors, and asks its host. Everything outside the heap is reached through a `Request`, so a
host decides alone what a script can see and change there.
-/

set_option autoImplicit false

namespace ScriptHost.Lua

structure Position where
  chunk : String
  line : Nat
deriving DecidableEq, Repr, Inhabited

/-- What error texts begin with. -/
def Position.text (p : Position) : String := s!"{p.chunk}:{p.line}: "

/-- What error texts call an expression, such as the global `x`. -/
structure Label where
  kind : String
  name : String
deriving DecidableEq, Repr, Inhabited

/-- The label in parentheses, after a blank. -/
def Label.text (l : Label) : String := s!" ({l.kind} '{l.name}')"

def Label.suffix (label? : Option Label) : String := (label?.map Label.text).getD ""

/-- Where and under which name a function is called. -/
structure Site where
  /-- The line of the call, if a script function makes it. -/
  position? : Option Position := none
  label? : Option Label := none
  /-- Whether the call is made on behalf of an operation or of a function of the library. -/
  nested : Bool := true
deriving DecidableEq, Repr, Inhabited

def Site.text (s : Site) : String := (s.position?.map Position.text).getD ""

inductive Thrown where
  | error (value : Value)
  | outOfMemory
deriving Inhabited

/-- How a part of a function body ends. -/
inductive Completion where
  | normal
  /-- The loop goes on with a new state. -/
  | again (state : List Value)
  | broke
  /-- A jump, with the variables in scope where it starts. -/
  | goto (label : String) (locals : List CellId)
  | returned (values : List Value)
deriving Inhabited

inductive Request where
  /-- Writes to the current output, ill formed text replaced. -/
  | write (bytes : ByteArray)
  | result (id : ResultsId) (key : String)
  | setResult (id : ResultsId) (key : String) (value : Json)
  | removeResult (id : ResultsId) (key : String)
  | results (id : ResultsId)
  | cachedKeys (id? : Option ManagerId)
  | isCached (id? : Option ManagerId) (key : String)
  | clearEngines (id? : Option ManagerId)
  | contextField (id : ContextId) (name : String)
  | readFile (path : Path)
  /-- Calls a function that the host gave for the time of one run. -/
  | callback (index : Nat)
deriving Inhabited

inductive Detail where
  | text (value : String)
  | texts (values : List String)
  | flag (value : Bool)
  | absent
deriving DecidableEq, Repr, Inhabited

/-- What the host answers. Requests to a manager that is gone have no answer. -/
def Request.Reply : Request → Type
  | write _ => Except String Unit
  | result .. => Option Json
  | setResult .. | removeResult .. => Unit
  | results _ => List (String × Json)
  | cachedKeys _ => Option (List String)
  | isCached .. => Option Bool
  | clearEngines _ => Option Nat
  | contextField .. => Detail
  | readFile _ => Except ReadFault ByteArray
  | callback _ => Bool

inductive Action where
  | done (completion : Completion)
  | raise (thrown : Thrown)
  | heap (change : Heap → Heap × Action)
  | call (f : Value) (arguments : List Value) (site : Site) (next : List Value → Action)
  /-- A call whose results are those of the running function. -/
  | tail (f : Value) (arguments : List Value) (site : Site)
  /-- Repeats a body until it breaks. -/
  | loop (body : List Value → Action) (state : List Value) (next : Action)
  /-- A block with labels. `jump` goes on after the label, if it is one of the block. -/
  | labelled (body : Action) (jump : String → List CellId → Option Action) (next : Action)
  /-- A body after which a value is closed, however the body ends. -/
  | closing (value : Value) (body next : Action)
  /-- A body whose errors are caught. -/
  | protect (body : Action) (next : Except Thrown (List Value) → Action)
  /-- Looks at the active calls, innermost first. -/
  | sites (next : List Site → Action)
  /-- Fails if so many more bytes exceed the limit of the heap. -/
  | reserve (bytes : Nat) (next : Action)
  | ask (request : Request) (next : request.Reply → Action)
  | resume (id : CoroutineId) (arguments : List Value)
      (next : Except Thrown (List Value) → Action)
  | yield (values : List Value) (next : List Value → Action)
  /-- Looks at which coroutine is running, if any. -/
  | running (next : Option CoroutineId → Action)
  /-- Ends a suspended coroutine. The values it would still have closed come innermost first. -/
  | abandon (id : CoroutineId) (next : List Value → Action)
deriving Inhabited

/-- A part of an action that yields a value to what follows. -/
def Eval (α : Type) : Type := (α → Action) → Action

namespace Eval

instance : Monad Eval where
  pure a := fun next => next a
  bind m f := fun next => m fun a => f a next

variable {α : Type}

def run (m : Eval (List Value)) : Action := m fun values => .done (.returned values)

def read (f : Heap → α) : Eval α := fun next => .heap fun h => let a := f h; (h, next a)

def modify (f : Heap → Heap) : Eval Unit := fun next => .heap fun h => (f h, next ())

def alter (f : Heap → α × Heap) : Eval α := fun next => .heap fun h =>
  let (a, h) := f h
  (h, next a)

def raise (thrown : Thrown) : Eval α := fun _ => .raise thrown

def raiseText (text : String) : Eval α := raise (.error (.ofText text))

def sites : Eval (List Site) := fun next => .sites next

/-- An error at the place from where the running library function was called. -/
def fail (text : String) : Eval α := do
  let place := match ← sites with
    | site :: _ => site.text
    | [] => ""
  raiseText (place ++ text)

def call (site : Site) (f : Value) (arguments : List Value) : Eval (List Value) :=
  fun next => .call f arguments site next

/-- A call that a library function makes. -/
def callBack (f : Value) (arguments : List Value) : Eval (List Value) :=
  call {} f arguments

def reserve (bytes : Nat) : Eval Unit := fun next => .reserve bytes (next ())

def ask (request : Request) : Eval request.Reply := fun next => .ask request next

/-- Makes a failure of the host an error that scripts can catch. -/
def failure (f : Failure) : Eval α :=
  match f with
  | .memory => raise .outOfMemory
  | f => do
    let id ← alter fun h => h.newUserdata (.failure f)
    raise (.error (.userdata id))

def protect (body : Eval (List Value)) : Eval (Except Thrown (List Value)) :=
  fun next => .protect (run body) next

def forEach (values : List α) (f : α → Eval Unit) : Eval Unit :=
  match values with
  | [] => pure ()
  | v :: vs => do
    f v
    forEach vs f

/-- Repeats a step that turns a state into the next one, or ends with a result. The state of the
loop is one number. -/
def iterate (start : Nat) (step : Nat → Eval (Option Nat)) : Eval Unit := fun next =>
  .loop
    (fun state =>
      let i := match state with
        | .integer n :: _ => n.toInt.toNat
        | _ => 0
      step i fun
        | some i => .done (.again [.integer (Int64.ofNat i)])
        | none => .done .broke)
    [.integer (Int64.ofNat start)] (next ())

end Eval

/-- The first of several values, nil if there is none. -/
def firstOf : List Value → Value
  | [] => .nil
  | v :: _ => v

end ScriptHost.Lua
