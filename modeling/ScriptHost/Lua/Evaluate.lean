import ScriptHost.Lua.Operation
import ScriptHost.Lua.Syntax

/-!
# Evaluation of programs

What a program does, as an action. Operands are evaluated from left to right. The values of an
assignment are found before the first of them is stored, and stored from right to left.
-/

set_option autoImplicit false

namespace ScriptHost.Lua

structure Activation where
  chunk : Chunk
  captured : Array CellId
  varargs : List Value
deriving Inhabited

/-- The variables in scope, innermost first. -/
abbrev Locals := List CellId

/-- What error texts call an expression. -/
def Expr.label? : Expr → Option Label
  | .local _ name => some ⟨"local", name⟩
  | .captured _ name => some ⟨"upvalue", name⟩
  | .global _ name _ => some ⟨"global", Utf8.text name.toList⟩
  | .string s => some ⟨"constant", Utf8.text s.toList⟩
  | .index (.local _ "_ENV") (.string name) _ | .index (.captured _ "_ENV") (.string name) _ =>
    some ⟨"global", Utf8.text name.toList⟩
  | .index _ (.string name) _ => some ⟨"field", Utf8.text name.toList⟩
  | .index _ (.integer n) _ =>
    some ⟨"field", if 0 ≤ n.toInt && n.toInt < 256 then "integer index" else "?"⟩
  | .index _ _ _ => some ⟨"field", "?"⟩
  | .group inner => inner.label?
  | _ => none

/-- The values that fill a number of places: too few are filled up with nil. -/
def adjust : Nat → List Value → List Value
  | 0, _ => []
  | n + 1, [] => .nil :: adjust n []
  | n + 1, v :: vs => v :: adjust n vs

namespace Activation

def place (a : Activation) (line : Nat) : Place := ⟨some ⟨a.chunk.name, line⟩⟩

def site (a : Activation) (line : Nat) (label? : Option Label) : Site :=
  { position? := some ⟨a.chunk.name, line⟩, label?, nested := false }

def localCell (locals : Locals) (i : Nat) : CellId := locals[i]?.getD ⟨0⟩

def capturedCell (a : Activation) (i : Nat) : CellId := a.captured[i]?.getD ⟨0⟩

/-- Makes a function with the variables that it captures. -/
def makeFunction (a : Activation) (locals : Locals) (i : Nat) : Eval Value := do
  let proto := a.chunk.protos[i]?.getD {}
  let captured := proto.captures.map fun
    | .local i => localCell locals i
    | .captured i => a.capturedCell i
  return .closure (← Eval.alter fun h => h.newClosure (.script a.chunk proto captured.toArray))

/-- The number of items and of other entries that a constructor names. -/
def countFields : List Field → Nat × Nat
  | [] => (0, 0)
  | .item _ :: fields => let (items, others) := countFields fields; (items + 1, others)
  | .entry .. :: fields => let (items, others) := countFields fields; (items, others + 1)

/-- Whether an expression can have any number of values. -/
def isMultiple : Expr → Bool
  | .varargs | .call .. | .method .. => true
  | _ => false

def tableFor (fields : List Field) : Table :=
  let (items, others) := countFields fields
  match fields.getLast? with
  | some (.item e) => .withRoom (if isMultiple e then items - 1 else items) others
  | _ => .withRoom items others

def storeItems (id : TableId) (items : List Value) : Eval Unit :=
  Eval.modify fun h =>
    let h := h.modifyTable id fun t =>
      if t.arraySize < items.length then t.relayout items.length t.capacity else t
    items.zipIdx.foldl (fun h (v, i) => h.rawSet id (.integer (Int64.ofNat (i + 1))) v) h

/-- The values of two operands. A variable to the left is read last. -/
def operands (left : Expr) (x y : Eval (List Value)) : Eval (Value × Value) :=
  match left with
  | .local .. => do
    let y := firstOf (← y)
    return (firstOf (← x), y)
  | _ => do
    let x := firstOf (← x)
    return (x, firstOf (← y))

mutual

/-- The values of an expression: one, unless it is a call or stands for further arguments. -/
def values (a : Activation) (locals : Locals) : Expr → Eval (List Value)
  | .nil => return [.nil]
  | .boolean b => return [.boolean b]
  | .integer n => return [.integer n]
  | .float x => return [.float x]
  | .string s => return [.string s]
  | .varargs => return a.varargs
  | .local i _ => return [← Eval.read fun h => h.cell (localCell locals i)]
  | .captured i _ => return [← Eval.read fun h => h.cell (a.capturedCell i)]
  | .global environment name line => do
    let object := firstOf (← values a locals environment)
    return [← Operation.index (a.place line) environment.label? object (.string name)]
  | .function i => return [← a.makeFunction locals i]
  | .index object key line => do
    let objectValue := firstOf (← values a locals object)
    let keyValue := firstOf (← values a locals key)
    return [← Operation.index (a.place line) object.label? objectValue keyValue]
  | .call f arguments line => do
    let fValue := firstOf (← values a locals f)
    let args ← valuesOfList a locals arguments
    Eval.call (a.site line f.label?) fValue args
  | .method object name arguments line => do
    let objectValue := firstOf (← values a locals object)
    let f ← Operation.index (a.place line) object.label? objectValue (.string name)
    let args ← valuesOfList a locals arguments
    Eval.call (a.site line (some ⟨"method", Utf8.text name.toList⟩)) f (objectValue :: args)
  | .unary op operand line => do
    let v := firstOf (← values a locals operand)
    match op with
    | .not => return [.boolean !v.isTruthy]
    | .negate => return [← Operation.negate (a.place line) operand.label? v]
    | .length => return [← Operation.length (a.place line) operand.label? v]
    | .bitNot => return [← Operation.bitNot (a.place line) operand.label? v]
  | .binary op left right line => do
    match op with
    | .and =>
      let v := firstOf (← values a locals left)
      if v.isTruthy then return [firstOf (← values a locals right)] else return [v]
    | .or =>
      let v := firstOf (← values a locals left)
      if v.isTruthy then return [v] else return [firstOf (← values a locals right)]
    | .concat =>
      let x := firstOf (← values a locals left)
      let y := firstOf (← values a locals right)
      return [← Operation.concat (a.place line) (left.label?, right.label?) x y]
    | .arith op =>
      let (x, y) ← operands left (values a locals left) (values a locals right)
      return [← Operation.arith (a.place line) op (left.label?, right.label?) x y]
    | .compare op =>
      let (x, y) ← operands left (values a locals left) (values a locals right)
      return [.boolean (← Operation.compare (a.place line) op x y)]
  | .group inner => return [firstOf (← values a locals inner)]
  | .table fields line => do
    let id ← Eval.alter fun h => h.newTable (tableFor fields)
    let items ← storeFields a locals id line fields
    storeItems id items
    return [.table id]

/-- The values of a list of expressions: one for each, and all of the last. -/
def valuesOfList (a : Activation) (locals : Locals) : List Expr → Eval (List Value)
  | [] => return []
  | [e] => values a locals e
  | e :: es => do
    let v := firstOf (← values a locals e)
    return v :: (← valuesOfList a locals es)

/-- Stores the entries of a constructor and yields its items. -/
def storeFields (a : Activation) (locals : Locals) (id : TableId) (line : Nat) :
    List Field → Eval (List Value)
  | [] => return []
  | [.item e] => values a locals e
  | .item e :: fields => do
    let v := firstOf (← values a locals e)
    return v :: (← storeFields a locals id line fields)
  | .entry key value :: fields => do
    let k := firstOf (← values a locals key)
    let v := firstOf (← values a locals value)
    Operation.assignRaw (a.place line) id k v
    storeFields a locals id line fields

end

def value (a : Activation) (locals : Locals) (e : Expr) : Eval Value := do
  return firstOf (← values a locals e)

/-! ## Assignment -/

/-- Where an assignment stores a value. -/
inductive Target where
  | cell (id : CellId)
  | entry (object key : Value) (label? : Option Label) (line : Nat)
deriving Inhabited

def target (a : Activation) (locals : Locals) (line : Nat) : Expr → Eval Target
  | .local i _ => return .cell (localCell locals i)
  | .captured i _ => return .cell (a.capturedCell i)
  | .global environment name line => do
    let object ← a.value locals environment
    return .entry object (.string name) environment.label? line
  | .index object key line => do
    let objectValue ← a.value locals object
    let keyValue ← a.value locals key
    return .entry objectValue keyValue object.label? line
  | _ => return .entry .nil .nil none line

def targets (a : Activation) (locals : Locals) (line : Nat) : List Expr → Eval (List Target)
  | [] => return []
  | e :: es => do
    let t ← a.target locals line e
    return t :: (← a.targets locals line es)

def store (a : Activation) (value : Value) : Target → Eval Unit
  | .cell id => Eval.modify fun h => h.setCell id value
  | .entry object key label? line => Operation.assign (a.place line) label? object key value

/-- Stores values into their targets, the last one first. -/
def storeAll (a : Activation) : List Target → List Value → Eval Unit
  | [], _ => return ()
  | t :: ts, vs => do
    a.storeAll ts (vs.drop 1)
    a.store (firstOf vs) t

/-! ## Counting loops -/

/-- The values that a counting loop goes through. -/
inductive Counting where
  /-- `more` further values after the first one. -/
  | integers (first step : Int64) (more : Nat)
  | floats (first last step : Float)
  | none

/-- Why a counting loop cannot run. -/
inductive CountFault where
  | notNumber (what : String) (value : Value)
  | zeroStep

/-- The limit of a loop over integers, none if the loop has no values. -/
def integerLimit? (first step : Int64) (limit : Number) : Option Int64 :=
  match limit with
  | .integer n => some n
  | .float x =>
    if x.isNaN then .none
    else
      match Value.integerOfFloat? (if step < 0 then x.ceil else x.floor) with
      | some n => some n
      | .none =>
        if 0 < x then if step < 0 then .none else some Int64.maxValue
        else if 0 < step then .none else some (if first == Int64.minValue then first
          else Int64.minValue)

def countIntegers (first step : Int64) (limit : Number) : Counting :=
  match integerLimit? first step limit with
  | .none => .none
  | some last =>
    let a := first.toInt
    let b := last.toInt
    if 0 < step then if b < a then .none else .integers first step ((b - a) / step.toInt).toNat
    else if a < b then .none
    else .integers first step ((a - b) / -step.toInt).toNat

def countFloats (first last step : Float) : Counting :=
  if (if 0 < step then last < first else first < last) then .none else .floats first last step

def counting (first last step : Value) : Except CountFault Counting :=
  match first, step with
  | .integer a, .integer s => do
    if s == 0 then throw .zeroStep
    match last.toNumber? with
    | some limit => return countIntegers a s limit
    | Option.none => throw (.notNumber "limit" last)
  | _, _ => do
    match last.toNumber?, step.toNumber?, first.toNumber? with
    | Option.none, _, _ => throw (.notNumber "limit" last)
    | _, Option.none, _ => throw (.notNumber "step" step)
    | _, _, Option.none => throw (.notNumber "initial value" first)
    | some b, some s, some a =>
      if s.toFloat == 0.0 then throw .zeroStep
      return countFloats a.toFloat b.toFloat s.toFloat

def failCount {α : Type} (place : Place) : CountFault → Eval α
  | .zeroStep => place.fail "'for' step is zero"
  | .notNumber what v => do
    let type ← Eval.read fun h => h.typeNameOf v
    place.fail s!"bad 'for' {what} (number expected, got {type})"

/-- Runs a body for every value of a counting loop; the body ends with the action it is given. -/
def countLoop (c : Counting) (body : Value → Action → Action) : Eval Unit := fun next =>
  match c with
  | .none => next ()
  | .integers first step more =>
    .loop
      (fun
        | [.integer i, .integer left] =>
          body (.integer i)
            (.done (if left == 0 then .broke else .again [.integer (i + step), .integer (left - 1)]))
        | _ => .done .broke)
      [.integer first, .integer (Int64.ofNat more)] (next ())
  | .floats first last step =>
    .loop
      (fun
        | [.float x] =>
          if (if 0 < step then x ≤ last else last ≤ x) then
            body (.float x) (.done (.again [.float (x + step)]))
          else .done .broke
        | _ => .done .broke)
      [.float first] (next ())

/-! ## Statements -/

def isLabel : Stat → Bool
  | .label _ => true
  | _ => false

def declaredBy : Stat → Nat
  | .declare names _ _ => names.length
  | .declareFunction .. => 1
  | _ => 0

/-- The value among several that is to be closed, if a variable says so. -/
def closingValue? : List (String × Attribute) → List Value → Option (String × Value)
  | [], _ => none
  | (name, .closing) :: _, vs => some (name, firstOf vs)
  | _ :: names, vs => closingValue? names (vs.drop 1)

/-- Runs a body after which a value is closed; nil and false need no closing. -/
def closeAfter (place : Place) (name : String) (v : Value) (body : Action) : Eval Unit :=
  fun next =>
    if v.isTruthy then
      Eval.read (fun h => (h.metamethod v "__close").isNil) fun lacking =>
        if lacking then place.fail s!"variable '{name}' got a non-closable value" fun () => next ()
        else .closing v body (next ())
    else .closing .nil body (next ())

/-- A call whose results are those of the function. -/
def tailCall (a : Activation) (locals : Locals) : Expr → Eval (List Value)
  | .call f arguments line => do
    let fValue ← a.value locals f
    let args ← a.valuesOfList locals arguments
    fun _ => .tail fValue args (a.site line f.label?)
  | .method object name arguments line => do
    let objectValue ← a.value locals object
    let f ← Operation.index (a.place line) object.label? objectValue (.string name)
    let args ← a.valuesOfList locals arguments
    fun _ => .tail f (objectValue :: args)
      (a.site line (some ⟨"method", Utf8.text name.toList⟩))
  | e => a.values locals e

def returnValues (a : Activation) (locals : Locals) : List Expr → Action
  | [e] => (a.tailCall locals e).run
  | es => (a.valuesOfList locals es).run

def declareFunction (a : Activation) (locals : Locals) (i : Nat) : Eval Locals := do
  let cell ← Eval.alter fun h => h.newCell .nil
  let f ← a.makeFunction (cell :: locals) i
  Eval.modify fun h => h.setCell cell f
  return cell :: locals

/-- A block: how its statements run, and how a jump to one of its labels goes on if so many
variables are in scope at its start. -/
structure Block where
  hasLabels : Bool
  run : Locals → (Locals → Action) → Action
  jump : Nat → String → Locals → Option Action

def Block.enter (b : Block) (locals : Locals) : Eval Unit := fun next =>
  if b.hasLabels then
    .labelled (b.run locals fun _ => .done .normal) (b.jump locals.length) (next ())
  else b.run locals fun _ => next ()

/-- Runs a block as long as a condition holds. -/
def whileLoop (condition : Eval Value) (locals : Locals) (b : Block) : Eval Unit := fun next =>
  .loop
    (fun _ => condition fun v =>
      if v.isTruthy then b.enter locals fun () => .done (.again []) else .done .broke)
    [] (next ())

/-- Runs a block until it breaks. -/
def repeatLoop (locals : Locals) (b : Block) : Eval Unit := fun next =>
  .loop (fun _ => b.enter locals fun () => .done (.again [])) [] (next ())

def countedLoop (c : Counting) (locals : Locals) (b : Block) : Eval Unit :=
  countLoop c fun v again =>
    .heap fun h =>
      let (cell, h) := h.newCell v
      (h, b.enter (cell :: locals) fun () => again)

/-- Runs a block for every list of values that a function gives, until the first value is nil. -/
def eachLoop (place : Place) (site : Site) (count : Nat) (iterator : List Value)
    (locals : Locals) (b : Block) : Eval Unit :=
  match iterator with
  | [f, state, control, closing] =>
    let loop : Action :=
      .loop
        (fun control => .call f [state, firstOf control] site fun vs =>
          if (firstOf vs).isNil then .done .broke
          else .heap fun h =>
            let (locals, h) := h.newCells locals (adjust count vs)
            (h, b.enter locals fun () => .done (.again [firstOf vs])))
        [control] (.done .normal)
    closeAfter place "(for state)" closing loop
  | _ => return ()

mutual

/-- Runs statements; `final` goes on with the variables in scope at the end. -/
def statements (a : Activation) (locals : Locals) :
    List Stat → (final : Locals → Action) → Action
  | [], final => final locals
  | .declare names es line :: rest, final =>
    Eval.run (do
      let vs := adjust names.length (← a.valuesOfList locals es)
      let locals ← Eval.alter fun h => h.newCells locals vs
      match closingValue? names vs with
      | none => fun _ => statements a locals rest final
      | some (name, v) =>
        closeAfter (a.place line) name v (statements a locals rest fun _ => .done .normal)
        fun _ => final locals)
  | .declareFunction _ i :: rest, final =>
    a.declareFunction locals i fun locals => statements a locals rest final
  | s :: rest, final => statement a locals s fun () => statements a locals rest final

/-- Goes on after a label, with as many of the variables as are in scope there. -/
def afterLabel (a : Activation) (count : Nat) (label : String) (locals : Locals) :
    List Stat → Option Action
  | [] => none
  | s :: rest =>
    match s with
    | .label name =>
      if name = label then
        some (statements a (locals.drop (locals.length - count)) rest fun _ => .done .normal)
      else afterLabel a count label locals rest
    | s => afterLabel a (count + declaredBy s) label locals rest

/-- Runs a statement that declares no variables for those after it. -/
def statement (a : Activation) (locals : Locals) : Stat → Eval Unit
  | .assign [target] [e] line => do
    let t ← a.target locals line target
    let v ← a.value locals e
    a.store v t
  | .assign targets es line => do
    let ts ← a.targets locals line targets
    let vs ← a.valuesOfList locals es
    a.storeAll ts (adjust ts.length vs)
  | .call e => do
    let _ ← a.values locals e
  | .block body =>
    Block.enter ⟨body.any isLabel, fun ls f => statements a ls body f,
      fun n l ls => afterLabel a n l ls body⟩ locals
  | .whileDo condition body =>
    whileLoop (a.value locals condition) locals ⟨body.any isLabel,
      fun ls f => statements a ls body f, fun n l ls => afterLabel a n l ls body⟩
  | .repeatBody body =>
    repeatLoop locals ⟨body.any isLabel, fun ls f => statements a ls body f,
      fun n l ls => afterLabel a n l ls body⟩
  | .ifThen condition thenBody elseBody => do
    if (← a.value locals condition).isTruthy then
      Block.enter ⟨thenBody.any isLabel, fun ls f => statements a ls thenBody f,
        fun n l ls => afterLabel a n l ls thenBody⟩ locals
    else
      Block.enter ⟨elseBody.any isLabel, fun ls f => statements a ls elseBody f,
        fun n l ls => afterLabel a n l ls elseBody⟩ locals
  | .countLoop first last step body line => do
    let x ← a.value locals first
    let y ← a.value locals last
    let z ← a.value locals step
    match counting x y z with
    | .error fault => failCount (a.place line) fault
    | .ok c =>
      countedLoop c locals ⟨body.any isLabel, fun ls f => statements a ls body f,
        fun n l ls => afterLabel a n l ls body⟩
  | .eachLoop count es body line => do
    let iterator := adjust 4 (← a.valuesOfList locals es)
    let site := a.site line (some ⟨"for iterator", "for iterator"⟩)
    eachLoop (a.place line) site count iterator locals ⟨body.any isLabel,
      fun ls f => statements a ls body f, fun n l ls => afterLabel a n l ls body⟩
  | .return es _ => fun _ => returnValues a locals es
  | .break => fun _ => .done .broke
  | .goto label => fun _ => .done (.goto label locals)
  | .label _ => return ()
  | .declare .. | .declareFunction .. => return ()

end

/-- The block that a list of statements is. -/
def blockOf (a : Activation) (body : List Stat) : Block :=
  ⟨body.any isLabel, fun ls f => a.statements ls body f, fun n l ls => a.afterLabel n l ls body⟩

def enter (chunk : Chunk) (proto : Proto) (captured : Array CellId) (args : List Value) :
    Action :=
  let a : Activation :=
    { chunk, captured, varargs := if proto.isVararg then args.drop proto.parameters else [] }
  .heap fun h =>
    let (locals, h) := h.newCells [] (adjust proto.parameters args)
    (h, (a.blockOf proto.body).enter locals fun () => .done (.returned []))

end Activation

end ScriptHost.Lua
