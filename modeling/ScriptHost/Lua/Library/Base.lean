import ScriptHost.Lua.Library.Arguments
import ScriptHost.Lua.Parser

/-!
# The basic library

Types, metatables, traversal, errors and loading of programs.
-/

set_option autoImplicit false

namespace ScriptHost.Lua.Library

open Operation

/-! ## Programs from texts -/

/-- The most bytes with which error texts name a program. -/
def chunkNameLimit : Nat := 60

/-- How error texts name a program: after `=` as it is, after `@` with its end, and else by its
first line; long names are shortened. -/
def chunkDisplay (name : List UInt8) : String :=
  let room := chunkNameLimit - 1
  match name with
  | 61 :: rest => Utf8.text (rest.take room)
  | 64 :: rest =>
    if rest.length ≤ room then Utf8.text rest
    else "..." ++ Utf8.text (rest.drop (rest.length - (room - 3)))
  | source =>
    let firstLine := source.takeWhile (· ≠ 10)
    let room := room - "[string \"...\"]".length
    if firstLine.length = source.length && source.length < room then
      s!"[string \"{Utf8.text source}\"]"
    else s!"[string \"{Utf8.text (firstLine.take room)}...\"]"

/-- A function that runs a program text, or what is wrong with the text. -/
def loadText (name text : List UInt8) (environment : Value) (h : Heap) : Except String Value × Heap :=
  match Chunk.parse (chunkDisplay name) text with
  | .error message => (.error message, h)
  | .ok chunk =>
    let proto := chunk.protos[chunk.protos.size - 1]?.getD {}
    let (cell, h) := h.newCell environment
    let (f, h) := h.newClosure (.script chunk proto (proto.captures.map fun _ => cell).toArray)
    (.ok (.closure f), h)

def compile (name text : List UInt8) (environment : Value) : Eval (Except String Value) :=
  Eval.alter (loadText name text environment)

/-- What the main function of a program sees as its global variables. -/
def globalsValue : Eval Value := Eval.read fun h => .table h.globals

/-- The text of a script file without a byte order mark and a first line that begins with `#`. -/
def scriptText (bytes : List UInt8) : List UInt8 :=
  let bytes := match bytes with
    | 0xEF :: 0xBB :: 0xBF :: rest => rest
    | bytes => bytes
  match bytes with
  | 35 :: rest => rest.dropWhile (· ≠ 10)
  | bytes => bytes

/-! ## Errors -/

def caught : Thrown → Value
  | .error v => v
  | .outOfMemory => .ofText "not enough memory"

/-- Raises a value; a string is preceded by the place of a calling function. -/
def raiseAt (level : Int64) (value : Value) : Eval (List Value) := do
  match value with
  | .string s =>
    if level ≤ 0 then Eval.raise (.error value)
    else
      let site? := (← Eval.sites)[(level.toInt - 1).toNat]?
      let place := (site?.map Site.text).getD ""
      Eval.raise (.error (.string (place.toUTF8 ++ s)))
  | value => Eval.raise (.error value)

/-! ## Numbers from texts -/

/-- The whole number that a text denotes in a base. -/
def numeralInBase? (base : Nat) (bs : List UInt8) : Option Int64 :=
  let bs := ((bs.dropWhile Number.isSpace).reverse.dropWhile Number.isSpace).reverse
  let (negative, digits) := match bs with
    | 45 :: rest => (true, rest)
    | bs => (false, bs)
  let digitValue? (b : UInt8) : Option Nat :=
    if Number.isDigit b then some (b.toNat - 48)
    else
      let c := b ||| 32
      if 97 ≤ c && c ≤ 122 then some (c.toNat - 87) else none
  if digits.isEmpty then none
  else
    let step (acc : Option Int64) (b : UInt8) : Option Int64 := do
      let n ← acc
      let d ← digitValue? b
      if d < base then some (n * Int64.ofNat base + Int64.ofNat d) else none
    (digits.foldl step (some 0)).map fun n => if negative then -n else n

/-! ## The functions -/

def tonumber (args : Arguments) : Eval (List Value) := do
  if args.isNone 2 then
    let v ← args.any 1
    return [((v.toNumber?).map Number.value).getD .nil]
  else
    let base ← args.integer 2
    match args.get 1 with
    | .string s =>
      args.check 2 (2 ≤ base && base ≤ 36) "base out of range"
      return [((numeralInBase? base.toInt.toNat s.toList).map Value.integer).getD .nil]
    | _ => args.failType 1 "string"

def select (args : Arguments) : Eval (List Value) := do
  match args.get 1 with
  | .string s =>
    if s.toList == [35] then return [.integer (Int64.ofNat (args.count - 1))]
  | _ => pure ()
  let n := (← args.integer 1).toInt
  let count : Int := args.count
  if n < 0 then
    args.check 1 (1 ≤ count + n) "index out of range"
    return args.values.drop (count + n).toNat
  else
    args.check 1 (1 ≤ n) "index out of range"
    return args.values.drop n.toNat

def next (args : Arguments) : Eval (List Value) := do
  let id ← args.table 1
  let found ← Eval.read fun h =>
    let t := h.table id
    let key? : Except Unit (Option Key) :=
      match args.get 2 with
      | .nil => .ok (t.keyFrom? 1)
      | v =>
        match v.key? with
        | some k => t.keyAfter k
        | none => .error ()
    key?.map fun key? => key?.map fun k => (k.value, t.get k)
  match found with
  | .ok (some (k, v)) => return [k, v]
  | .ok none => return [.nil]
  | .error () => Eval.raiseText "invalid key to 'next'"

def getmetatable (args : Arguments) : Eval (List Value) := do
  let v ← args.any 1
  Eval.read fun h =>
    match v with
    | .userdata _ => [.boolean false]
    | v =>
      match h.metatable? v with
      | none => [.nil]
      | some id =>
        let hidden := h.rawGetText id "__metatable"
        [if hidden.isNil then .table id else hidden]

def setmetatable (args : Arguments) : Eval (List Value) := do
  let id ← args.table 1
  let new? ← match args.get 2 with
    | .nil => if args.isMissing 2 then args.failType 2 "nil or table" else pure none
    | .table m => pure (some m)
    | _ => args.failType 2 "nil or table"
  let isProtected ← Eval.read fun h => !(h.metamethod (.table id) "__metatable").isNil
  if isProtected then Eval.fail "cannot change a protected metatable"
  Eval.modify fun h => h.modifyTable id fun t => { t with metatable? := new? }
  return [args.get 1]

def ipairsStep (args : Arguments) : Eval (List Value) := do
  let i := (← args.integer 2) + 1
  let v ← index {} none (args.get 1) (.integer i)
  return if v.isNil then [.nil] else [.integer i, v]

def pairs (args : Arguments) : Eval (List Value) := do
  let v ← args.any 1
  let m ← Eval.read fun h => h.metamethod v "__pairs"
  if m.isNil then return [.builtin (.base .next), v, .nil]
  else
    let vs ← Eval.callBack m [v]
    return [firstOf vs, firstOf (vs.drop 1), firstOf (vs.drop 2)]

def rawlen (args : Arguments) : Eval (List Value) := do
  match args.get 1 with
  | .table id => return [.integer (← Eval.read fun h => Int64.ofNat (h.table id).length)]
  | .string s => return [.integer (Int64.ofNat s.size)]
  | _ => args.fail 1 "table or string expected"

def pcall (args : Arguments) : Eval (List Value) := do
  match args.values with
  | [] => Eval.raiseText "not enough arguments to pcall"
  | f :: rest =>
    match ← Eval.protect (Eval.callBack f rest) with
    | .ok vs => return .boolean true :: vs
    | .error thrown => return [.boolean false, caught thrown]

def xpcall (args : Arguments) : Eval (List Value) := do
  match args.values with
  | f :: handler :: rest =>
    match ← Eval.protect (Eval.callBack f rest) with
    | .ok vs => return .boolean true :: vs
    | .error thrown =>
      match ← Eval.protect (Eval.callBack handler [caught thrown]) with
      | .ok vs => return [.boolean false, firstOf vs]
      | .error thrown => return [.boolean false, caught thrown]
  | _ => Eval.raiseText "not enough arguments to xpcall"

/-- Collects the pieces of a program that a function gives, up to an empty one; at most as many
as `Int64` can count. -/
def readPieces (args : Arguments) : Eval (List UInt8) := fun next =>
  .loop
    (fun state =>
      .call (args.get 1) [] {} fun vs =>
        match firstOf vs with
        | .nil => .done (.returned state)
        | .string s => if s.isEmpty then .done (.returned state) else .done (.again (state ++ [.string s]))
        | _ => .raise (.error (.ofText "reader function must return a string")))
    [] (next [])

/-- The result of loading: a function, or nil and a message. -/
def loaded : Except String Value → List Value
  | .ok f => [f]
  | .error message => [.nil, .ofText message]

/-- Whether a mode text admits programs in text form. -/
def admitsText (mode : ByteArray) : Bool := mode.toList.contains 116

def refusal (mode : ByteArray) : String :=
  s!"attempt to load a text chunk (mode is '{shownBytes mode}')"

def load (args : Arguments) : Eval (List Value) := do
  let mode ← args.bytesOr 3 "bt".toUTF8
  let environment ← if args.isMissing 4 then globalsValue else pure (args.get 4)
  match (args.get 1).stringBytes? with
  | some s =>
    let name ← args.bytesOr 2 s
    if !admitsText mode then return loaded (.error (refusal mode))
    return loaded (← compile name.toList s.toList environment)
  | none =>
    let name ← args.bytesOr 2 "=(load)".toUTF8
    let _ ← args.callable 1
    let pieces ← Eval.protect fun _ => readPieces args fun _ => .done (.returned [])
    match pieces with
    | .error thrown => return [.nil, caught thrown]
    | .ok pieces =>
      let text := pieces.flatMap fun v => (v.stringBytes?.map ByteArray.toList).getD []
      if !admitsText mode then return loaded (.error (refusal mode))
      return loaded (← compile name.toList text environment)

def faultText (path : List UInt8) : ReadFault → String
  | .notFound => s!"cannot open {Utf8.text path}: No such file or directory"
  | .notDirectory => s!"cannot open {Utf8.text path}: Not a directory"
  | .isDirectory => s!"cannot read {Utf8.text path}: Is a directory"
  | .nameTooLong => s!"cannot open {Utf8.text path}: File name too long"
  | .nulInName | .notText => s!"cannot open {Utf8.text path}"

/-- Reads and compiles a script file. -/
def compileFile (path : ByteArray) (environment : Value) : Eval (Except String Value) := do
  let path := path.toList.takeWhile (· ≠ 0)
  match ← Eval.ask (.readFile ⟨path⟩) with
  | .error fault => return .error (faultText path fault)
  | .ok bytes => compile (64 :: path) (scriptText bytes.toList) environment

def loadfile (args : Arguments) : Eval (List Value) := do
  let path ← args.bytesOr 1 .empty
  let mode ← args.bytesOr 2 "bt".toUTF8
  let environment ← if args.isMissing 3 then globalsValue else pure (args.get 3)
  if !admitsText mode then return loaded (.error (refusal mode))
  return loaded (← compileFile path environment)

def dofile (args : Arguments) : Eval (List Value) := do
  let path ← args.bytesOr 1 .empty
  match ← compileFile path (← globalsValue) with
  | .ok f => Eval.callBack f []
  | .error message => Eval.raiseText message

def collectOptions : List String :=
  ["stop", "restart", "collect", "count", "step", "setpause", "setstepmul", "isrunning",
    "generational", "incremental"]

def collectgarbage (collect : Heap → Heap) (args : Arguments) : Eval (List Value) := do
  let option ← args.bytesOr 1 "collect".toUTF8
  let option := shownBytes option
  args.check 1 (collectOptions.contains option) s!"invalid option '{option}'"
  if option = "collect" then
    Eval.modify collect
    return [.integer 0]
  else if option = "count" then
    return [.float (← Eval.read fun h => h.used.toFloat / 1024.0)]
  else if option = "step" || option = "isrunning" then return [.boolean true]
  else if option = "generational" || option = "incremental" then
    return [.ofText "incremental"]
  else return [.integer 0]

def base (collect : Heap → Heap) (f : BaseFunction) (args : Arguments) : Eval (List Value) :=
  match f with
  | .assert => do
    let condition ← args.any 1
    if condition.isTruthy then return args.values
    else
      raiseAt 1 (if args.isMissing 2 then .ofText "assertion failed!" else args.get 2)
  | .collectgarbage => collectgarbage collect args
  | .dofile => dofile args
  | .error => do raiseAt (← args.integerOr 2 1) (args.get 1)
  | .getmetatable => getmetatable args
  | .ipairs => do
    let v ← args.any 1
    return [.builtin (.base .ipairsStep), v, .integer 0]
  | .ipairsStep => ipairsStep args
  | .load => load args
  | .loadfile => loadfile args
  | .next => next args
  | .pairs => pairs args
  | .pcall => pcall args
  | .xpcall => xpcall args
  | .rawequal => do
    let a ← args.any 1
    let b ← args.any 2
    return [.boolean (a.same b)]
  | .rawget => do
    let id ← args.table 1
    let key ← args.any 2
    Eval.read fun h => [(key.key?.map (h.rawGet id)).getD .nil]
  | .rawlen => rawlen args
  | .rawset => do
    let id ← args.table 1
    let key ← args.any 2
    let value ← args.any 3
    assignRaw {} id key value
    return [args.get 1]
  | .select => select args
  | .setmetatable => setmetatable args
  | .tonumber => tonumber args
  | .tostring => do
    let v ← args.any 1
    return [.string (← toText v)]
  | .type => do
    let v ← args.any 1
    return [.ofText v.typeName]
  | .warn => do
    let _ ← args.bytes 1
    return []

end ScriptHost.Lua.Library
