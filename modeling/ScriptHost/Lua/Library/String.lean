import ScriptHost.Lua.Library.Arguments
import ScriptHost.Lua.Format
import ScriptHost.Lua.Pack
import ScriptHost.Lua.Pattern

/-!
# The string library

Parts of strings, patterns and formats. Positions count from one; negative ones count from the
end.
-/

set_option autoImplicit false

namespace ScriptHost.Lua.Library

open Operation

/-- The most bytes of a string that a library function makes. -/
def maxResult : Nat := 2 ^ 31 - 1

/-- A start position from one; negative ones count from the end. -/
def startPosition (i : Int) (size : Nat) : Nat :=
  if 0 < i then i.toNat else if i = 0 then 1 else if i < -(size : Int) then 1
  else (size + i + 1).toNat

/-- An end position, zero if it lies before the string. -/
def endPosition (i : Int) (size : Nat) : Nat :=
  if (size : Int) < i then size else if 0 ≤ i then i.toNat
  else if i < -(size : Int) then 0 else (size + i + 1).toNat

def lowerByte (b : UInt8) : UInt8 := if 65 ≤ b && b ≤ 90 then b + 32 else b
def upperByte (b : UInt8) : UInt8 := if 97 ≤ b && b ≤ 122 then b - 32 else b

def mapBytes (f : UInt8 → UInt8) (s : ByteArray) : ByteArray := (s.toList.map f).toByteArray

/-- The same string a number of times with a separator between. -/
def repeated (s separator : ByteArray) : Nat → ByteArray
  | 0 => .empty
  | n + 1 => (List.range n).foldl (fun acc _ => acc ++ separator ++ s) s

def rep (args : Arguments) : Eval (List Value) := do
  let s ← args.bytes 1
  let n := (← args.integer 2).toInt.toNat
  let separator ← args.bytesOr 3 .empty
  if n = 0 || s.size + separator.size = 0 then return [.string .empty]
  let total := n * s.size + (n - 1) * separator.size
  if maxResult < total then Eval.fail "resulting string too large"
  Eval.reserve total
  return [.string (repeated s separator n)]

def byte (args : Arguments) : Eval (List Value) := do
  let s ← args.bytes 1
  let i := (← args.integerOr 2 1).toInt
  let first := startPosition i s.size
  let j := (← args.integerOr 3 (Int64.ofNat first)).toInt
  let last := endPosition j s.size
  return ((List.range (last + 1 - first)).map (· + first)).filterMap fun i =>
    (s[i - 1]?).map fun b => .integer (Int64.ofNat b.toNat)

def char (args : Arguments) : Eval (List Value) := do
  let rec go (i : Nat) : Nat → Eval (List UInt8)
    | 0 => return []
    | n + 1 => do
      let c := (← args.integer i).toInt
      args.check i (0 ≤ c && c < 256) "value out of range"
      return UInt8.ofNat c.toNat :: (← go (i + 1) n)
  return [.string (← go 1 args.count).toByteArray]

def sub (args : Arguments) : Eval (List Value) := do
  let s ← args.bytes 1
  let first := startPosition (← args.integer 2).toInt s.size
  let last := endPosition (← args.integerOr 3 (-1)).toInt s.size
  return [.string (s.extract (first - 1) last)]

/-! ## Patterns -/

/-- A pattern without the mark that anchors it, and whether it had one. -/
def unanchored (pattern : List UInt8) : Bool × List UInt8 :=
  match pattern with
  | 94 :: rest => (true, rest)
  | pattern => (false, pattern)

/-- Makes a fault of a pattern an error. -/
def checked {α : Type} : Except String α → Eval α
  | .ok a => return a
  | .error message => Eval.fail message

/-- Whether a string holds none of the bytes that mean something in patterns. -/
def isPlain (pattern : List UInt8) : Bool :=
  !pattern.any fun b => "^$*+?.([%-".toUTF8.toList.contains b

/-- The first place from `i` on where a string occurs. -/
def plainSearch (s pattern : ByteArray) (i : Nat) : Nat → Option Nat
  | 0 => none
  | fuel + 1 =>
    if s.size < i + pattern.size then none
    else if s.extract i (i + pattern.size) == pattern then some i
    else plainSearch s pattern (i + 1) fuel

/-- `find` and `match`, which differ in what they report. -/
def findOrMatch (isFind : Bool) (args : Arguments) : Eval (List Value) := do
  let s ← args.bytes 1
  let pattern ← args.bytes 2
  let start := startPosition (← args.integerOr 3 1).toInt s.size - 1
  if s.size < start then return [.nil]
  if isFind && ((args.get 4).isTruthy || isPlain pattern.toList) then
    match plainSearch s pattern start (s.size + 2 - start) with
    | some i => return [.integer (Int64.ofNat (i + 1)), .integer (Int64.ofNat (i + pattern.size))]
    | none => return [.nil]
  let (anchored, body) := unanchored pattern.toList
  match ← checked (Pattern.search s body anchored start (s.size + 2 - start)) with
  | none => return [.nil]
  | some (i, m) =>
    if isFind then
      let captures ← checked (m.captures.mapM fun c => c.value s)
      return .integer (Int64.ofNat (i + 1)) :: .integer (Int64.ofNat m.stop) :: captures
    else checked (m.values s i)

/-- Whether a match ends where the last one did, so that it must not count again. -/
def isRepeat (last : Int) (m : Pattern.Match) : Bool := last = m.stop

/-- The next match from a place on that does not end at `last`. -/
def nextMatch (s : ByteArray) (pattern : List UInt8) (last : Int) (i : Nat) :
    Nat → Except String (Option (Nat × Pattern.Match))
  | 0 => return none
  | fuel + 1 => do
    if s.size < i then return none
    match ← Pattern.run s pattern i with
    | some m => if isRepeat last m then nextMatch s pattern last (i + 1) fuel else return some (i, m)
    | none => nextMatch s pattern last (i + 1) fuel

def gmatch (args : Arguments) : Eval (List Value) := do
  let s ← args.bytes 1
  let pattern ← args.bytes 2
  let start := startPosition (← args.integerOr 3 1).toInt s.size - 1
  let id ← Eval.alter fun h => h.newClosure (.native (.string .gmatchStep)
    [.string s, .string pattern, .integer (Int64.ofNat (min start (s.size + 1))), .integer (-1)])
  return [.closure id]

/-- The next step of a `gmatch` loop; what it remembers is captured in its closure. -/
def gmatchStep (self : Value) (captured : List Value) : Eval (List Value) := do
  match self, captured with
  | .closure id, [.string s, .string pattern, .integer i, .integer last] =>
    let start := i.toInt.toNat
    match ← checked (nextMatch s pattern.toList last.toInt start (s.size + 2)) with
    | none =>
      Eval.modify fun h => h.setCaptured id
        [.string s, .string pattern, .integer (Int64.ofNat (s.size + 1)), .integer last]
      return [.nil]
    | some (i, m) =>
      Eval.modify fun h => h.setCaptured id
        [.string s, .string pattern, .integer (Int64.ofNat m.stop),
          .integer (Int64.ofNat m.stop)]
      checked (m.values s i)
  | _, _ => return [.nil]

/-- The replacement text with its references to captures filled in. -/
def expand (values whole : List Value) : List UInt8 → Except String (List UInt8)
  | [] => .ok []
  | 37 :: c :: rest => do
    let rest ← expand values whole rest
    if c = 37 then return 37 :: rest
    else if Number.isDigit c then
      let v? := if c = 48 then whole.head? else values[c.toNat - 49]?
      match v?.bind Value.stringBytes? with
      | some s => return s.toList ++ rest
      | none => throw s!"invalid capture index %{c.toNat - 48} in replacement string"
    else throw "invalid use of '%' in replacement string"
  | [37] => .error "invalid use of '%' in replacement string"
  | b :: rest => do return b :: (← expand values whole rest)

/-- What replaces a match. -/
def replacement (args : Arguments) (s : ByteArray) (i : Nat) (m : Pattern.Match) :
    Eval (List UInt8) := do
  let whole := s.extract i m.stop
  let values ← checked (m.values s i)
  let result ← match args.get 3 with
    | .table id => index {} none (.table id) (firstOf values)
    | .closure _ | .builtin _ => do pure (firstOf (← Eval.callBack (args.get 3) values))
    | v => do
      let text ← checked
        (expand values [.string whole] ((v.stringBytes?.map ByteArray.toList).getD []))
      pure (.string text.toByteArray)
  if !result.isTruthy then return whole.toList
  match result.stringBytes? with
  | some text => return text.toList
  | none =>
    let type ← Eval.read fun h => h.typeNameOf result
    Eval.fail s!"invalid replacement value (a {type})"

/-- Replaces matches one after another; the text so far comes reversed. -/
def gsubLoop (args : Arguments) (s : ByteArray) (pattern : List UInt8) (anchored : Bool)
    (limit : Nat) : (i count : Nat) → (last : Int) → (acc : List UInt8) → Nat →
    Eval (List UInt8 × Nat)
  | _, count, _, acc, 0 => return (acc, count)
  | i, count, last, acc, fuel + 1 => do
    if limit ≤ count then return ((s.extract i s.size).toList.reverse ++ acc, count)
    let m? ← checked (Pattern.run s pattern i)
    match m? with
    | some m =>
      if isRepeat last m then skip i count last acc fuel
      else
        let text ← replacement args s i m
        let acc := text.reverse ++ acc
        if anchored then
          return ((s.extract m.stop s.size).toList.reverse ++ acc, count + 1)
        gsubLoop args s pattern anchored limit m.stop (count + 1) m.stop acc fuel
    | none => skip i count last acc fuel
where
  /-- Keeps one byte as it is. -/
  skip (i count : Nat) (last : Int) (acc : List UInt8) (fuel : Nat) : Eval (List UInt8 × Nat) :=
    match s[i]? with
    | some b =>
      if anchored then return ((s.extract i s.size).toList.reverse ++ acc, count)
      else gsubLoop args s pattern anchored limit (i + 1) count last (b :: acc) fuel
    | none => return (acc, count)

def gsub (args : Arguments) : Eval (List Value) := do
  let s ← args.bytes 1
  let pattern ← args.bytes 2
  match args.get 3 with
  | .integer _ | .float _ | .string _ | .table _ | .closure _ | .builtin _ => pure ()
  | _ => args.failType 3 "string/function/table"
  let limit := (← args.integerOr 4 (Int64.ofNat (s.size + 1))).toInt.toNat
  let (anchored, body) := unanchored pattern.toList
  let (text, count) ← gsubLoop args s body anchored limit 0 0 (-1) [] (2 * s.size + 4)
  return [.string text.reverse.toByteArray, .integer (Int64.ofNat count)]

/-! ## Formats -/

def conversion (args : Arguments) (i : Nat) (spec : List Char) (letter : Char) :
    Eval (List UInt8) := do
  let whole := String.ofList (spec ++ [letter])
  let invalid {α : Type} : Eval α := Eval.fail s!"invalid conversion '%{whole}' to 'format'"
  let parsed (flags : String) (hasPrecision : Bool) : Eval Format :=
    match Format.parse? flags.toList hasPrecision spec with
    | some f => return f
    | none => invalid
  let text (cs : List Char) : List UInt8 := Utf8.bytes (String.ofList cs)
  match letter with
  | 'c' =>
    let f ← parsed "-" false
    return f.bytes [UInt8.ofNat ((← args.integer i).toUInt64.toNat % 256)]
  | 'd' | 'i' =>
    let f ← parsed "-+0 " true
    return text (f.signed (← args.integer i))
  | 'u' =>
    let f ← parsed "-0" true
    return text (f.unsigned 10 [] false (← args.integer i))
  | 'x' =>
    let f ← parsed "-#0" true
    return text (f.unsigned 16 ['0', 'x'] false (← args.integer i))
  | 'X' =>
    let f ← parsed "-#0" true
    return text (f.unsigned 16 ['0', 'X'] true (← args.integer i))
  | 'o' =>
    let f ← parsed "-#0" true
    return text (f.unsigned 8 ['0'] false (← args.integer i))
  | 'a' | 'A' =>
    let f ← parsed "-+#0 " true
    return text (f.hexadecimal (letter = 'A') (← args.float i))
  | 'f' | 'F' =>
    let f ← parsed "-+#0 " true
    return text (f.fixed (← args.float i))
  | 'e' | 'E' =>
    let f ← parsed "-+#0 " true
    return text (f.scientific (letter = 'E') (← args.float i))
  | 'g' | 'G' =>
    let f ← parsed "-+#0 " true
    return text (f.general (letter = 'G') (← args.float i))
  | 'q' =>
    if !spec.isEmpty then Eval.fail "specifier '%q' cannot have modifiers"
    match args.get i with
    | .string s => return 34 :: Format.quotedBytes s.toList ++ [34]
    | .integer n => return Utf8.bytes (Format.quotedInteger n)
    | .float x => return Utf8.bytes (Format.quotedFloat x)
    | .nil => return Utf8.bytes "nil"
    | .boolean b => return Utf8.bytes (if b then "true" else "false")
    | _ => args.fail i "value has no literal form"
  | 's' =>
    let s ← toText (← args.any i)
    if spec.isEmpty then return s.toList
    args.check i (!s.toList.contains 0) "string contains zeros"
    let f ← parsed "-" true
    return f.bytes s.toList
  | 'p' =>
    let f ← parsed "-" false
    return f.bytes (Utf8.bytes "(null)")
  | _ => invalid

/-- The characters that can stand between the percent sign and the letter. -/
def isSpecChar (b : UInt8) : Bool := "-+#0 123456789.".toUTF8.toList.contains b

def formatLoop (args : Arguments) (i : Nat) : List UInt8 → Nat → Eval (List UInt8)
  | _, 0 => return []
  | [], _ => return []
  | 37 :: 37 :: rest, fuel + 1 => do return 37 :: (← formatLoop args i rest fuel)
  | 37 :: rest, fuel + 1 => do
    let spec := rest.takeWhile isSpecChar
    if 21 ≤ spec.length then Eval.fail "invalid format string to 'format'"
    if args.count < i then args.fail i "no value"
    match rest.drop spec.length with
    | [] =>
      let shown := Utf8.text spec
      Eval.fail s!"invalid conversion '%{shown}' to 'format'"
    | letter :: rest =>
      let toChar (b : UInt8) : Char := Char.ofNat b.toNat
      let text ← conversion args i (spec.map toChar) (toChar letter)
      return text ++ (← formatLoop args (i + 1) rest fuel)
  | b :: rest, fuel + 1 => do return b :: (← formatLoop args i rest fuel)

def format (args : Arguments) : Eval (List Value) := do
  let pattern := (← args.bytes 1).toList
  return [.string (← formatLoop args 2 pattern (pattern.length + 1)).toByteArray]

/-! ## Binary formats -/

/-- Makes a fault of a binary format an error. -/
def orFault {α : Type} (args : Arguments) : Except Pack.Fault α → Eval α
  | .ok a => return a
  | .error (.format message) => Eval.fail message
  | .error (.argument i message) => args.fail i message

/-- The bytes of an argument, as an item of a format has them. -/
def packItem (args : Arguments) (layout : Pack.Layout) (item : Pack.Item) (i : Nat) :
    Eval (List UInt8) :=
  match item.kind with
  | .integer true => do
    let n := (← args.integer i).toInt
    let limit : Int := 2 ^ (8 * item.size - 1)
    args.check i (8 ≤ item.size || (-limit ≤ n && n < limit)) "integer overflow"
    return layout.ofInt n item.size
  | .integer false => do
    let n := (← args.integer i).toUInt64.toNat
    args.check i (8 ≤ item.size || n < 2 ^ (8 * item.size)) "unsigned overflow"
    return layout.ofInt n item.size
  | .float32 => do
    return layout.order (Pack.lowBytes (← args.float i).toFloat32.toBits.toNat 4)
  | .float64 => do return layout.order (Pack.lowBytes (← args.float i).toBits.toNat 8)
  | .fixed => do
    let s ← args.bytes i
    args.check i (s.size ≤ item.size) "string longer than given size"
    Eval.reserve item.size
    return s.toList ++ List.replicate (item.size - s.size) 0
  | .counted => do
    let s ← args.bytes i
    args.check i (8 ≤ item.size || s.size < 2 ^ (8 * item.size))
      "string length does not fit in given size"
    return layout.ofInt s.size item.size ++ s.toList
  | .terminated => do
    let s ← args.bytes i
    args.check i (!s.toList.contains 0) "string contains zeros"
    return s.toList ++ [0]
  | .padding => return [0]
  | .alignment | .nothing => return []

def packLoop (args : Arguments) (layout : Pack.Layout) (i place : Nat) :
    List UInt8 → Nat → Eval (List UInt8)
  | [], _ | _, 0 => return []
  | letter :: rest, fuel + 1 => do
    let (item, layout, rest) ← orFault args (Pack.item layout place letter rest)
    let bytes ← packItem args layout item i
    let bytes := List.replicate item.padding 0 ++ bytes
    let next := if item.kind.hasValue then i + 1 else i
    return bytes ++ (← packLoop args layout next (place + bytes.length) rest fuel)

def packValues (args : Arguments) : Eval (List Value) := do
  let letters := Pack.letters (← args.bytes 1)
  return [.string (← packLoop args {} 2 0 letters letters.length).toByteArray]

def packedSize (args : Arguments) : Eval (List Value) := do
  let total ← orFault args (Pack.total (← args.bytes 1))
  return [.integer (Int64.ofNat total)]

def unpackValues (args : Arguments) : Eval (List Value) := do
  let format ← args.bytes 1
  let data ← args.bytes 2
  let start := startPosition (← args.integerOr 3 1).toInt data.size - 1
  args.check 3 (start ≤ data.size) "initial position out of string"
  let (values, stop) ← orFault args (Pack.unpack format data start)
  return values ++ [.integer (Int64.ofNat (stop + 1))]

/-! ## Arithmetic on strings -/

/-- Arithmetic on operands one of which is a string. -/
def stringArith (op : ArithOp) (args : Arguments) : Eval (List Value) := do
  match (args.get 1).toNumber?, (args.get 2).toNumber? with
  | some a, some b =>
    match compute op a b with
    | .ok n => return [n.value]
    | .error fault => Eval.raiseText fault.message
  | _, _ =>
    let event := "__" ++ eventOf op
    let m ← Eval.read fun h => h.metamethod (args.get 2) event
    match args.get 2 with
    | .string _ => refuse
    | _ => if m.isNil then refuse else Eval.callBack m [args.get 1, args.get 2]
where
  refuse : Eval (List Value) :=
    Eval.fail s!"attempt to perform arithmetic on a {(args.get 1).typeName} value"

def string (self : Value) (captured : List Value) (f : StringFunction) (args : Arguments) :
    Eval (List Value) :=
  match f with
  | .byte => byte args
  | .char => char args
  | .dump => Eval.fail "unable to dump given function"
  | .find => findOrMatch true args
  | .match => findOrMatch false args
  | .format => format args
  | .gmatch => gmatch args
  | .gmatchStep => gmatchStep self captured
  | .gsub => gsub args
  | .len => do return [.integer (Int64.ofNat (← args.bytes 1).size)]
  | .lower => do return [.string (mapBytes lowerByte (← args.bytes 1))]
  | .upper => do return [.string (mapBytes upperByte (← args.bytes 1))]
  | .pack => packValues args
  | .packsize => packedSize args
  | .unpack => unpackValues args
  | .rep => rep args
  | .reverse => do return [.string (← args.bytes 1).toList.reverse.toByteArray]
  | .sub => sub args
  | .add => stringArith .add args
  | .subtract => stringArith .subtract args
  | .multiply => stringArith .multiply args
  | .modulo => stringArith .modulo args
  | .power => stringArith .power args
  | .divide => stringArith .divide args
  | .floorDivide => stringArith .floorDivide args
  | .negate => do
    match (args.get 1).toNumber? with
    | some n => return [n.negate.value]
    | none => Eval.fail s!"attempt to perform arithmetic on a {(args.get 1).typeName} value"

end ScriptHost.Lua.Library
