import ScriptHost.Lua.Number
import ScriptHost.Text.Utf8

/-!
# Binary formats

The formats by which values are packed into strings. Each letter stands for an integer, a float or
a string in a number of bytes, and says in which order they are and to which places they are
aligned.
-/

set_option autoImplicit false

namespace ScriptHost.Lua.Pack

/-- What the bytes for a letter are. -/
inductive Kind where
  | integer (signed : Bool)
  | float32
  | float64
  /-- A string, filled up to a size. -/
  | fixed
  /-- A string after its length. -/
  | counted
  /-- A string before a zero. -/
  | terminated
  | padding
  /-- Padding up to where the next letter would be aligned. -/
  | alignment
  | nothing
deriving DecidableEq, Repr

/-- Whether a letter stands for a value at all. -/
def Kind.hasValue : Kind → Bool
  | padding | alignment | nothing => false
  | integer _ | float32 | float64 | fixed | counted | terminated => true

structure Layout where
  littleEndian : Bool := true
  maxAlign : Nat := 1

inductive Fault where
  | format (message : String)
  /-- The fault is found with an argument. -/
  | argument (i : Nat) (message : String)

/-! ## Formats -/

/-- The digits in front of a format as a number, as far as they fit. -/
def digits (n : Nat) : List UInt8 → Nat × List UInt8
  | b :: rest =>
    if Number.isDigit b && n ≤ (2 ^ 31 - 10) / 10 then digits (10 * n + (b.toNat - 48)) rest
    else (n, b :: rest)
  | [] => (n, [])

/-- The size that a format starts with, if it starts with one. -/
def size? (format : List UInt8) : Option Nat × List UInt8 :=
  if (format.head?.map Number.isDigit).getD false then
    let (n, rest) := digits 0 format
    (some n, rest)
  else (none, format)

def maxSize : Nat := 16

def limitedSize (absent : Nat) (format : List UInt8) : Except Fault (Nat × List UInt8) :=
  let (n?, rest) := size? format
  let n := n?.getD absent
  if n = 0 || maxSize < n then
    .error (.format s!"integral size ({n}) out of limits [1,{maxSize}]")
  else .ok (n, rest)

/-- What a letter stands for, in how many bytes, what the layout is after it, and the rest of the
format. -/
def option (layout : Layout) (letter : UInt8) (rest : List UInt8) :
    Except Fault (Kind × Nat × Layout × List UInt8) :=
  let sized (kind : Kind) (size : Nat) : Except Fault (Kind × Nat × Layout × List UInt8) :=
    .ok (kind, size, layout, rest)
  let limited (kind : Kind) (absent : Nat) : Except Fault (Kind × Nat × Layout × List UInt8) := do
    let (size, rest) ← limitedSize absent rest
    return (kind, size, layout, rest)
  match Char.ofNat letter.toNat with
  | 'b' => sized (.integer true) 1
  | 'B' => sized (.integer false) 1
  | 'h' => sized (.integer true) 2
  | 'H' => sized (.integer false) 2
  | 'l' | 'j' => sized (.integer true) 8
  | 'L' | 'J' | 'T' => sized (.integer false) 8
  | 'f' => sized .float32 4
  | 'n' | 'd' => sized .float64 8
  | 'i' => limited (.integer true) 4
  | 'I' => limited (.integer false) 4
  | 's' => limited .counted 8
  | 'c' =>
    match size? rest with
    | (some size, rest) => .ok (.fixed, size, layout, rest)
    | (none, _) => .error (.format "missing size for format option 'c'")
  | 'z' => sized .terminated 0
  | 'x' => sized .padding 1
  | 'X' => sized .alignment 0
  | ' ' => sized .nothing 0
  | '<' | '=' => .ok (.nothing, 0, { layout with littleEndian := true }, rest)
  | '>' => .ok (.nothing, 0, { layout with littleEndian := false }, rest)
  | '!' => do
    let (maxAlign, rest) ← limitedSize 8 rest
    return (.nothing, 0, { layout with maxAlign }, rest)
  | _ =>
    let shown := Utf8.text [letter]
    .error (.format s!"invalid format option '{shown}'")

/-- How much is missing from a place to the next one that is aligned. -/
def paddingTo (layout : Layout) (place align : Nat) : Except Fault Nat :=
  let align := min align layout.maxAlign
  if align ≤ 1 then .ok 0
  else if align &&& (align - 1) ≠ 0 then
    .error (.argument 1 "format asks for alignment not power of 2")
  else .ok ((align - place % align) % align)

/-- What stands for a letter at a place: so many bytes after so much padding. -/
structure Item where
  kind : Kind
  size : Nat
  padding : Nat

def item (layout : Layout) (place : Nat) (letter : UInt8) (rest : List UInt8) :
    Except Fault (Item × Layout × List UInt8) := do
  let (kind, size, layout, rest) ← option layout letter rest
  match kind, rest with
  | .fixed, rest => return (⟨kind, size, 0⟩, layout, rest)
  | .alignment, [] => throw (.argument 1 "invalid next option for option 'X'")
  | .alignment, letter :: rest =>
    let (next, align, layout, rest) ← option layout letter rest
    if next = .fixed || align = 0 then throw (.argument 1 "invalid next option for option 'X'")
    return (⟨kind, size, ← paddingTo layout place align⟩, layout, rest)
  | _, rest => return (⟨kind, size, ← paddingTo layout place size⟩, layout, rest)

/-- The letters of a format, which ends at a zero. -/
def letters (format : ByteArray) : List UInt8 := format.toList.takeWhile (· ≠ 0)

/-- The most bytes that a format may ask for. -/
def maxTotal : Nat := 2 ^ 31 - 1

def totalFrom (layout : Layout) (total : Nat) : List UInt8 → Nat → Except Fault Nat
  | [], _ | _, 0 => .ok total
  | letter :: rest, fuel + 1 => do
    let (item, layout, rest) ← item layout total letter rest
    if item.kind = .counted || item.kind = .terminated then
      throw (.argument 1 "variable-length format")
    let size := item.padding + item.size
    if maxTotal < total + size then throw (.argument 1 "format result too large")
    totalFrom layout (total + size) rest fuel

/-- How many bytes a format without strings of their own lengths stands for. -/
def total (format : ByteArray) : Except Fault Nat :=
  totalFrom {} 0 (letters format) (letters format).length

/-! ## Bytes -/

/-- So many bytes of a number, the lowest first. -/
def lowBytes (n : Nat) : Nat → List UInt8
  | 0 => []
  | size + 1 => UInt8.ofNat (n % 256) :: lowBytes (n / 256) size

/-- The number with these bytes, the lowest first. -/
def ofLowBytes : List UInt8 → Nat
  | [] => 0
  | b :: rest => b.toNat + 256 * ofLowBytes rest

/-- Bytes that come lowest first, in the order of a layout; also the other way round. -/
def Layout.order (layout : Layout) (bytes : List UInt8) : List UInt8 :=
  if layout.littleEndian then bytes else bytes.reverse

/-- An integer as a two's complement. -/
def Layout.ofInt (layout : Layout) (n : Int) (size : Nat) : List UInt8 :=
  layout.order (lowBytes (n % 2 ^ (8 * size)).toNat size)

/-- The integer in a number of bytes. What is beyond eight bytes must not matter. -/
def Layout.toInt64 (layout : Layout) (signed : Bool) (bytes : List UInt8) :
    Except Fault Int64 :=
  let bytes := layout.order bytes
  let n := ofLowBytes (bytes.take 8)
  let negative := signed && 2 ^ (8 * min bytes.length 8 - 1) ≤ n
  if (bytes.drop 8).all (· = if negative then 255 else 0) then
    .ok (Int64.ofInt (if negative then n - 2 ^ (8 * min bytes.length 8) else n))
  else .error (.format s!"{bytes.length}-byte integer does not fit into Lua Integer")

/-- The value that is found for a letter, and the place after it. -/
def Item.read (layout : Layout) (item : Item) (data : ByteArray) (start : Nat) :
    Except Fault (Option Value × Nat) :=
  let stop := start + item.size
  let bytes := (data.extract start stop).toList
  match item.kind with
  | .integer signed => do return (some (.integer (← layout.toInt64 signed bytes)), stop)
  | .float32 =>
    let bits := UInt32.ofNat (ofLowBytes (layout.order bytes))
    .ok (some (.float (Float32.ofBits bits).toFloat), stop)
  | .float64 =>
    let bits := UInt64.ofNat (ofLowBytes (layout.order bytes))
    .ok (some (.float (Float.ofBits bits)), stop)
  | .fixed => .ok (some (.string (data.extract start stop)), stop)
  | .counted => do
    let length := (← layout.toInt64 false bytes).toUInt64.toNat
    if data.size < stop + length then throw (.argument 2 "data string too short")
    return (some (.string (data.extract stop (stop + length))), stop + length)
  | .terminated =>
    let text := (data.extract start data.size).toList.takeWhile (· ≠ 0)
    if start + text.length < data.size then
      .ok (some (.string text.toByteArray), start + text.length + 1)
    else .error (.argument 2 "unfinished string for format 'z'")
  | .padding | .alignment | .nothing => .ok (none, stop)

def unpackFrom (data : ByteArray) (layout : Layout) (place : Nat) :
    List UInt8 → Nat → Except Fault (List Value × Nat)
  | [], _ | _, 0 => .ok ([], place)
  | letter :: rest, fuel + 1 => do
    let (item, layout, rest) ← item layout place letter rest
    if data.size < place + item.padding + item.size then
      throw (.argument 2 "data string too short")
    let (v?, place) ← item.read layout data (place + item.padding)
    let (values, place) ← unpackFrom data layout place rest fuel
    return (v?.toList ++ values, place)

/-- The values that a format finds in a string from a place on, and the place after them. -/
def unpack (format data : ByteArray) (place : Nat) : Except Fault (List Value × Nat) :=
  unpackFrom data {} place (letters format) (letters format).length

end ScriptHost.Lua.Pack
