import ScriptHost.Lua.Library.String
import ScriptHost.Lua.Token

/-!
# The UTF-8 library
-/

set_option autoImplicit false

namespace ScriptHost.Lua.Library

def isContinuation (b : UInt8) : Bool := 0x80 ≤ b && b < 0xC0

/-- The least code point that needs so many continuation bytes. -/
def leastCode (more : Nat) : Nat :=
  if more = 0 then 0 else if more = 1 then 0x80 else if more = 2 then 0x800
  else if more = 3 then 0x10000 else if more = 4 then 0x200000 else 0x4000000

/-- The number of continuation bytes after a first byte, and the bits it contributes. -/
def leadBits? (b : UInt8) : Option (Nat × Nat) :=
  let n := b.toNat
  if n < 0x80 then some (0, n)
  else if n < 0xC0 then none
  else if n < 0xE0 then some (1, n % 0x20)
  else if n < 0xF0 then some (2, n % 0x10)
  else if n < 0xF8 then some (3, n % 8)
  else if n < 0xFC then some (4, n % 4)
  else if n < 0xFE then some (5, n % 2)
  else none

/-- The code point at a place, and the number of its bytes. -/
def decode? (s : ByteArray) (i : Nat) (strict : Bool) : Option (Nat × Nat) := do
  let b ← s[i]?
  let (more, bits) ← leadBits? b
  let code ← (List.range more).foldlM (fun code k => do
    let c ← s[i + k + 1]?
    if isContinuation c then some (code * 64 + c.toNat % 64) else none) bits
  if more ≠ 0 && code < leastCode more then none
  else if strict && (0x10FFFF < code || (0xD800 ≤ code && code ≤ 0xDFFF)) then none
  else some (code, more + 1)

/-- A position as the library counts it: zero and beyond stay as they are. -/
def utf8Position (i : Int) (size : Nat) : Int :=
  if 0 ≤ i then i else if (size : Int) < -i then 0 else size + i + 1

def utf8Char (args : Arguments) : Eval (List Value) := do
  let rec go (i : Nat) : Nat → Eval (List UInt8)
    | 0 => return []
    | n + 1 => do
      let c := (← args.integer i).toUInt64.toNat
      args.check i (c < 2 ^ 31) "value out of range"
      return Token.utf8Bytes c ++ (← go (i + 1) n)
  return [.string (← go 1 args.count).toByteArray]

def utf8Length (args : Arguments) : Eval (List Value) := do
  let s ← args.bytes 1
  let i := utf8Position (← args.integerOr 2 1).toInt s.size
  let j := utf8Position (← args.integerOr 3 (-1)).toInt s.size
  let lax := (args.get 4).isTruthy
  args.check 2 (1 ≤ i && i - 1 ≤ s.size) "initial position out of bounds"
  args.check 3 (j - 1 < s.size) "final position out of bounds"
  let rec go (place count : Nat) : Nat → List Value
    | 0 => [.integer (Int64.ofNat count)]
    | fuel + 1 =>
      if (place : Int) ≤ j - 1 then
        match decode? s place (!lax) with
        | some (_, size) => go (place + size) (count + 1) fuel
        | none => [.nil, .integer (Int64.ofNat (place + 1))]
      else [.integer (Int64.ofNat count)]
  return go (i - 1).toNat 0 (s.size + 1)

def codepoint (args : Arguments) : Eval (List Value) := do
  let s ← args.bytes 1
  let i := utf8Position (← args.integerOr 2 1).toInt s.size
  let j := utf8Position (← args.integerOr 3 (Int64.ofInt i)).toInt s.size
  let lax := (args.get 4).isTruthy
  args.check 2 (1 ≤ i) "out of bounds"
  args.check 3 (j ≤ s.size) "out of bounds"
  let rec go (place : Nat) : Nat → Eval (List Value)
    | 0 => return []
    | fuel + 1 => do
      if (place : Int) < j then
        match decode? s place (!lax) with
        | some (code, size) => return .integer (Int64.ofNat code) :: (← go (place + size) fuel)
        | none => Eval.fail "invalid UTF-8 code"
      else return []
  go (i - 1).toNat (s.size + 1)

/-- Whether a continuation byte stands at a place. -/
def continuesAt (s : ByteArray) (i : Int) : Bool :=
  0 ≤ i && (s[i.toNat]?).any isContinuation

def stepBack (s : ByteArray) (i : Int) : Nat → Int
  | 0 => i
  | fuel + 1 => if 0 < i && continuesAt s (i - 1) then stepBack s (i - 1) fuel else i - 1

def stepOn (s : ByteArray) (i : Int) : Nat → Int
  | 0 => i
  | fuel + 1 => if continuesAt s (i + 1) then stepOn s (i + 1) fuel else i + 1

/-- Goes `n` characters back from a place, none if the text begins before. -/
def goBack (s : ByteArray) (i : Int) : Nat → Option Int
  | 0 => some i
  | n + 1 => if 0 < i then goBack s (stepBack s i s.size) n else none

def goOn (s : ByteArray) (i : Int) : Nat → Option Int
  | 0 => some i
  | n + 1 => if i < s.size then goOn s (stepOn s i s.size) n else none

def offset (args : Arguments) : Eval (List Value) := do
  let s ← args.bytes 1
  let n := (← args.integer 2).toInt
  let start : Int := if 0 < n then 1 else s.size + 1
  let i := utf8Position (← args.integerOr 3 (Int64.ofInt start)).toInt s.size - 1
  args.check 3 (0 ≤ i && i ≤ s.size) "position out of bounds"
  let answer (i? : Option Int) : List Value :=
    [(i?.map fun i => .integer (Int64.ofInt (i + 1))).getD .nil]
  if n = 0 then
    let rec back (i : Int) : Nat → Int
      | 0 => i
      | fuel + 1 => if 0 < i && continuesAt s i then back (i - 1) fuel else i
    return answer (some (back i s.size))
  if continuesAt s i then Eval.fail "initial position is a continuation byte"
  if n < 0 then return answer (goBack s i n.natAbs)
  else return answer (goOn s i (n.toNat - 1))

def codes (args : Arguments) : Eval (List Value) := do
  let s ← args.bytes 1
  args.check 1 (!continuesAt s 0) "invalid UTF-8 code"
  return [.builtin (.utf8 .codesStep), .string s, .integer 0]

def codesStep (args : Arguments) : Eval (List Value) := do
  let s ← args.bytes 1
  let i := (← args.integer 2).toInt
  let rec skip (i : Nat) : Nat → Nat
    | 0 => i
    | fuel + 1 => if continuesAt s i then skip (i + 1) fuel else i
  let place := if 0 < i then skip i.toNat s.size else 0
  if s.size ≤ place then return []
  match decode? s place true with
  | some (code, size) =>
    if continuesAt s (place + size) then Eval.fail "invalid UTF-8 code"
    return [.integer (Int64.ofNat (place + 1)), .integer (Int64.ofNat code)]
  | none => Eval.fail "invalid UTF-8 code"

def utf8 (f : Utf8Function) (args : Arguments) : Eval (List Value) :=
  match f with
  | .char => utf8Char args
  | .codepoint => codepoint args
  | .codes => codes args
  | .codesStep => codesStep args
  | .len => utf8Length args
  | .offset => offset args

end ScriptHost.Lua.Library
