import ScriptHost.Decimal.Layout
import ScriptHost.Lua.Value

/-!
# Numbers of scripts

Integers of 64 bits that wrap, and doubles. Conversions between the two, their texts, the texts
that denote numbers, and arithmetic.
-/

set_option autoImplicit false

namespace ScriptHost.Lua

/-- A number of a script. -/
inductive Number where
  | integer (value : Int64)
  | float (value : Float)
deriving Inhabited

namespace Number

def value : Number → Value
  | integer n => .integer n
  | float x => .float x

def toFloat : Number → Float
  | integer n => n.toFloat
  | float x => x

/-- The integer a number is, if it has no fraction. -/
def toInteger? : Number → Option Int64
  | integer n => some n
  | float x => Value.integerOfFloat? x

/-! ## Texts -/

def stripZeros (cs : List Char) : List Char :=
  if cs.contains '.' then
    let cs := (cs.reverse.dropWhile (· = '0')).reverse
    if cs.getLast? == some '.' then cs.dropLast else cs
  else cs

/-- The general layout: `precision` significant digits, positional for exponents from -4 up to
the precision, without zeros at the end unless `keepZeros`. -/
def general (precision : Nat) (keepZeros : Bool) (r : Decimal.Ratio) : List Char :=
  let precision := max precision 1
  let strip := fun cs => if keepZeros then cs else stripZeros cs
  if r.num = 0 then
    if keepZeros && 1 < precision then '0' :: '.' :: Decimal.zeros (precision - 1) else ['0']
  else
    let s := r.significant precision
    let leading := s.exponent + (precision : Int) - 1
    if leading < -4 || (precision : Int) ≤ leading then
      let digits := Decimal.digitChars s.digits
      let mantissa := digits.take 1 ++ (if 1 < precision then '.' :: digits.drop 1 else [])
      strip mantissa ++ 'e' :: Decimal.exponentText 2 leading
    else strip (Decimal.pointAt s.digits ((precision : Int) - 1 - leading).toNat)

/-- The texts of numbers that are no finite fractions. -/
def specialText (negative : Bool) : Decimal.Magnitude → List Char
  | .notANumber => "-nan".toList
  | _ => if negative then "-inf".toList else "inf".toList

/-- A float with 14 significant digits; a whole number ends in `.0`. -/
def floatText (x : Float) : String :=
  match Decimal.decode x with
  | (negative, .finite b) =>
    let cs := general 14 false b.ratio
    let cs := if cs.all (fun c => c.isDigit) then cs ++ ['.', '0'] else cs
    Decimal.withSign negative cs
  | (negative, m) => String.ofList (specialText negative m)

def integerText (n : Int64) : String := toString n.toInt

def text : Number → String
  | integer n => integerText n
  | float x => floatText x

/-! ## Reading -/

def isSpace (b : UInt8) : Bool := b = 32 || (9 ≤ b && b ≤ 13)

def isDigit (b : UInt8) : Bool := 48 ≤ b && b ≤ 57

def hexValue? (b : UInt8) : Option Nat :=
  if isDigit b then some (b.toNat - 48)
  else if 97 ≤ b && b ≤ 102 then some (b.toNat - 87)
  else if 65 ≤ b && b ≤ 70 then some (b.toNat - 55)
  else none

def isHexDigit (b : UInt8) : Bool := (hexValue? b).isSome

def digitsValue (base : Nat) (digits : List UInt8) : Nat :=
  digits.foldl (fun n b => n * base + (hexValue? b).getD 0) 0

/-- The double nearest to `mantissa * 10 ^ exponent`. -/
def scaleTen (mantissa : Nat) (exponent : Int) : Float :=
  if mantissa = 0 then 0.0
  else
    let size : Int := Decimal.digitCount mantissa + exponent
    if 400 < size then 1.0 / 0.0
    else if size < -400 then 0.0
    else Float.ofScientific mantissa (exponent < 0) exponent.natAbs

/-- The double nearest to `mantissa * 2 ^ exponent`. -/
def scaleTwo (mantissa : Nat) (exponent : Int) : Float :=
  if mantissa = 0 then 0.0
  else
    let size : Int := Nat.log2 mantissa + exponent
    if 2000 < size then 1.0 / 0.0
    else if size < -2000 then 0.0
    else if 0 ≤ exponent then Float.ofScientific (mantissa * 2 ^ exponent.toNat) false 0
    else
      -- an exact decimal fraction: `m / 2 ^ k = m * 5 ^ k / 10 ^ k`
      let k := (-exponent).toNat
      Float.ofScientific (mantissa * 5 ^ k) true k

/-- The signed decimal exponent after its mark, zero if there is no mark. -/
def exponentPart? (mark : UInt8) : List UInt8 → Option Int
  | [] => some 0
  | m :: rest =>
    if m ||| 32 ≠ mark then none
    else
      let (negative, digits) := match rest with
        | 45 :: ds => (true, ds)
        | 43 :: ds => (false, ds)
        | ds => (false, ds)
      if digits.isEmpty || !digits.all isDigit then none
      else
        let n : Int := min (digitsValue 10 digits) 1000000
        some (if negative then -n else n)

/-- An unsigned decimal numeral. -/
def decimal? (bs : List UInt8) : Option Number := do
  let whole := bs.takeWhile isDigit
  let rest := bs.dropWhile isDigit
  if rest.isEmpty && !whole.isEmpty then
    let n := digitsValue 10 whole
    if n < 2 ^ 63 then some (integer (Int64.ofNat n)) else some (float (scaleTen n 0))
  else
    let (fraction, rest) := match rest with
      | 46 :: rest => (rest.takeWhile isDigit, rest.dropWhile isDigit)
      | rest => ([], rest)
    if whole.isEmpty && fraction.isEmpty then none
    else
      let e ← exponentPart? 101 rest
      some (float (scaleTen (digitsValue 10 (whole ++ fraction)) (e - fraction.length)))

/-- An unsigned hexadecimal numeral, after its mark. Integers wrap. -/
def hexadecimal? (bs : List UInt8) : Option Number := do
  let whole := bs.takeWhile isHexDigit
  let rest := bs.dropWhile isHexDigit
  if rest.isEmpty && !whole.isEmpty then
    some (integer (Int64.ofNat (digitsValue 16 whole)))
  else
    let (fraction, rest) := match rest with
      | 46 :: rest => (rest.takeWhile isHexDigit, rest.dropWhile isHexDigit)
      | rest => ([], rest)
    if whole.isEmpty && fraction.isEmpty then none
    else
      let e ← exponentPart? 112 rest
      some (float (scaleTwo (digitsValue 16 (whole ++ fraction)) (e - 4 * fraction.length)))

def numeral? : List UInt8 → Option Number
  | 48 :: 120 :: rest | 48 :: 88 :: rest => hexadecimal? rest
  | bs => decimal? bs

def negate : Number → Number
  | integer n => integer (-n)
  | float x => float (-x)

/-- The number that a text denotes, with white space around it and perhaps a sign. -/
def ofBytes? (bs : List UInt8) : Option Number :=
  let bs := ((bs.dropWhile isSpace).reverse.dropWhile isSpace).reverse
  match bs with
  | 45 :: rest =>
    -- the digits of the least integer are no integer by themselves
    if rest.length ≤ 40 && rest.all isDigit && digitsValue 10 rest = 2 ^ 63 then
      some (integer Int64.minValue)
    else (numeral? rest).map negate
  | 43 :: rest => numeral? rest
  | bs => numeral? bs

/-! ## Arithmetic -/

/-- The quotient rounded down; the divisor is not zero. -/
def floorDiv (a b : Int64) : Int64 :=
  if b == -1 then -a else Int64.ofInt (a.toInt.fdiv b.toInt)

/-- The remainder with the sign of the divisor, which is not zero. -/
def floorMod (a b : Int64) : Int64 :=
  if b == -1 then 0 else Int64.ofInt (a.toInt.fmod b.toInt)

/-- The remainder of the sizes, exactly. -/
def remainder (a b : Decimal.Binary) : Float :=
  let low := min a.exponent b.exponent
  let x := a.mantissa * 2 ^ (a.exponent - low).toNat
  let y := b.mantissa * 2 ^ (b.exponent - low).toNat
  (Float.ofScientific (x % y) false 0).scaleB low

/-- The remainder with the sign of the dividend. -/
def truncatedMod (a b : Float) : Float :=
  match Decimal.decode a, Decimal.decode b with
  | (negative, .finite x), (_, .finite y) =>
    if y.mantissa = 0 then 0.0 / 0.0
    else
      let r := remainder x y
      if negative then -r else r
  | (_, .finite _), (_, .infinite) => a
  | _, _ => 0.0 / 0.0

/-- The remainder with the sign of the divisor. -/
def floatMod (a b : Float) : Float :=
  let r := truncatedMod a b
  if r * b < 0 then r + b else r

/-- A shift to the left; a negative amount shifts to the right, and zeros come in. -/
def shiftLeft (a b : Int64) : Int64 :=
  let n := b.toInt
  if n ≤ -64 || 64 ≤ n then 0
  else if 0 ≤ n then (a.toUInt64 <<< UInt64.ofNat n.toNat).toInt64
  else (a.toUInt64 >>> UInt64.ofNat (-n).toNat).toInt64

/-- Whether an integer is less than a float. -/
def lessFloat (n : Int64) (x : Float) : Bool :=
  if x.isNaN then false
  else if 9223372036854775808.0 ≤ x then true
  else if x ≤ -9223372036854775808.0 then false
  else n < x.ceil.toInt64

/-- Whether an integer is at most a float. -/
def atMostFloat (n : Int64) (x : Float) : Bool :=
  if x.isNaN then false
  else if 9223372036854775808.0 ≤ x then true
  else if x < -9223372036854775808.0 then false
  else n ≤ x.floor.toInt64

def less : Number → Number → Bool
  | integer a, integer b => a < b
  | float a, float b => a < b
  | integer a, float b => lessFloat a b
  | float a, integer b => !a.isNaN && !atMostFloat b a

def lessEqual : Number → Number → Bool
  | integer a, integer b => a ≤ b
  | float a, float b => a ≤ b
  | integer a, float b => atMostFloat a b
  | float a, integer b => !a.isNaN && !lessFloat b a

end Number

def Value.number? : Value → Option Number
  | .integer n => some (.integer n)
  | .float x => some (.float x)
  | _ => none

def Value.toNumber? : Value → Option Number
  | .integer n => some (.integer n)
  | .float x => some (.float x)
  | .string s => Number.ofBytes? s.toList
  | _ => none

def Value.toInteger? (v : Value) : Option Int64 := v.toNumber?.bind Number.toInteger?

/-- The bytes of a string, or of the text of a number. -/
def Value.stringBytes? : Value → Option ByteArray
  | .string s => some s
  | .integer n => some (Number.integerText n).toUTF8
  | .float x => some (Number.floatText x).toUTF8
  | _ => none

end ScriptHost.Lua
