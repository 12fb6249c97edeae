import ScriptHost.Lua.Number

/-!
# Formats

Conversions of numbers and strings to text of a given width and precision.
-/

set_option autoImplicit false

namespace ScriptHost.Lua

open Decimal

/-- What stands between the percent sign and the letter of a conversion. -/
structure Format where
  flags : List Char := []
  width : Nat := 0
  precision? : Option Nat := none
deriving Repr, Inhabited

namespace Format

def has (f : Format) (flag : Char) : Bool := f.flags.contains flag

/-- A text after its sign, filled up to the width: with blanks, or with zeros after the sign. -/
def pad (f : Format) (zeroFill : Bool) (sign digits : List Char) : List Char :=
  let missing := f.width - (sign.length + digits.length)
  if f.has '-' then sign ++ digits ++ List.replicate missing ' '
  else if zeroFill && f.has '0' then sign ++ zeros missing ++ digits
  else List.replicate missing ' ' ++ sign ++ digits

def signOf (f : Format) (negative : Bool) : List Char :=
  if negative then ['-'] else if f.has '+' then ['+'] else if f.has ' ' then [' '] else []

/-- At least as many digits as the precision asks for. -/
def digitsWith (f : Format) (digits : List Char) : List Char :=
  match f.precision? with
  | some p => (if p = 0 && digits == ['0'] then [] else zeros (p - digits.length) ++ digits)
  | none => digits

def signed (f : Format) (n : Int64) : List Char :=
  f.pad f.precision?.isNone (f.signOf (n < 0)) (f.digitsWith (digitChars n.toInt.natAbs))

/-- An unsigned number in a base, with a mark in front if asked for. -/
def unsigned (f : Format) (base : Nat) (mark : List Char) (upper : Bool) (n : Int64) :
    List Char :=
  let digits := Nat.toDigits base n.toUInt64.toNat
  let digits := f.digitsWith (if upper then digits.map Char.toUpper else digits)
  f.pad f.precision?.isNone (if f.has '#' && n != 0 then mark else []) digits

/-- A finite number with a fixed number of places. -/
def fixedText (f : Format) (places : Nat) (r : Ratio) : List Char :=
  pointAt (r.fixed places) places ++ (if places = 0 && f.has '#' then ['.'] else [])

/-- A finite number in scientific notation. -/
def scientificText (f : Format) (places : Nat) (r : Ratio) : List Char :=
  let s := r.significant (places + 1)
  let digits := if r.num = 0 then zeros (places + 1) else digitChars s.digits
  let exponent := if r.num = 0 then 0 else s.exponent + places
  let point := if 0 < places || f.has '#' then ['.'] else []
  digits.take 1 ++ point ++ digits.drop 1 ++ 'e' :: exponentText 2 exponent

/-- A finite number in hexadecimal notation with a binary exponent. -/
def hexText (f : Format) (b : Binary) : List Char :=
  let normal := 2 ^ 52 ≤ b.mantissa
  let lead := b.mantissa / 2 ^ 52
  let fraction := b.mantissa % 2 ^ 52
  let exponent : Int := if b.mantissa = 0 then 0 else if normal then b.exponent + 52 else -1022
  let (lead, digits) := match f.precision? with
    | none =>
      let digits := Nat.toDigits 16 fraction
      let digits := zeros (13 - digits.length) ++ digits
      (lead, (digits.reverse.dropWhile (· = '0')).reverse)
    | some p =>
      if 13 ≤ p then
        let digits := Nat.toDigits 16 fraction
        (lead, zeros (13 - digits.length) ++ digits ++ zeros (p - 13))
      else
        let all := (Ratio.mk b.mantissa (16 ^ (13 - p))).round
        let digits := Nat.toDigits 16 (all % 16 ^ p)
        (all / 16 ^ p, if p = 0 then [] else zeros (p - digits.length) ++ digits)
  "0x".toList ++ digitChars lead ++ (if digits.isEmpty && !f.has '#' then [] else '.' :: digits) ++
    'p' :: exponentText 1 exponent

def upperIf (upper : Bool) (cs : List Char) : List Char := if upper then cs.map Char.toUpper else cs

/-- A float; `finite` writes the size of a finite one. -/
def float (f : Format) (upper : Bool) (finite : Binary → List Char) (x : Float) : List Char :=
  match decode x with
  | (negative, .finite b) => f.pad true (f.signOf negative) (upperIf upper (finite b))
  | (negative, .infinite) => f.pad false (f.signOf negative) (upperIf upper "inf".toList)
  | (_, .notANumber) => f.pad false ['-'] (upperIf upper "nan".toList)

def fixed (f : Format) (x : Float) : List Char :=
  f.float false (fun b => f.fixedText (f.precision?.getD 6) b.ratio) x

def scientific (f : Format) (upper : Bool) (x : Float) : List Char :=
  f.float upper (fun b => f.scientificText (f.precision?.getD 6) b.ratio) x

def general (f : Format) (upper : Bool) (x : Float) : List Char :=
  f.float upper (fun b => Number.general (f.precision?.getD 6) (f.has '#') b.ratio) x

def hexadecimal (f : Format) (upper : Bool) (x : Float) : List Char := f.float upper f.hexText x

/-- Bytes cut to the precision and filled up to the width. -/
def bytes (f : Format) (s : List UInt8) : List UInt8 :=
  let s := match f.precision? with
    | some p => s.take p
    | none => s
  let blanks := List.replicate (f.width - s.length) 32
  if f.has '-' then s ++ blanks else blanks ++ s

/-- The number at the start of a text, of at most two digits, and the rest. -/
def twoDigits (cs : List Char) : Option Nat × List Char :=
  let digits := (cs.take 2).takeWhile Char.isDigit
  (if digits.isEmpty then none else some (digits.foldl (fun n c => n * 10 + (c.toNat - 48)) 0),
    cs.drop digits.length)

/-- Reads flags out of `allowed`, a width, and a precision if there may be one. -/
def parse? (allowed : List Char) (hasPrecision : Bool) (cs : List Char) : Option Format :=
  let flags := cs.takeWhile allowed.contains
  let rest := cs.drop flags.length
  if rest.head? == some '0' then none
  else
    let (width?, rest) := twoDigits rest
    let (precision?, rest) := match rest, hasPrecision with
      | '.' :: rest, true => let (p?, rest) := twoDigits rest; (some (p?.getD 0), rest)
      | rest, _ => (none, rest)
    if rest.isEmpty then some { flags, width := width?.getD 0, precision? } else none

/-! ## Quoting -/

/-- A string as a program text that denotes it. -/
def quotedBytes : List UInt8 → List UInt8
  | [] => []
  | b :: rest =>
    (if b = 34 || b = 92 || b = 10 then [92, b]
    else if b < 32 || b = 127 then
      let digits := digitChars b.toNat
      let digits := if rest.head?.any Number.isDigit then zeros (3 - digits.length) ++ digits
        else digits
      92 :: digits.map fun c => UInt8.ofNat c.toNat
    else [b]) ++ quotedBytes rest

/-- A float as a program text that denotes it. -/
def quotedFloat (x : Float) : String :=
  if x.isNaN then "(0/0)"
  else if x.isInf then if 0 < x then "1e9999" else "-1e9999"
  else String.ofList (({} : Format).hexadecimal false x)

def quotedInteger (n : Int64) : String :=
  if n == Int64.minValue then "0x8000000000000000" else Number.integerText n

end Format

end ScriptHost.Lua
