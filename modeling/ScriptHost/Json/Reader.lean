import ScriptHost.Instances
import ScriptHost.Json.Basic

/-!
# Reading JSON

The whole text must be one value. Nesting deeper than 127 levels, numbers beyond the range of
doubles and unpaired surrogates are refused.
-/

set_option autoImplicit false

namespace ScriptHost.Json.Reader

def isSpace (c : Char) : Bool := c = ' ' || c = '\n' || c = '\t' || c = '\r'

def skipSpace (cs : List Char) : List Char := cs.dropWhile isSpace

def hexValue? (c : Char) : Option Nat :=
  if '0' ≤ c && c ≤ '9' then some (c.toNat - '0'.toNat)
  else if 'a' ≤ c && c ≤ 'f' then some (c.toNat - 'a'.toNat + 10)
  else if 'A' ≤ c && c ≤ 'F' then some (c.toNat - 'A'.toNat + 10)
  else none

def hex4? : List Char → Option (Nat × List Char)
  | a :: b :: c :: d :: rest => do
    let a ← hexValue? a
    let b ← hexValue? b
    let c ← hexValue? c
    let d ← hexValue? d
    some (((a * 16 + b) * 16 + c) * 16 + d, rest)
  | _ => none

/-- A character written as one code unit or as a surrogate pair. -/
def unicodeEscape? (cs : List Char) : Option (Char × List Char) := do
  let (first, rest) ← hex4? cs
  if 0xD800 ≤ first && first ≤ 0xDBFF then
    match rest with
    | '\\' :: 'u' :: rest =>
      let (second, rest) ← hex4? rest
      if 0xDC00 ≤ second && second ≤ 0xDFFF then
        some (Char.ofNat (0x10000 + (first - 0xD800) * 1024 + (second - 0xDC00)), rest)
      else none
    | _ => none
  else if 0xDC00 ≤ first && first ≤ 0xDFFF then none
  else some (Char.ofNat first, rest)

/-- The rest of a string after its opening quote; `acc` holds what was read, last first. -/
def stringRest? (acc : List Char) : Nat → List Char → Option (String × List Char)
  | 0, _ => none
  | _ + 1, [] => none
  | fuel + 1, c :: rest =>
    if c = '"' then some (String.ofList acc.reverse, rest)
    else if c = '\\' then
      match rest with
      | '"' :: rest => stringRest? ('"' :: acc) fuel rest
      | '\\' :: rest => stringRest? ('\\' :: acc) fuel rest
      | '/' :: rest => stringRest? ('/' :: acc) fuel rest
      | 'b' :: rest => stringRest? ('\x08' :: acc) fuel rest
      | 'f' :: rest => stringRest? ('\x0c' :: acc) fuel rest
      | 'n' :: rest => stringRest? ('\n' :: acc) fuel rest
      | 'r' :: rest => stringRest? ('\r' :: acc) fuel rest
      | 't' :: rest => stringRest? ('\t' :: acc) fuel rest
      | 'u' :: rest => do
        let (c, rest) ← unicodeEscape? rest
        stringRest? (c :: acc) fuel rest
      | _ => none
    else if c.toNat < 0x20 then none
    else stringRest? (c :: acc) fuel rest

def largest : Nat := 2 ^ 64 - 1

/-- Reads digits as long as the number stays below `2 ^ 64`. Gives the number, how many digits
were used, and the rest, which begins with a digit if the number was full. -/
def wholeDigits (value used : Nat) : List Char → Nat × Nat × List Char
  | [] => (value, used, [])
  | c :: rest =>
    if c.isDigit then
      let next := value * 10 + (c.toNat - '0'.toNat)
      if next ≤ largest then wholeDigits next (used + 1) rest else (value, used, c :: rest)
    else (value, used, c :: rest)

/-- The double `significand * 10 ^ exponent`, by one rounded product or quotient with a power of
ten; none if it is too large. -/
def scale? (significand : Nat) (exponent : Int) : Nat → Float → Option Float
  | 0, f => some f
  | fuel + 1, f =>
    if exponent.natAbs ≤ 308 then
      let power := Float.ofScientific 1 false exponent.natAbs
      if 0 ≤ exponent then
        let product := f * power
        if product.isInf then none else some product
      else some (f / power)
    else if f == 0 then some f
    else if 0 ≤ exponent then none
    else scale? significand (exponent + 308) fuel (f / 1e308)

def number? (negative : Bool) (significand : Nat) (exponent : Int) : Option Json := do
  let f ← scale? significand exponent (exponent.natAbs / 308 + 2) (UInt64.ofNat significand).toFloat
  some (.float (if negative then -f else f))

/-- The exponent part, after its letter. -/
def exponentPart? (negative : Bool) (significand : Nat) (start : Int) (cs : List Char) :
    Option (Json × List Char) := do
  let (below, cs) := match cs with
    | '+' :: rest => (false, rest)
    | '-' :: rest => (true, rest)
    | cs => (false, cs)
  let digits := cs.takeWhile Char.isDigit
  let rest := cs.dropWhile Char.isDigit
  if digits.isEmpty then none
  else
    let size := digits.foldl (fun n c => n * 10 + (c.toNat - '0'.toNat)) 0
    if size ≤ 2 ^ 31 - 1 then
      let value ← number? negative significand (if below then start - size else start + size)
      some (value, rest)
    else if significand ≠ 0 && !below then none
    else some (.float (if negative then -0.0 else 0.0), rest)

/-- What may follow the digits of a number: an exponent part. -/
def numberTail? (negative : Bool) (significand : Nat) (exponent : Int) (cs : List Char) :
    Option (Json × List Char) :=
  match cs with
  | 'e' :: rest | 'E' :: rest => exponentPart? negative significand exponent rest
  | cs => do some (← number? negative significand exponent, cs)

/-- The fraction, after the point. Digits that no longer fit are dropped. -/
def fractionPart? (negative : Bool) (significand : Nat) (exponent : Int) (cs : List Char) :
    Option (Json × List Char) :=
  match cs with
  | c :: _ =>
    if c.isDigit then
      let (value, used, rest) := wholeDigits significand 0 cs
      numberTail? negative value (exponent - used) (rest.dropWhile Char.isDigit)
    else none
  | [] => none

/-- A number without its sign. -/
def unsigned? (negative : Bool) (cs : List Char) : Option (Json × List Char) :=
  match cs with
  | [] => none
  | c :: after =>
    if !c.isDigit then none
    else if c = '0' && (after.head?.any Char.isDigit) then none
    else
      let (value, _, rest) := wholeDigits 0 0 cs
      match rest with
      | '.' :: rest => fractionPart? negative value 0 rest
      | 'e' :: _ | 'E' :: _ => numberTail? negative value 0 rest
      | rest =>
        if rest.head?.any Char.isDigit then
          let dropped := (rest.takeWhile Char.isDigit).length
          match rest.dropWhile Char.isDigit with
          | '.' :: rest => fractionPart? negative value dropped rest
          | rest => numberTail? negative value dropped rest
        else if !negative then some (.int value, rest)
        else if value = 0 then some (.float (-0.0), rest)
        else if value ≤ 2 ^ 63 then some (.int (-(value : Int)), rest)
        else some (.float (-(UInt64.ofNat value).toFloat), rest)

mutual

/-- A value at the start of a text, with what follows it. -/
def value? (fuel depth : Nat) (cs : List Char) : Option (Json × List Char) :=
  match fuel with
  | 0 => none
  | fuel + 1 =>
    match skipSpace cs with
    | 'n' :: 'u' :: 'l' :: 'l' :: rest => some (.null, rest)
    | 't' :: 'r' :: 'u' :: 'e' :: rest => some (.bool true, rest)
    | 'f' :: 'a' :: 'l' :: 's' :: 'e' :: rest => some (.bool false, rest)
    | '"' :: rest => do
      let (s, rest) ← stringRest? [] (rest.length + 1) rest
      some (.str s, rest)
    | '-' :: rest => unsigned? true rest
    | '[' :: rest =>
      if depth ≤ 1 then none
      else
        match skipSpace rest with
        | ']' :: rest => some (.arr [], rest)
        | rest => do
          let (items, rest) ← items? fuel (depth - 1) rest
          some (.arr items, rest)
    | '\x7b' :: rest =>
      if depth ≤ 1 then none
      else
        match skipSpace rest with
        | '\x7d' :: rest => some (.obj [], rest)
        | rest => do
          let (entries, rest) ← entries? fuel (depth - 1) rest
          some (.object entries, rest)
    | cs => unsigned? false cs

/-- The items of an array up to its closing bracket; there is at least one. -/
def items? (fuel depth : Nat) (cs : List Char) : Option (List Json × List Char) :=
  match fuel with
  | 0 => none
  | fuel + 1 => do
    let (item, rest) ← value? fuel depth cs
    match skipSpace rest with
    | ']' :: rest => some ([item], rest)
    | ',' :: rest =>
      let (items, rest) ← items? fuel depth rest
      some (item :: items, rest)
    | _ => none

/-- The entries of an object up to its closing brace; there is at least one. -/
def entries? (fuel depth : Nat) (cs : List Char) : Option (List (String × Json) × List Char) :=
  match fuel with
  | 0 => none
  | fuel + 1 =>
    match skipSpace cs with
    | '"' :: rest => do
      let (key, rest) ← stringRest? [] (rest.length + 1) rest
      match skipSpace rest with
      | ':' :: rest =>
        let (value, rest) ← value? fuel depth rest
        match skipSpace rest with
        | '\x7d' :: rest => some ([(key, value)], rest)
        | ',' :: rest =>
          let (entries, rest) ← entries? fuel depth rest
          some ((key, value) :: entries, rest)
        | _ => none
      | _ => none
    | _ => none

end

end ScriptHost.Json.Reader

def ScriptHost.Json.parse? (s : String) : Option ScriptHost.Json := do
  let cs := s.toList
  let (value, rest) ← Reader.value? (cs.length + 2) 128 cs
  if (Reader.skipSpace rest).isEmpty then some value else none
