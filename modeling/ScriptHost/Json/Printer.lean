import ScriptHost.Json.Basic
import ScriptHost.Decimal.Layout

/-!
# Writing JSON

Values on one line without blanks. Floating point numbers have the fewest digits that read
back, and always a point or an exponent.
-/

set_option autoImplicit false

namespace ScriptHost.Json

open Decimal

def hexDigit (n : Nat) : Char := (Nat.toDigits 16 n).getLast?.getD '0'

def escapeChar (c : Char) : List Char :=
  if c = '"' then ['\\', '"']
  else if c = '\\' then ['\\', '\\']
  else if c = '\n' then ['\\', 'n']
  else if c = '\r' then ['\\', 'r']
  else if c = '\t' then ['\\', 't']
  else if c = '\x08' then ['\\', 'b']
  else if c = '\x0c' then ['\\', 'f']
  else if c.toNat < 0x20 then
    ['\\', 'u', '0', '0', hexDigit (c.toNat / 16), hexDigit (c.toNat % 16)]
  else [c]

def quote (s : String) : String :=
  String.ofList ('"' :: s.toList.flatMap escapeChar ++ ['"'])

/-- Positional from `10 ^ -5` up to `10 ^ 16`, with a point; beyond, an exponent of two digits. -/
def finiteText (s : Scaled) : List Char :=
  if s.digits = 0 then "0.0".toList
  else if 0 ≤ s.exponent && s.leading < 16 then s.positional ++ ['.', '0']
  else if -5 ≤ s.leading && s.leading < 16 then s.positional
  else s.mantissa ++ 'e' :: exponentText 2 s.leading

def floatText (x : Float) : String :=
  match decode x with
  | (negative, .finite b) => withSign negative (finiteText b.shortest)
  | _ => "null"

mutual

def compress : Json → String
  | .null => "null"
  | .bool true => "true"
  | .bool false => "false"
  | .int n => toString n
  | .float x => floatText x
  | .str s => quote s
  | .arr items => "[" ++ ",".intercalate (compressItems items) ++ "]"
  | .obj entries => "\x7b" ++ ",".intercalate (compressEntries entries) ++ "\x7d"

def compressItems : List Json → List String
  | [] => []
  | item :: items => compress item :: compressItems items

def compressEntries : List (String × Json) → List String
  | [] => []
  | (key, value) :: entries => (quote key ++ ":" ++ compress value) :: compressEntries entries

end

end ScriptHost.Json
