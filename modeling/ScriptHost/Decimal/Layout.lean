import ScriptHost.Decimal.Shortest

/-!
# Layouts of decimal numbers

Digits and an exponent written out, positionally or with an exponent.
-/

set_option autoImplicit false

namespace ScriptHost.Decimal

def digitChars (n : Nat) : List Char := Nat.toDigits 10 n

def zeros (n : Nat) : List Char := List.replicate n '0'

/-- The digits with the point `places` digits from the right; no point if `places` is zero. -/
def pointAt (digits : Nat) (places : Nat) : List Char :=
  let cs := digitChars digits
  let padded := zeros (places + 1 - cs.length) ++ cs
  let whole := padded.take (padded.length - places)
  let fraction := padded.drop (padded.length - places)
  if places = 0 then whole else whole ++ '.' :: fraction

/-- Positional notation without an exponent; whole numbers have no point. -/
def Scaled.positional (s : Scaled) : List Char :=
  if 0 ≤ s.exponent then
    if s.digits = 0 then ['0'] else digitChars s.digits ++ zeros s.exponent.toNat
  else pointAt s.digits (-s.exponent).toNat

def Scaled.leading (s : Scaled) : Int := s.exponent + (digitCount s.digits : Int) - 1

def Scaled.mantissa (s : Scaled) : List Char :=
  match digitChars s.digits with
  | [] => []
  | [d] => [d]
  | d :: ds => d :: '.' :: ds

/-- A signed exponent of at least `width` digits. -/
def exponentText (width : Nat) (e : Int) : List Char :=
  let cs := digitChars e.natAbs
  (if e < 0 then '-' else '+') :: (zeros (width - cs.length) ++ cs)

def withSign (negative : Bool) (cs : List Char) : String :=
  String.ofList (if negative then '-' :: cs else cs)

/-- Full positional notation: the fewest digits that read back, never an exponent, no point in
a whole number. -/
def plain (x : Float) : String :=
  match decode x with
  | (_, .notANumber) => "NaN"
  | (negative, .infinite) => withSign negative "inf".toList
  | (negative, .finite b) => withSign negative b.shortest.positional

end ScriptHost.Decimal
