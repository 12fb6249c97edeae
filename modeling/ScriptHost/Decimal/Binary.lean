import ScriptHost.Instances

/-!
# Binary floating point numbers as exact fractions

A finite double is a sign and `mantissa * 2 ^ exponent`. Decimal texts are computed from that
exact value in natural number arithmetic.
-/

set_option autoImplicit false

namespace ScriptHost.Decimal

/-- The size of a finite double: `mantissa * 2 ^ exponent`. -/
structure Binary where
  mantissa : Nat
  exponent : Int
  /-- Whether the next smaller double is only half as far away as the next larger one. -/
  closerBelow : Bool
deriving DecidableEq, Repr

inductive Magnitude where
  | finite (value : Binary)
  | infinite
  | notANumber
deriving DecidableEq, Repr

/-- Whether the sign bit is set, and the size without it. -/
def decode (x : Float) : Bool × Magnitude :=
  let bits := x.toBits.toNat
  let negative := bits / 2 ^ 63 == 1
  let field : Nat := bits / 2 ^ 52 % 2048
  let fraction : Nat := bits % 2 ^ 52
  if field = 2047 then (negative, if fraction = 0 then .infinite else .notANumber)
  else if field = 0 then (negative, .finite ⟨fraction, -1074, false⟩)
  else (negative, .finite ⟨fraction + 2 ^ 52, (field : Int) - 1075, fraction == 0 && field > 1⟩)

structure Ratio where
  num : Nat
  den : Nat
deriving DecidableEq, Repr

def Binary.ratio (b : Binary) : Ratio :=
  if 0 ≤ b.exponent then ⟨b.mantissa * 2 ^ b.exponent.toNat, 1⟩
  else ⟨b.mantissa, 2 ^ (-b.exponent).toNat⟩

def Ratio.shift (r : Ratio) (k : Int) : Ratio :=
  if 0 ≤ k then ⟨r.num, r.den * 10 ^ k.toNat⟩ else ⟨r.num * 10 ^ (-k).toNat, r.den⟩

def digitCount (n : Nat) : Nat := (Nat.toDigits 10 n).length

/-- The position of the first digit of a positive fraction not below `10 ^ -400`. -/
def Ratio.leading (r : Ratio) : Int :=
  if r.den ≤ r.num then (digitCount (r.num / r.den) : Int) - 1
  else (digitCount (r.num * 10 ^ 400 / r.den) : Int) - 401

/-- The nearest natural number to a fraction; a tie goes to the even one. -/
def Ratio.round (r : Ratio) : Nat :=
  let q := r.num / r.den
  let rest := 2 * (r.num % r.den)
  if rest < r.den then q
  else if r.den < rest then q + 1
  else if q % 2 = 0 then q else q + 1

/-- The decimal number `digits * 10 ^ exponent`. -/
structure Scaled where
  digits : Nat
  exponent : Int
deriving DecidableEq, Repr

def Ratio.significant (r : Ratio) (count : Nat) : Scaled :=
  if r.num = 0 then ⟨0, 0⟩
  else
    let k := r.leading - (count : Int) + 1
    let d := (r.shift k).round
    if digitCount d = count then ⟨d, k⟩ else ⟨d / 10, k + 1⟩

def Ratio.fixed (r : Ratio) (places : Nat) : Nat := (r.shift (-(places : Int))).round

end ScriptHost.Decimal
