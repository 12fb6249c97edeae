import ScriptHost.Decimal.Binary

/-!
# The fewest digits that read back

The shortest decimal number that lies within half a unit of a double, nearest first among
those of one length.
-/

set_option autoImplicit false

namespace ScriptHost.Decimal

/-- The fractions that round to a double: its ends, and whether the ends belong to it. -/
structure Basin where
  low : Ratio
  high : Ratio
  closed : Bool

/-- The basin of `m * 2 ^ q` reaches half way to the neighbouring doubles. -/
def Binary.basin (b : Binary) : Basin :=
  let below := if b.closerBelow then 4 * b.mantissa - 1 else 4 * b.mantissa - 2
  let ratio (n : Nat) : Ratio := Binary.ratio ⟨n, b.exponent - 2, false⟩
  ⟨ratio below, ratio (4 * b.mantissa + 2), b.mantissa % 2 == 0⟩

/-- Whether the whole number `d`, in units of `10 ^ k`, lies in the basin. -/
def Basin.contains (basin : Basin) (d : Nat) (k : Int) : Bool :=
  let low := basin.low.shift k
  let high := basin.high.shift k
  if basin.closed then low.num ≤ d * low.den && d * high.den ≤ high.num
  else low.num < d * low.den && d * high.den < high.num

/-- The nearest of the two neighbours of the value on the grid of `10 ^ k` that lie in the basin. -/
def Binary.onGrid? (b : Binary) (k : Int) : Option Nat :=
  let value := b.ratio.shift k
  let down := value.num / value.den
  let rest := 2 * (value.num % value.den)
  let basin := b.basin
  match basin.contains down k, basin.contains (down + 1) k with
  | true, true =>
    some (if rest < value.den || (rest == value.den && down % 2 == 0) then down else down + 1)
  | true, false => some down
  | false, true => some (down + 1)
  | false, false => none

/-- Removes trailing zeros, at most `fuel` of them. -/
def Scaled.strip (fuel : Nat) (s : Scaled) : Scaled :=
  match fuel with
  | 0 => s
  | fuel + 1 =>
    if s.digits ≠ 0 && s.digits % 10 == 0 then strip fuel ⟨s.digits / 10, s.exponent + 1⟩ else s

/-- The first of the digit counts `count`, `count + 1`, ... on whose grid the value is found. -/
def Binary.search (b : Binary) (leading : Int) (count : Nat) : Nat → Scaled
  | 0 => b.ratio.significant 17
  | fuel + 1 =>
    let k := leading + 1 - count
    match b.onGrid? k with
    | some d => Scaled.strip 20 ⟨d, k⟩
    | none => b.search leading (count + 1) fuel

def Binary.shortest (b : Binary) : Scaled :=
  if b.mantissa = 0 then ⟨0, 0⟩ else b.search b.ratio.leading 1 17

end ScriptHost.Decimal
