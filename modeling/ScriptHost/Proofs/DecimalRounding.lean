import Mathlib.Algebra.Order.Field.Power
import Mathlib.Algebra.Order.Floor.Semifield
import Mathlib.Tactic.FieldSimp
import Mathlib.Tactic.Linarith
import Mathlib.Tactic.Positivity
import ScriptHost.Proofs.DecimalLayouts

/-!
# Rounding to decimal digits

What the decimal numbers that are computed from an exact fraction have to do with it. Rounding to
a count of digits gives that many digits, and it gives a decimal number that is near enough. The
shortest decimal number of a double is within half a unit of it.
-/

set_option autoImplicit false

namespace ScriptHost.Decimal

/-! ## Fractions -/

namespace Ratio

variable {r : Ratio} {L : Int} {n count : Nat}

def value (r : Ratio) : ℚ := r.num / r.den

theorem value_shift (r : Ratio) (k : Int) : (r.shift k).value = r.value / 10 ^ k := by
  unfold shift
  split
  · rename_i up
    obtain ⟨m, rfl⟩ := Int.eq_ofNat_of_zero_le up
    simp [value, div_div]
  · rename_i down
    obtain ⟨m, rfl⟩ := Int.exists_eq_neg_ofNat (Int.le_of_lt (Int.not_le.mp down))
    simp [value, div_mul_eq_mul_div]

theorem den_shift_pos (positive : 0 < r.den) (k : Int) : 0 < (r.shift k).den := by
  unfold shift
  split
  · exact Nat.mul_pos positive (Nat.pow_pos (by decide))
  · exact positive

/-- The whole part and the rest. -/
theorem value_eq (positive : 0 < r.den) :
    r.value = (r.num / r.den : Nat) + (r.num % r.den : Nat) / (r.den : ℚ) := by
  have whole : (r.num : ℚ) = r.den * (r.num / r.den : Nat) + (r.num % r.den : Nat) := by
    exact_mod_cast (Nat.div_add_mod r.num r.den).symm
  have nonzero : (r.den : ℚ) ≠ 0 := by positivity
  rw [value]
  field_simp
  linarith

theorem whole_le_value (positive : 0 < r.den) : ((r.num / r.den : Nat) : ℚ) ≤ r.value := by
  rw [value_eq positive]
  have rest : (0 : ℚ) ≤ (r.num % r.den : Nat) / (r.den : ℚ) := by positivity
  linarith

theorem value_lt_whole_add_one (positive : 0 < r.den) :
    r.value < (r.num / r.den : Nat) + 1 := by
  have bound : ((r.num % r.den : Nat) : ℚ) < r.den := by
    exact_mod_cast Nat.mod_lt _ positive
  have rest : ((r.num % r.den : Nat) : ℚ) / r.den < 1 := by
    rwa [div_lt_one (by positivity)]
  rw [value_eq positive]
  linarith

theorem abs_round_sub_le (positive : 0 < r.den) : |(r.round : ℚ) - r.value| ≤ 1 / 2 := by
  have den : (0 : ℚ) < r.den := by positivity
  have value := value_eq positive
  have low : (0 : ℚ) ≤ (r.num % r.den : Nat) / (r.den : ℚ) := by positivity
  have high : ((r.num % r.den : Nat) : ℚ) / r.den < 1 := by
    rw [div_lt_one den]
    exact_mod_cast Nat.mod_lt _ positive
  have below (less : 2 * (r.num % r.den) ≤ r.den) :
      ((r.num % r.den : Nat) : ℚ) / r.den ≤ 1 / 2 := by
    have less : (2 : ℚ) * (r.num % r.den : Nat) ≤ r.den := by exact_mod_cast less
    rw [div_le_iff₀ den]
    linarith
  have above (more : r.den ≤ 2 * (r.num % r.den)) :
      1 / 2 ≤ ((r.num % r.den : Nat) : ℚ) / r.den := by
    have more : (r.den : ℚ) ≤ 2 * (r.num % r.den : Nat) := by exact_mod_cast more
    rw [le_div_iff₀ den]
    linarith
  have down (less : 2 * (r.num % r.den) ≤ r.den) :
      |((r.num / r.den : Nat) : ℚ) - r.value| ≤ 1 / 2 := by
    have rest := below less
    rw [value, abs_le]
    constructor <;> linarith
  have up (more : r.den ≤ 2 * (r.num % r.den)) :
      |((r.num / r.den + 1 : Nat) : ℚ) - r.value| ≤ 1 / 2 := by
    have rest := above more
    rw [value, abs_le]
    push_cast
    constructor <;> linarith
  unfold round
  dsimp only
  split
  · exact down (by omega)
  split
  · exact up (by omega)
  split
  · exact down (by omega)
  · exact up (by omega)

theorem round_eq_of_near (positive : 0 < r.den) (near : |r.value - n| < 1 / 2) : r.round = n := by
  have own := abs_round_sub_le positive
  obtain ⟨low, high⟩ := abs_le.mp own
  obtain ⟨low', high'⟩ := abs_lt.mp near
  have less : (r.round : ℚ) < n + 1 := by linarith
  have more : (n : ℚ) < r.round + 1 := by linarith
  have less : r.round < n + 1 := by exact_mod_cast less
  have more : n < r.round + 1 := by exact_mod_cast more
  omega

/-! ## The first digit -/

theorem pow_digitCount_bounds {v : ℚ} (nonzero : n ≠ 0) (low : (n : ℚ) ≤ v) (high : v < n + 1) :
    (10 : ℚ) ^ ((digitCount n : Int) - 1) ≤ v ∧ v < 10 ^ (digitCount n : Int) := by
  have some_ := digitCount_pos (n := n)
  have least : (10 : ℚ) ^ (digitCount n - 1) ≤ n := by exact_mod_cast pow_le_of_digitCount nonzero
  have most : (n : ℚ) + 1 ≤ 10 ^ digitCount n := by exact_mod_cast lt_pow_digitCount n
  rw [show (digitCount n : Int) - 1 = ((digitCount n - 1 : Nat) : Int) by omega, zpow_natCast,
    zpow_natCast]
  exact ⟨by linarith, by linarith⟩

/-- A fraction that is positive and not too small. -/
structure Sizable (r : Ratio) : Prop where
  den_pos : 0 < r.den
  num_pos : 0 < r.num
  large : r.den ≤ r.num * 10 ^ 400

theorem Sizable.leading_bounds (sizable : r.Sizable) :
    10 ^ r.leading ≤ r.value ∧ r.value < 10 ^ (r.leading + 1) := by
  have positive := sizable.den_pos
  unfold leading
  split
  · rename_i whole
    have nonzero : r.num / r.den ≠ 0 := Nat.ne_of_gt (Nat.div_pos whole positive)
    have bounds := pow_digitCount_bounds nonzero (whole_le_value positive)
      (value_lt_whole_add_one positive)
    rwa [show (digitCount (r.num / r.den) : Int) - 1 + 1 = digitCount (r.num / r.den) by omega]
  · let scaled : Ratio := ⟨r.num * 10 ^ 400, r.den⟩
    have value : scaled.value = r.value * 10 ^ (400 : Int) := by
      simp only [scaled, Ratio.value, Nat.cast_mul, Nat.cast_pow, Nat.cast_ofNat]
      rw [mul_div_right_comm]
      rfl
    have nonzero : scaled.num / scaled.den ≠ 0 :=
      Nat.ne_of_gt (Nat.div_pos sizable.large positive)
    obtain ⟨low, high⟩ := pow_digitCount_bounds nonzero (whole_le_value (r := scaled) positive)
      (value_lt_whole_add_one (r := scaled) positive)
    rw [value] at low high
    have scale : (0 : ℚ) < 10 ^ (400 : Int) := by positivity
    change 10 ^ ((digitCount (scaled.num / scaled.den) : Int) - 401) ≤ r.value ∧
      r.value < 10 ^ ((digitCount (scaled.num / scaled.den) : Int) - 401 + 1)
    generalize digitCount (scaled.num / scaled.den) = digits at low high ⊢
    constructor
    · refine le_of_mul_le_mul_right ?_ scale
      rwa [← zpow_add₀ (by norm_num), show (digits : Int) - 401 + 400 = digits - 1 by omega]
    · refine lt_of_mul_lt_mul_right ?_ scale.le
      rwa [← zpow_add₀ (by norm_num), show (digits : Int) - 401 + 1 + 400 = digits by omega]

theorem Sizable.leading_eq (sizable : r.Sizable) (low : 10 ^ L ≤ r.value)
    (high : r.value < 10 ^ (L + 1)) : r.leading = L := by
  obtain ⟨least, most⟩ := sizable.leading_bounds
  have below := (zpow_lt_zpow_iff_right₀ (by norm_num : (1 : ℚ) < 10)).mp (least.trans_lt high)
  have above := (zpow_lt_zpow_iff_right₀ (by norm_num : (1 : ℚ) < 10)).mp (low.trans_lt most)
  omega

/-! ## Significant digits -/

theorem Sizable.significant_eq_ite (sizable : r.Sizable) {k : Int}
    (position : r.leading - count + 1 = k) :
    r.significant count =
      if digitCount (r.shift k).round = count then ⟨(r.shift k).round, k⟩
      else ⟨(r.shift k).round / 10, k + 1⟩ := by
  rw [significant, if_neg (Nat.ne_of_gt sizable.num_pos), position]

theorem Sizable.digitCount_significant (sizable : r.Sizable) (some_ : 0 < count) :
    digitCount (r.significant count).digits = count := by
  obtain ⟨low, high⟩ := sizable.leading_bounds
  obtain ⟨k, position⟩ : ∃ k, r.leading - count + 1 = k := ⟨_, rfl⟩
  have den := den_shift_pos sizable.den_pos k
  have value := value_shift r k
  have scale : (0 : ℚ) < 10 ^ k := by positivity
  have least : (10 : ℚ) ^ (count - 1) ≤ (r.shift k).value := by
    rwa [value, le_div_iff₀ scale, ← zpow_natCast, ← zpow_add₀ (by norm_num),
      show ((count - 1 : Nat) : Int) + k = r.leading by omega]
  have most : (r.shift k).value < 10 ^ count := by
    rwa [value, div_lt_iff₀ scale, ← zpow_natCast, ← zpow_add₀ (by norm_num),
      show (count : Int) + k = r.leading + 1 by omega]
  obtain ⟨below, above⟩ := abs_le.mp (abs_round_sub_le den)
  have atLeast : 10 ^ (count - 1) ≤ (r.shift k).round := by
    have strict : (10 : ℚ) ^ (count - 1) < (r.shift k).round + 1 := by linarith
    have strict : 10 ^ (count - 1) < (r.shift k).round + 1 := by exact_mod_cast strict
    omega
  have atMost : (r.shift k).round ≤ 10 ^ count := by
    have strict : ((r.shift k).round : ℚ) < 10 ^ count + 1 := by linarith
    have strict : (r.shift k).round < 10 ^ count + 1 := by exact_mod_cast strict
    omega
  rw [sizable.significant_eq_ite position]
  split
  · assumption
  · rename_i other
    obtain ⟨count, rfl⟩ := Nat.exists_eq_add_of_le' some_
    rw [Nat.add_sub_cancel] at atLeast
    have full : (r.shift k).round = 10 ^ (count + 1) := by
      by_contra less
      exact other (digitCount_eq atLeast (Nat.lt_of_le_of_ne atMost less))
    rw [full, Nat.pow_succ, Nat.mul_div_cancel _ (by decide)]
    exact digitCount_eq (Nat.le_refl _) (Nat.pow_lt_pow_right (by decide) (Nat.lt_succ_self _))

end Ratio

/-! ## Decimal numbers -/

def Scaled.value (s : Scaled) : ℚ := s.digits * 10 ^ s.exponent

section

variable {r : Ratio} {D count : Nat} {E : Int} {x : ℚ}

/-- A fraction that reaches the power of ten with as many digits has its first digit there. -/
theorem Ratio.Sizable.significant_of_reached (sizable : r.Sizable)
    (digits : digitCount D = count + 1) (scaled : r.value = x * 10 ^ E) (close : |x - D| < 1 / 20)
    (reached : (10 : ℚ) ^ count ≤ x) : r.significant (count + 1) = ⟨D, E⟩ := by
  have unit : (0 : ℚ) < 10 ^ E := by positivity
  have ten : (10 : ℚ) ≠ 0 := by norm_num
  have above := (abs_lt.mp close).2
  have high : D + 1 ≤ 10 ^ (count + 1) := digits ▸ lt_pow_digitCount D
  have high : (D : ℚ) + 1 ≤ 10 ^ count * 10 := by exact_mod_cast high
  have leading : r.leading = count + E := by
    refine sizable.leading_eq ?_ ?_
    · rw [scaled, zpow_add₀ ten, zpow_natCast]
      exact mul_le_mul_of_nonneg_right reached unit.le
    · rw [scaled, show (count : Int) + E + 1 = count + 1 + E by omega, zpow_add₀ ten,
        zpow_add₀ ten, zpow_natCast, zpow_one]
      exact mul_lt_mul_of_pos_right (by linarith) unit
  have value : (r.shift E).value = x := by
    rw [Ratio.value_shift, scaled]
    field_simp
  have round : (r.shift E).round = D :=
    Ratio.round_eq_of_near (Ratio.den_shift_pos sizable.den_pos E) (by rw [value]; linarith)
  rw [sizable.significant_eq_ite (k := E) (by push_cast; omega), round, if_pos digits]

/-- A fraction just below a power of ten has its first digit one position further right, and is
rounded up to the power. -/
theorem Ratio.Sizable.significant_of_missed (sizable : r.Sizable) (nonzero : D ≠ 0)
    (digits : digitCount D = count + 1) (scaled : r.value = x * 10 ^ E) (close : |x - D| < 1 / 20)
    (missed : x < (10 : ℚ) ^ count) : r.significant (count + 1) = ⟨D, E⟩ := by
  have unit : (0 : ℚ) < 10 ^ E := by positivity
  have ten : (10 : ℚ) ≠ 0 := by norm_num
  obtain ⟨below, above⟩ := abs_lt.mp close
  have one : (1 : ℚ) ≤ 10 ^ count := one_le_pow₀ (by norm_num)
  have low := pow_le_of_digitCount nonzero
  rw [digits, Nat.add_sub_cancel] at low
  have power : D = 10 ^ count := by
    have small : (D : ℚ) < 10 ^ count + 1 := by linarith
    have small : D < 10 ^ count + 1 := by exact_mod_cast small
    omega
  have equal : (D : ℚ) = 10 ^ count := by exact_mod_cast power
  have leading : r.leading = count + (E - 1) := by
    refine sizable.leading_eq ?_ ?_
    · rw [scaled, zpow_add₀ ten, zpow_sub₀ ten, zpow_natCast, zpow_one, mul_div_assoc',
        div_le_iff₀ (by norm_num)]
      nlinarith
    · rw [scaled, show (count : Int) + (E - 1) + 1 = count + E by omega, zpow_add₀ ten,
        zpow_natCast]
      exact mul_lt_mul_of_pos_right missed unit
  have value : (r.shift (E - 1)).value = x * 10 := by
    rw [Ratio.value_shift, scaled, zpow_sub₀ ten, zpow_one]
    field_simp
  have round : (r.shift (E - 1)).round = 10 ^ (count + 1) := by
    refine Ratio.round_eq_of_near (Ratio.den_shift_pos sizable.den_pos (E - 1)) ?_
    rw [value, abs_lt]
    push_cast
    rw [pow_succ, ← equal]
    constructor <;> linarith
  have longer : digitCount (10 ^ (count + 1)) = count + 2 :=
    digitCount_eq (Nat.le_refl _) (Nat.pow_lt_pow_right (by decide) (Nat.lt_succ_self _))
  rw [sizable.significant_eq_ite (k := E - 1) (by push_cast; omega), round,
    if_neg (by omega), Nat.pow_succ, Nat.mul_div_cancel _ (by decide), power, Int.sub_add_cancel]

/-- Rounding to a count of digits gives a decimal number with so many of them that is near enough.
The first digit of the fraction may still be one position further right. -/
theorem Ratio.Sizable.significant_eq (sizable : r.Sizable) {s : Scaled}
    (nonzero : s.digits ≠ 0) (near : |r.value - s.value| * 20 < 10 ^ s.exponent) :
    r.significant (digitCount s.digits) = s := by
  obtain ⟨D, E⟩ := s
  dsimp only [Scaled.value] at nonzero near ⊢
  obtain ⟨count, digits⟩ := Nat.exists_eq_add_of_le' (digitCount_pos (n := D))
  have unit : (0 : ℚ) < 10 ^ E := by positivity
  obtain ⟨x, scaled⟩ : ∃ x : ℚ, r.value = x * 10 ^ E := ⟨r.value / 10 ^ E, by field_simp⟩
  have close : |x - D| * 20 < 1 := by
    rw [scaled, ← sub_mul, abs_mul, abs_of_pos unit] at near
    exact lt_of_mul_lt_mul_right (by linarith) unit.le
  have close : |x - D| < 1 / 20 := by linarith
  rw [digits]
  rcases le_or_gt ((10 : ℚ) ^ count) x with reached | missed
  · exact sizable.significant_of_reached digits scaled close reached
  · exact sizable.significant_of_missed nonzero digits scaled close missed

end

end ScriptHost.Decimal
