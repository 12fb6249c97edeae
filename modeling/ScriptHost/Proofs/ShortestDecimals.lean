import ScriptHost.Proofs.DecimalRounding

/-!
# The shortest decimal number of a double

The decimal number that is found for a double lies within half a unit of it and does not end in a
zero. Rounded to a larger count of digits, as long as this is no more than a double can tell apart,
the double gives the same number.
-/

set_option autoImplicit false

namespace ScriptHost.Decimal

/-! ## Trailing zeros -/

theorem exists_strip (fuel : Nat) (s : Scaled) :
    ∃ t : Nat, s.digits = (s.strip fuel).digits * 10 ^ t ∧ (s.strip fuel).exponent = s.exponent + t := by
  induction fuel generalizing s with
  | zero => exact ⟨0, by simp [Scaled.strip], by simp [Scaled.strip]⟩
  | succ fuel ih =>
      rw [Scaled.strip]
      split
      · rename_i ends
        simp only [ne_eq, Bool.and_eq_true, decide_eq_true_eq, beq_iff_eq] at ends
        obtain ⟨t, digits, exponent⟩ := ih ⟨s.digits / 10, s.exponent + 1⟩
        refine ⟨t + 1, ?_, ?_⟩
        · dsimp only at digits
          rw [Nat.pow_succ, ← Nat.mul_assoc, ← digits]
          omega
        · dsimp only at exponent
          push_cast
          omega
      · exact ⟨0, by simp, by simp⟩

theorem mod_strip {fuel : Nat} {s : Scaled} (nonzero : s.digits ≠ 0)
    (enough : s.digits < 10 ^ fuel) : (s.strip fuel).digits % 10 ≠ 0 := by
  induction fuel generalizing s with
  | zero => omega
  | succ fuel ih =>
      rw [Scaled.strip]
      split
      · rename_i ends
        simp only [ne_eq, Bool.and_eq_true, decide_eq_true_eq, beq_iff_eq] at ends
        refine ih (s := ⟨s.digits / 10, s.exponent + 1⟩) ?_ ?_
        · dsimp only
          omega
        · dsimp only
          rw [Nat.pow_succ] at enough
          omega
      · rename_i stays
        simpa [nonzero] using stays

theorem value_strip (fuel : Nat) (s : Scaled) : (s.strip fuel).value = s.value := by
  obtain ⟨t, digits, exponent⟩ := exists_strip fuel s
  rw [Scaled.value, Scaled.value, digits, exponent, zpow_add₀ (by norm_num), zpow_natCast]
  push_cast
  ring

/-! ## Doubles -/

namespace Binary

variable {b : Binary} {d : Nat} {k : Int}

def value (b : Binary) : ℚ := b.mantissa * 2 ^ b.exponent

/-- The sizes of doubles: only the smallest ones have less than 53 binary digits. -/
structure IsDouble (b : Binary) : Prop where
  small : b.mantissa < 2 ^ 53
  low : -1074 ≤ b.exponent
  full : b.exponent ≠ -1074 → 2 ^ 52 ≤ b.mantissa

theorem isDouble_of_decode {x : Float} {negative : Bool}
    (decoded : decode x = (negative, .finite b)) : b.IsDouble := by
  simp only [decode] at decoded
  split at decoded
  · simp only [Prod.mk.injEq] at decoded
    split at decoded <;> simp at decoded
  split at decoded
  · simp only [Prod.mk.injEq, Magnitude.finite.injEq] at decoded
    obtain ⟨_, rfl⟩ := decoded
    exact ⟨by dsimp only; omega, by dsimp only; omega, fun other => absurd rfl other⟩
  · simp only [Prod.mk.injEq, Magnitude.finite.injEq] at decoded
    obtain ⟨_, rfl⟩ := decoded
    exact ⟨by dsimp only; omega, by dsimp only; omega, fun _ => by dsimp only; omega⟩

theorem value_ratio (b : Binary) : b.ratio.value = b.value := by
  unfold ratio
  split
  · rename_i up
    obtain ⟨m, exponent⟩ := Int.eq_ofNat_of_zero_le up
    simp [Ratio.value, value, exponent]
  · rename_i down
    obtain ⟨m, exponent⟩ := Int.exists_eq_neg_ofNat (Int.le_of_lt (Int.not_le.mp down))
    simp [Ratio.value, value, exponent, div_eq_mul_inv]

theorem den_ratio_pos (b : Binary) : 0 < b.ratio.den := by
  unfold ratio
  split
  · exact Nat.one_pos
  · exact Nat.pow_pos (by decide)

theorem num_ratio_pos (nonzero : b.mantissa ≠ 0) : 0 < b.ratio.num := by
  unfold ratio
  split
  · exact Nat.mul_pos (Nat.pos_of_ne_zero nonzero) (Nat.pow_pos (by decide))
  · exact Nat.pos_of_ne_zero nonzero

theorem IsDouble.den_ratio_le (double : b.IsDouble) {n : Nat} (large : 358 ≤ n) :
    b.ratio.den ≤ 10 ^ n := by
  have low := double.low
  unfold ratio
  split
  · exact Nat.pow_pos (by decide)
  · calc 2 ^ (-b.exponent).toNat ≤ 2 ^ (3 * n) := Nat.pow_le_pow_right (by decide) (by omega)
      _ = (2 ^ 3) ^ n := Nat.pow_mul ..
      _ ≤ 10 ^ n := Nat.pow_le_pow_left (by decide) n

theorem IsDouble.sizable (double : b.IsDouble) (nonzero : b.mantissa ≠ 0) : b.ratio.Sizable := by
  have num := num_ratio_pos nonzero
  have den := double.den_ratio_le (n := 400) (by decide)
  exact ⟨den_ratio_pos b, num, den.trans (Nat.le_mul_of_pos_left _ num)⟩

/-! ## The basin -/

theorem contains_bounds (contains : b.basin.contains d k = true) :
    b.basin.low.value / 10 ^ k ≤ d ∧ (d : ℚ) ≤ b.basin.high.value / 10 ^ k := by
  have low := Ratio.den_shift_pos (r := b.basin.low) (den_ratio_pos _) k
  have high := Ratio.den_shift_pos (r := b.basin.high) (den_ratio_pos _) k
  have weak : (b.basin.low.shift k).num ≤ d * (b.basin.low.shift k).den ∧
      d * (b.basin.high.shift k).den ≤ (b.basin.high.shift k).num := by
    simp only [Basin.contains] at contains
    split at contains <;>
      simp only [Bool.and_eq_true, decide_eq_true_eq] at contains <;> omega
  rw [← Ratio.value_shift, ← Ratio.value_shift, Ratio.value, Ratio.value,
    div_le_iff₀ (by exact_mod_cast low), le_div_iff₀ (by exact_mod_cast high)]
  exact_mod_cast weak

theorem low_basin_value (b : Binary) :
    (4 * b.mantissa - 2) * 2 ^ (b.exponent - 2) ≤ b.basin.low.value := by
  have unit : (0 : ℚ) < 2 ^ (b.exponent - 2) := by positivity
  obtain ⟨below, end_⟩ : ∃ below, below =
      if b.closerBelow then 4 * b.mantissa - 1 else 4 * b.mantissa - 2 := ⟨_, rfl⟩
  have most : 4 * b.mantissa ≤ below + 2 := by
    rw [end_]
    split <;> omega
  have most : (4 * b.mantissa : ℚ) ≤ below + 2 := by exact_mod_cast most
  have value := value_ratio ⟨below, b.exponent - 2, false⟩
  rw [basin, ← end_]
  dsimp only
  rw [value]
  exact mul_le_mul_of_nonneg_right (by linarith) unit.le

theorem high_basin_value (b : Binary) :
    b.basin.high.value = (4 * b.mantissa + 2) * 2 ^ (b.exponent - 2) := by
  have value := value_ratio ⟨4 * b.mantissa + 2, b.exponent - 2, false⟩
  rw [basin]
  dsimp only
  rw [value, Binary.value]
  push_cast
  rfl

/-- A decimal number in the basin of a double is within half a unit of it. -/
theorem near_of_contains (contains : b.basin.contains d k = true) :
    |b.value - (⟨d, k⟩ : Scaled).value| ≤ 2 ^ b.exponent / 2 := by
  have scale : (0 : ℚ) < 10 ^ k := by positivity
  obtain ⟨low, high⟩ := contains_bounds contains
  rw [div_le_iff₀ scale] at low
  rw [le_div_iff₀ scale, high_basin_value] at high
  have low := (low_basin_value b).trans low
  have unit : (2 : ℚ) ^ (b.exponent - 2) = 2 ^ b.exponent / 4 := by
    rw [zpow_sub₀ (by norm_num)]
    norm_num
  rw [unit] at low high
  rw [Scaled.value, value, abs_le]
  constructor <;> linarith

theorem ne_zero_of_contains (nonzero : b.mantissa ≠ 0) (contains : b.basin.contains d k = true) :
    d ≠ 0 := by
  rintro rfl
  have scale : (0 : ℚ) < 10 ^ k := by positivity
  have unit : (0 : ℚ) < 2 ^ (b.exponent - 2) := by positivity
  have one : (1 : ℚ) ≤ b.mantissa := by exact_mod_cast Nat.one_le_iff_ne_zero.mpr nonzero
  have low := (contains_bounds contains).1
  rw [div_le_iff₀ scale, Nat.cast_zero, zero_mul] at low
  have low := (low_basin_value b).trans low
  have positive : (0 : ℚ) < (4 * b.mantissa - 2) * 2 ^ (b.exponent - 2) :=
    mul_pos (by linarith) unit
  linarith

theorem onGrid?_eq_some (found : b.onGrid? k = some d) :
    b.basin.contains d k = true ∧ d ≤ (b.ratio.shift k).num / (b.ratio.shift k).den + 1 := by
  simp only [onGrid?] at found
  generalize (b.ratio.shift k).num / (b.ratio.shift k).den = down at found ⊢
  split at found
  · rename_i both both'
    split at found <;> cases found
    · exact ⟨both, Nat.le_succ _⟩
    · exact ⟨both', Nat.le_refl _⟩
  · rename_i one _
    cases found
    exact ⟨one, Nat.le_succ _⟩
  · rename_i _ one
    cases found
    exact ⟨one, Nat.le_refl _⟩
  · cases found

/-! ## The search -/

/-- A number that is found on the grid of a count of digits. -/
def FoundAt (b : Binary) (leading : Int) (count : Nat) (s : Scaled) : Prop :=
  ∃ d, b.onGrid? (leading + 1 - count) = some d ∧ s = Scaled.strip 20 ⟨d, leading + 1 - count⟩

theorem search_cases (b : Binary) (leading : Int) (count fuel : Nat) :
    b.search leading count fuel = b.ratio.significant 17 ∨
      ∃ n, n < count + fuel ∧ b.FoundAt leading n (b.search leading count fuel) := by
  induction fuel generalizing count with
  | zero => exact .inl rfl
  | succ fuel ih =>
      rw [search]
      split
      · rename_i d found
        exact .inr ⟨count, by omega, d, found, rfl⟩
      · rcases ih (count + 1) with same | ⟨n, less, found⟩
        · exact .inl same
        · exact .inr ⟨n, by omega, found⟩

theorem few_digits (sizable : b.ratio.Sizable) {n : Nat}
    (below : d ≤ (b.ratio.shift (b.ratio.leading + 1 - n)).num /
      (b.ratio.shift (b.ratio.leading + 1 - n)).den + 1) : d ≤ 10 ^ n := by
  obtain ⟨_, high⟩ := sizable.leading_bounds
  have whole := Ratio.whole_le_value
    (Ratio.den_shift_pos sizable.den_pos (b.ratio.leading + 1 - n))
  have scale : (0 : ℚ) < 10 ^ (b.ratio.leading + 1 - n) := by positivity
  have most : (b.ratio.shift (b.ratio.leading + 1 - n)).value < 10 ^ n := by
    rwa [Ratio.value_shift, div_lt_iff₀ scale, ← zpow_natCast, ← zpow_add₀ (by norm_num),
      show (n : Int) + (b.ratio.leading + 1 - n) = b.ratio.leading + 1 by omega]
  have strict := whole.trans_lt most
  have strict : (b.ratio.shift (b.ratio.leading + 1 - n)).num /
      (b.ratio.shift (b.ratio.leading + 1 - n)).den < 10 ^ n := by
    exact_mod_cast strict
  exact below.trans strict

/-- Unless a number has all the 17 digits that are tried in the end, it does not end in a zero and
is within half a unit of the double. -/
theorem IsDouble.shortest_cases (double : b.IsDouble) (nonzero : b.mantissa ≠ 0) :
    digitCount b.shortest.digits = 17 ∨
      b.shortest.digits % 10 ≠ 0 ∧ |b.value - b.shortest.value| ≤ 2 ^ b.exponent / 2 := by
  have sizable := double.sizable nonzero
  rw [shortest, if_neg nonzero]
  rcases search_cases b b.ratio.leading 1 17 with all | ⟨n, less, d, found, stripped⟩
  · rw [all]
    exact .inl (sizable.digitCount_significant (by decide))
  · obtain ⟨contains, below⟩ := onGrid?_eq_some found
    have few := few_digits sizable below
    have few : d < 10 ^ 20 :=
      Nat.lt_of_le_of_lt few (Nat.pow_lt_pow_right (by decide) (by omega))
    rw [stripped]
    refine .inr ⟨mod_strip (ne_zero_of_contains nonzero contains) few, ?_⟩
    rw [value_strip]
    exact near_of_contains contains

/-- Half a unit of a double is little against the 14th digit, unless the double is tiny. -/
theorem IsDouble.unit_lt (double : b.IsDouble) {s : Scaled}
    (near : |b.value - s.value| ≤ 2 ^ b.exponent / 2) (large : -4 ≤ s.leading) :
    10 * (2 : ℚ) ^ b.exponent < 10 ^ (s.leading - 13) := by
  by_cases smallest : b.exponent = -1074
  · have least : (10 : ℚ) ^ (-17 : Int) ≤ 10 ^ (s.leading - 13) :=
      zpow_le_zpow_right₀ (by norm_num) (by omega)
    have most : (2 : ℚ) ^ b.exponent ≤ 2 ^ (-64 : Int) :=
      zpow_le_zpow_right₀ (by norm_num) (by omega)
    have between : 10 * (2 : ℚ) ^ (-64 : Int) < 10 ^ (-17 : Int) := by norm_num
    linarith
  · have unit : (0 : ℚ) < 2 ^ b.exponent := by positivity
    have mantissa : (2 : ℚ) ^ 52 ≤ b.mantissa := by exact_mod_cast double.full smallest
    have size : 2 ^ 52 * (2 : ℚ) ^ b.exponent ≤ b.value :=
      mul_le_mul_of_nonneg_right mantissa unit.le
    have digits : (s.digits : ℚ) < 10 ^ digitCount s.digits := by
      exact_mod_cast lt_pow_digitCount s.digits
    have most : s.value < 10 ^ 14 * 10 ^ (s.leading - 13) := by
      have scale : (0 : ℚ) < 10 ^ s.exponent := by positivity
      have position : (14 : Int) + (s.leading - 13) = digitCount s.digits + s.exponent := by
        rw [Scaled.leading]
        omega
      calc s.value < 10 ^ digitCount s.digits * 10 ^ s.exponent :=
            mul_lt_mul_of_pos_right digits scale
        _ = 10 ^ 14 * 10 ^ (s.leading - 13) := by
            rw [← zpow_natCast, ← zpow_add₀ (by norm_num), ← position, zpow_add₀ (by norm_num)]
            norm_num
    have upper := (abs_le.mp near).2
    linarith

/-- With no more than 14 digits, the number comes back when the double is rounded to 14. -/
theorem IsDouble.significant_eq (double : b.IsDouble) (nonzero : b.mantissa ≠ 0) {s : Scaled}
    (some_ : s.digits ≠ 0) (near : |b.value - s.value| ≤ 2 ^ b.exponent / 2)
    (large : -4 ≤ s.leading) {j : Nat} (count : digitCount s.digits + j = 14) :
    b.ratio.significant 14 = ⟨s.digits * 10 ^ j, s.exponent - j⟩ := by
  have unit := double.unit_lt near large
  have value : (⟨s.digits * 10 ^ j, s.exponent - j⟩ : Scaled).value = s.value := by
    rw [Scaled.value, Scaled.value, zpow_sub₀ (by norm_num), zpow_natCast]
    push_cast
    field_simp
  have positive : s.digits * 10 ^ j ≠ 0 := Nat.mul_ne_zero some_ (by positivity)
  have rounded := (double.sizable nonzero).significant_eq (s := ⟨s.digits * 10 ^ j, s.exponent - j⟩)
    positive (by
      rw [value_ratio, value]
      dsimp only
      rw [show s.exponent - j = s.leading - 13 by rw [Scaled.leading]; omega]
      linarith)
  rwa [digitCount_mul_pow some_, count] at rounded

end Binary

end ScriptHost.Decimal
