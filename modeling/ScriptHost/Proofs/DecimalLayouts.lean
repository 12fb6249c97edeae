import Mathlib.Data.List.Basic
import Mathlib.Data.Nat.Digits.Defs
import ScriptHost.Lua.Number

/-!
# Digits around a point

What positional layouts show: the digits and the position of the point can be read back from the
text, and removing the zeros at its end moves them out of the digits.
-/

set_option autoImplicit false

namespace ScriptHost.Decimal

open Lua.Number (stripZeros)

variable {d n p j k : Nat}

/-! ## Digits -/

theorem isDigit_digitChars : ∀ c ∈ digitChars n, c.isDigit = true :=
  fun _ member => Nat.isDigit_of_mem_toDigits (by decide) (by decide) member

theorem isDigit_zeros : ∀ c ∈ zeros n, c.isDigit = true :=
  fun _ member => (List.eq_of_mem_replicate member).symm ▸ rfl

theorem digitCount_pos : 0 < digitCount n := Nat.length_toDigits_pos

theorem digitCount_le_iff (positive : 0 < k) : digitCount n ≤ k ↔ n < 10 ^ k :=
  Nat.length_toDigits_le_iff (by decide) positive

theorem lt_pow_digitCount (n : Nat) : n < 10 ^ digitCount n :=
  (digitCount_le_iff digitCount_pos).mp (Nat.le_refl _)

theorem pow_le_of_digitCount (nonzero : n ≠ 0) : 10 ^ (digitCount n - 1) ≤ n := by
  rcases Nat.eq_zero_or_pos (digitCount n - 1) with single | more
  · rw [single]
    omega
  · exact Nat.not_lt.mp fun small => by
      have fewer := (digitCount_le_iff more).mpr small
      omega

theorem digitCount_eq (low : 10 ^ k ≤ n) (high : n < 10 ^ (k + 1)) : digitCount n = k + 1 := by
  have most := (digitCount_le_iff (Nat.succ_pos k)).mpr high
  have least : k < digitCount n := by
    by_contra fewer
    have small : n < 10 ^ k :=
      Nat.lt_of_lt_of_le (lt_pow_digitCount n) (Nat.pow_le_pow_right (by decide) (by omega))
    omega
  omega

theorem digitChars_mul_pow (nonzero : n ≠ 0) (j : Nat) :
    digitChars (n * 10 ^ j) = digitChars n ++ zeros j := by
  induction j with
  | zero => simp [zeros]
  | succ j ih =>
      have positive : 0 < n * 10 ^ j := Nat.mul_pos (by omega) (by positivity)
      have one := Nat.toDigits_append_toDigits (b := 10) (d := 0) (by decide) positive (by decide)
      rw [show n * 10 ^ (j + 1) = 10 * (n * 10 ^ j) + 0 by rw [Nat.pow_succ]; ring]
      rw [digitChars, ← one, ← digitChars, ih, Nat.toDigits_zero, List.append_assoc]
      exact congrArg _ (List.replicate_succ' ..).symm

theorem digitCount_mul_pow (nonzero : n ≠ 0) (j : Nat) :
    digitCount (n * 10 ^ j) = digitCount n + j := by
  have lengths := congrArg List.length (digitChars_mul_pow nonzero j)
  rwa [List.length_append, zeros, List.length_replicate] at lengths

theorem getLast?_digitChars (n : Nat) :
    (digitChars n).getLast? = some (Nat.digitChar (n % 10)) := by
  rw [digitChars, Nat.toDigits_eq_if (by decide)]
  split
  · rename_i small
    rw [Nat.mod_eq_of_lt small]
    rfl
  · simp

/-! ## The point -/

/-- The digits, with zeros in front that make room for the point. -/
def paddedChars (digits places : Nat) : List Char :=
  zeros (places + 1 - digitCount digits) ++ digitChars digits

def wholeChars (digits places : Nat) : List Char :=
  (paddedChars digits places).take ((paddedChars digits places).length - places)

def fractionChars (digits places : Nat) : List Char :=
  (paddedChars digits places).drop ((paddedChars digits places).length - places)

theorem length_paddedChars (d p : Nat) :
    (paddedChars d p).length = max (p + 1) (digitCount d) := by
  simp only [paddedChars, zeros, digitChars, List.length_append, List.length_replicate]
  rw [← digitCount]
  omega

theorem isDigit_paddedChars : ∀ c ∈ paddedChars d p, c.isDigit = true := by
  intro c member
  rcases List.mem_append.mp member with zero | digit
  · exact isDigit_zeros c zero
  · exact isDigit_digitChars c digit

theorem point_not_mem_wholeChars : '.' ∉ wholeChars d p := fun member =>
  absurd (isDigit_paddedChars _ (List.mem_of_mem_take member)) (by decide)

theorem point_not_mem_fractionChars : '.' ∉ fractionChars d p := fun member =>
  absurd (isDigit_paddedChars _ (List.mem_of_mem_drop member)) (by decide)

theorem length_fractionChars (d p : Nat) : (fractionChars d p).length = p := by
  rw [fractionChars, List.length_drop, length_paddedChars]
  omega

theorem pointAt_eq (positive : 0 < p) :
    pointAt d p = wholeChars d p ++ '.' :: fractionChars d p := by
  rw [pointAt, if_neg (by omega)]
  rfl

theorem mem_pointAt {c : Char} (positive : 0 < p) (member : c ∈ pointAt d p) :
    c = '.' ∨ c.isDigit = true := by
  rw [pointAt_eq positive] at member
  rcases List.mem_append.mp member with whole | rest
  · exact .inr (isDigit_paddedChars c (List.mem_of_mem_take whole))
  · exact (List.mem_cons.mp rest).imp_right fun fraction =>
      isDigit_paddedChars c (List.mem_of_mem_drop fraction)

theorem point_mem_pointAt (positive : 0 < p) : '.' ∈ pointAt d p := by
  simp [pointAt_eq positive]

theorem pointAt_zero (d : Nat) : pointAt d 0 = digitChars d := by
  have positive : 0 < (digitChars d).length := digitCount_pos
  simp [pointAt, zeros, show 1 - (digitChars d).length = 0 by omega]

theorem ofDigitChars_paddedChars (d p : Nat) : Nat.ofDigitChars 10 (paddedChars d p) 0 = d := by
  rw [paddedChars, zeros, Nat.ofDigitChars_append, Nat.ofDigitChars_replicate_zero, Nat.mul_zero]
  exact Nat.ofDigitChars_ten_toDigits

/-- The digits and the point can be read back. -/
theorem eq_of_pointAt {whole fraction : List Char} (positive : 0 < p)
    (same : pointAt d p = whole ++ '.' :: fraction) :
    d = Nat.ofDigitChars 10 (whole ++ fraction) 0 ∧ p = fraction.length := by
  rw [pointAt_eq positive] at same
  obtain ⟨rfl, _, rfl⟩ := (List.append_cons_inj_of_notMem point_not_mem_wholeChars
    point_not_mem_fractionChars).mp same
  have padded : wholeChars d p ++ fractionChars d p = paddedChars d p := List.take_append_drop ..
  exact ⟨by rw [padded, ofDigitChars_paddedChars], (length_fractionChars d p).symm⟩

theorem pointAt_inj {d' p' : Nat} (positive : 0 < p) (positive' : 0 < p')
    (same : pointAt d p = pointAt d' p') : d = d' ∧ p = p' := by
  have split := pointAt_eq (d := d') positive'
  obtain ⟨digits, places⟩ := eq_of_pointAt positive (same.trans split)
  obtain ⟨digits', places'⟩ := eq_of_pointAt positive' split
  exact ⟨digits.trans digits'.symm, places.trans places'.symm⟩

/-! ## Zeros at the end -/

theorem paddedChars_mul_pow (nonzero : d ≠ 0) (p j : Nat) :
    paddedChars (d * 10 ^ j) (p + j) = paddedChars d p ++ zeros j := by
  rw [paddedChars, paddedChars, digitChars_mul_pow nonzero, digitCount_mul_pow nonzero,
    List.append_assoc, show p + j + 1 - (digitCount d + j) = p + 1 - digitCount d by omega]

theorem pointAt_mul_pow (nonzero : d ≠ 0) (positive : 0 < p) (j : Nat) :
    pointAt (d * 10 ^ j) (p + j) = pointAt d p ++ zeros j := by
  have length : (paddedChars d p ++ zeros j).length - (p + j) = (paddedChars d p).length - p := by
    rw [List.length_append, zeros, List.length_replicate]
    omega
  have within : (paddedChars d p).length - p ≤ (paddedChars d p).length := Nat.sub_le ..
  rw [pointAt_eq positive, pointAt_eq (by omega), wholeChars, fractionChars,
    paddedChars_mul_pow nonzero, length, List.take_append_of_le_length within,
    List.drop_append_of_le_length within, List.append_assoc, List.cons_append]
  rfl

theorem dropWhile_zeros (j : Nat) (cs : List Char) :
    (zeros j ++ cs).dropWhile (· = '0') = cs.dropWhile (· = '0') := by
  induction j with
  | zero => rfl
  | succ j ih => simp [zeros, List.replicate_succ]

theorem stripZeros_append_zeros {cs : List Char} {last : Char} (point : '.' ∈ cs)
    (nonzero : last ≠ '0') (j : Nat) (ends : cs.getLast? = some last) :
    stripZeros (cs ++ zeros j) = if last = '.' then cs.dropLast else cs := by
  have contained : (cs ++ zeros j).contains '.' = true := by
    simp [point]
  obtain ⟨front, rfl⟩ := List.getLast?_eq_some_iff.mp ends
  have stripped : (((front ++ [last]) ++ zeros j).reverse.dropWhile (· = '0')).reverse =
      front ++ [last] := by
    rw [List.reverse_append, show (zeros j).reverse = zeros j from List.reverse_replicate ..,
      dropWhile_zeros, List.reverse_append]
    simp [nonzero]
  rw [stripZeros, if_pos contained]
  dsimp only
  rw [stripped]
  simp

theorem digitChar_ne : ∀ k < 10, Nat.digitChar k ≠ '.' ∧ (k ≠ 0 → Nat.digitChar k ≠ '0') := by
  decide

theorem getLast?_pointAt (positive : 0 < p) :
    (pointAt d p).getLast? = some (Nat.digitChar (d % 10)) := by
  have padded : (paddedChars d p).getLast? = some (Nat.digitChar (d % 10)) := by
    rw [paddedChars, List.getLast?_append, getLast?_digitChars, Option.some_or]
  have within : ¬ (paddedChars d p).length ≤ (paddedChars d p).length - p := by
    rw [length_paddedChars]
    omega
  have fraction : (fractionChars d p).getLast? = some (Nat.digitChar (d % 10)) := by
    rw [fractionChars, List.getLast?_drop, if_neg within, padded]
  rw [pointAt_eq positive, List.getLast?_append, List.getLast?_cons, fraction]
  rfl

/-- What is left of a fraction that does not vanish. -/
theorem stripZeros_pointAt (reduced : d % 10 ≠ 0) (positive : 0 < p) (j : Nat) :
    stripZeros (pointAt (d * 10 ^ j) (p + j)) = pointAt d p := by
  have nonzero : d ≠ 0 := by
    rintro rfl
    exact reduced rfl
  obtain ⟨noPoint, noZero⟩ := digitChar_ne (d % 10) (Nat.mod_lt _ (by decide))
  rw [pointAt_mul_pow nonzero positive, stripZeros_append_zeros (point_mem_pointAt positive)
    (noZero reduced) j (getLast?_pointAt positive), if_neg noPoint]

/-- A fraction that vanishes goes, and so does the point. -/
theorem stripZeros_pointAt_whole (nonzero : d ≠ 0) (p : Nat) :
    stripZeros (pointAt (d * 10 ^ p) p) = digitChars d := by
  have bare : '.' ∉ digitChars d := fun member => absurd (isDigit_digitChars _ member) (by decide)
  rcases Nat.eq_zero_or_pos p with rfl | positive
  · rw [Nat.pow_zero, Nat.mul_one, pointAt_zero, stripZeros, if_neg (by simpa using bare)]
  · have padded := paddedChars_mul_pow nonzero 0 p
    have own : paddedChars d 0 = digitChars d := by
      have some_ := digitCount_pos (n := d)
      simp [paddedChars, zeros, show 1 - digitCount d = 0 by omega]
    rw [Nat.zero_add, own] at padded
    have length : (digitChars d ++ zeros p).length - p = (digitChars d).length := by
      rw [List.length_append, zeros, List.length_replicate]
      omega
    have split : pointAt (d * 10 ^ p) p = digitChars d ++ ['.'] ++ zeros p := by
      rw [pointAt_eq positive, wholeChars, fractionChars, padded, length, List.take_left,
        List.drop_left, List.append_assoc, List.singleton_append]
    have ends : (digitChars d ++ ['.']).getLast? = some '.' := List.getLast?_concat
    rw [split, stripZeros_append_zeros (by simp) (by decide) p ends, if_pos rfl,
      List.dropLast_concat]

end ScriptHost.Decimal
