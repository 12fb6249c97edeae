import ScriptHost.Proofs.ShortestDecimals

/-!
# Two texts of one number

Numbers are written with all their digits, and shown with 14 of them at most. For which numbers
both texts are the same.
-/

set_option autoImplicit false

namespace ScriptHost.Lua.Number

open Decimal

/-- The text that is written for a number. -/
def writtenText : Number → String
  | integer n => integerText n
  | float x => plain x

/-- The decimal numbers with a fraction that 14 significant digits show in full, positionally. -/
def ShowsFully (s : Scaled) : Prop :=
  s.exponent < 0 ∧ digitCount s.digits ≤ 14 ∧ -4 ≤ s.leading

instance (s : Scaled) : Decidable (ShowsFully s) := inferInstanceAs (Decidable (_ ∧ _))

/-- The sizes of floats that are infinite or shown in full. -/
def SizeHasOneText : Magnitude → Prop
  | .notANumber => False
  | .infinite => True
  | .finite b => ShowsFully b.shortest

instance : (size : Magnitude) → Decidable (SizeHasOneText size)
  | .notANumber => inferInstanceAs (Decidable False)
  | .infinite => inferInstanceAs (Decidable True)
  | .finite b => inferInstanceAs (Decidable (ShowsFully b.shortest))

/-- Integers, infinite floats, and floats that are shown in full. -/
def HasOneText : Number → Prop
  | integer _ => True
  | float x => SizeHasOneText (decode x).2

instance : (n : Number) → Decidable n.HasOneText
  | integer _ => inferInstanceAs (Decidable True)
  | float x => inferInstanceAs (Decidable (SizeHasOneText (decode x).2))

/-! ## Layouts -/

/-- The digits of a float as they are shown; a whole number ends in `.0`. -/
def shownChars (cs : List Char) : List Char :=
  if cs.all fun c => c.isDigit then cs ++ ['.', '0'] else cs

theorem shownChars_not_digits (cs : List Char) : ∃ c ∈ shownChars cs, c.isDigit = false := by
  unfold shownChars
  split
  · exact ⟨'.', by simp, by decide⟩
  · rename_i other
    simpa using other

theorem shownChars_of_digits {cs : List Char} (digits : ∀ c ∈ cs, c.isDigit = true) :
    shownChars cs = cs ++ ['.', '0'] :=
  if_pos (List.all_eq_true.mpr digits)

theorem shownChars_of_mem {cs : List Char} {c : Char} (member : c ∈ cs)
    (other : c.isDigit = false) : shownChars cs = cs := by
  refine if_neg fun digits => ?_
  rw [List.all_eq_true.mp digits c member] at other
  cases other

theorem withSign_inj {negative : Bool} {cs ds : List Char} :
    withSign negative cs = withSign negative ds ↔ cs = ds := by
  unfold withSign
  cases negative <;> simp [String.ofList_inj]

theorem positional_isDigit {s : Scaled} (whole : 0 ≤ s.exponent) :
    ∀ c ∈ s.positional, c.isDigit = true := by
  intro c member
  rw [Scaled.positional, if_pos whole] at member
  split at member
  · rw [List.mem_singleton.mp member]
    decide
  · rcases List.mem_append.mp member with digit | zero
    · exact isDigit_digitChars c digit
    · exact isDigit_zeros c zero

theorem positional_fraction {s : Scaled} (fraction : s.exponent < 0) :
    s.positional = pointAt s.digits (-s.exponent).toNat :=
  if_neg (Int.not_le.mpr fraction)

/-- With 14 significant digits, a fraction is shown positionally or with an exponent. -/
theorem general_cases {r : Ratio} (nonzero : r.num ≠ 0) :
    (-17 ≤ (r.significant 14).exponent ∧ (r.significant 14).exponent ≤ 0 ∧
      general 14 false r =
        stripZeros (pointAt (r.significant 14).digits (-(r.significant 14).exponent).toNat)) ∨
    (¬ (-17 ≤ (r.significant 14).exponent ∧ (r.significant 14).exponent ≤ 0) ∧
      'e' ∈ general 14 false r) := by
  simp only [general]
  rw [if_neg nonzero, show max 14 1 = 14 from rfl]
  generalize r.significant 14 = s
  by_cases within : -17 ≤ s.exponent ∧ s.exponent ≤ 0
  · refine .inl ⟨within.1, within.2, ?_⟩
    have positional : ¬ (decide (s.exponent + ((14 : Nat) : Int) - 1 < -4) ||
        decide (((14 : Nat) : Int) ≤ s.exponent + ((14 : Nat) : Int) - 1)) = true := by
      simp only [Bool.or_eq_true, decide_eq_true_eq]
      omega
    have places : (((14 : Nat) : Int) - 1 - (s.exponent + ((14 : Nat) : Int) - 1)).toNat =
        (-s.exponent).toNat := by omega
    rw [if_neg positional, places, if_neg Bool.false_ne_true]
  · refine .inr ⟨within, ?_⟩
    have scientific : (decide (s.exponent + ((14 : Nat) : Int) - 1 < -4) ||
        decide (((14 : Nat) : Int) ≤ s.exponent + ((14 : Nat) : Int) - 1)) = true := by
      simp only [Bool.or_eq_true, decide_eq_true_eq]
      omega
    rw [if_pos scientific]
    simp

/-! ## Floats -/

variable {b : Binary}

/-- A number without a fraction is never shown as it is written. -/
theorem positional_ne_of_whole {s : Scaled} (whole : 0 ≤ s.exponent) (cs : List Char) :
    s.positional ≠ shownChars cs := by
  intro same
  obtain ⟨c, member, other⟩ := shownChars_not_digits cs
  rw [← same] at member
  rw [positional_isDigit whole c member] at other
  cases other

theorem mantissa_ne_zero (fraction : b.shortest.exponent < 0) : b.mantissa ≠ 0 := by
  intro zero
  rw [Binary.shortest, if_pos zero] at fraction
  exact absurd fraction (by decide)

theorem positional_eq_of_showsFully (double : b.IsDouble) (full : ShowsFully b.shortest) :
    b.shortest.positional = shownChars (general 14 false b.ratio) := by
  obtain ⟨fraction, few, large⟩ := full
  have nonzero := mantissa_ne_zero fraction
  rcases double.shortest_cases nonzero with all | ⟨reduced, near⟩
  · omega
  generalize b.shortest = s at fraction few large reduced near ⊢
  have some_ : s.digits ≠ 0 := fun zero => reduced (by rw [zero])
  obtain ⟨j, count⟩ := Nat.exists_eq_add_of_le few
  have rounded := double.significant_eq nonzero some_ near large count.symm
  have places : (-(s.exponent - j)).toNat = (-s.exponent).toNat + j := by omega
  have positive : 0 < (-s.exponent).toNat := by omega
  rw [Scaled.leading] at large
  rw [positional_fraction fraction]
  rcases general_cases (Nat.ne_of_gt (Binary.num_ratio_pos nonzero)) with
    ⟨_, _, shown⟩ | ⟨outside, _⟩
  · rw [rounded] at shown
    dsimp only at shown
    rw [places, stripZeros_pointAt reduced positive] at shown
    rw [shown, shownChars_of_mem (point_mem_pointAt positive) (by decide)]
  · rw [rounded] at outside
    dsimp only at outside
    omega

/-- A whole number that is shown with `.0` at its end is not written so. -/
theorem pointAt_ne_whole (double : b.IsDouble) (nonzero : b.mantissa ≠ 0) {n p : Nat}
    (small : n < 10 ^ 14) (positive : 0 < p) :
    pointAt b.shortest.digits p ≠ digitChars n ++ ['.', '0'] := by
  intro same
  have read := (eq_of_pointAt positive same).1
  have tenfold : b.shortest.digits = 10 * n := by
    rw [read, Nat.ofDigitChars_append, digitChars, Nat.ofDigitChars_ten_toDigits]
    rfl
  rcases double.shortest_cases nonzero with all | ⟨reduced, _⟩
  · have fewer : digitCount b.shortest.digits ≤ 15 :=
      (digitCount_le_iff (by decide)).mpr (by omega)
    omega
  · omega

/-- A fraction all of whose places are zeros is shown as a whole number. -/
theorem shownChars_of_zeros {d more p : Nat} (nonzero : d * 10 ^ more ≠ 0) :
    shownChars (stripZeros (pointAt (d * 10 ^ (p + more)) p)) =
      digitChars (d * 10 ^ more) ++ ['.', '0'] := by
  rw [Nat.add_comm, Nat.pow_add, ← Nat.mul_assoc, stripZeros_pointAt_whole nonzero,
    shownChars_of_digits isDigit_digitChars]

theorem showsFully_of_positional_eq (double : b.IsDouble)
    (same : b.shortest.positional = shownChars (general 14 false b.ratio)) :
    ShowsFully b.shortest := by
  have fraction : b.shortest.exponent < 0 :=
    Int.not_le.mp fun whole => positional_ne_of_whole whole _ same
  have nonzero := mantissa_ne_zero fraction
  have positive : 0 < (-b.shortest.exponent).toNat := by omega
  have count : digitCount (b.ratio.significant 14).digits = 14 :=
    (double.sizable nonzero).digitCount_significant (by decide)
  rw [positional_fraction fraction] at same
  rcases general_cases (Nat.ne_of_gt (Binary.num_ratio_pos nonzero)) with
    ⟨low, high, shown⟩ | ⟨_, scientific⟩
  · generalize b.ratio.significant 14 = s at low high shown count
    have some_ : s.digits ≠ 0 := by
      intro zero
      rw [zero] at count
      exact absurd count (by decide)
    obtain ⟨t, split, _⟩ := exists_strip 14 s
    have reduced := mod_strip some_ (count ▸ lt_pow_digitCount s.digits)
    generalize (s.strip 14).digits = d at split reduced
    have nonzero' : d ≠ 0 := fun zero => reduced (by rw [zero])
    rw [split] at shown
    by_cases vanishes : (-s.exponent).toNat ≤ t
    · -- All places after the point are zeros, so a whole number is shown.
      obtain ⟨more, rfl⟩ := Nat.exists_eq_add_of_le vanishes
      have wholeDigits : d * 10 ^ more ≠ 0 := Nat.mul_ne_zero nonzero' (by positivity)
      rw [split, digitCount_mul_pow nonzero'] at count
      have small : d * 10 ^ more < 10 ^ 14 := by
        rw [← digitCount_le_iff (by decide), digitCount_mul_pow nonzero']
        omega
      rw [shown, shownChars_of_zeros wholeDigits] at same
      exact absurd same (pointAt_ne_whole double nonzero small positive)
    · obtain ⟨places, there⟩ := Nat.exists_eq_add_of_lt (Nat.not_le.mp vanishes)
      rw [show (-s.exponent).toNat = places + 1 + t by omega,
        stripZeros_pointAt reduced (Nat.succ_pos _)] at shown
      rw [shown, shownChars_of_mem (point_mem_pointAt (Nat.succ_pos _)) (by decide)] at same
      obtain ⟨digits, point⟩ := pointAt_inj positive (Nat.succ_pos _) same
      rw [split, digitCount_mul_pow nonzero', ← digits] at count
      refine ⟨fraction, by omega, ?_⟩
      rw [Scaled.leading]
      omega
  · rw [shownChars_of_mem scientific (by decide)] at same
    rw [← same] at scientific
    rcases mem_pointAt positive scientific with point | digit
    · exact absurd point (by decide)
    · exact absurd digit (by decide)

/-- The texts of a finite float are the same exactly if it is shown in full. -/
theorem plain_eq_floatText_iff {x : Float} :
    plain x = floatText x ↔ (float x).HasOneText := by
  simp only [plain, floatText, HasOneText]
  rcases decoded : decode x with ⟨negative, size⟩
  cases size with
  | notANumber =>
      exact ⟨fun same => absurd same (by dsimp only [specialText]; decide), False.elim⟩
  | infinite =>
      refine ⟨fun _ => trivial, fun _ => ?_⟩
      cases negative <;> rfl
  | finite b =>
      dsimp only
      rw [withSign_inj]
      have double := Binary.isDouble_of_decode decoded
      exact ⟨showsFully_of_positional_eq double, positional_eq_of_showsFully double⟩

/-- Both texts of a number are the same exactly if it is an integer, infinite, or shown in full. -/
theorem writtenText_eq_text_iff (n : Number) : n.writtenText = n.text ↔ n.HasOneText := by
  cases n with
  | integer n => exact ⟨fun _ => trivial, fun _ => rfl⟩
  | float x => exact plain_eq_floatText_iff

end ScriptHost.Lua.Number
