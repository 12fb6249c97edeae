import ScriptHost.Json.Printer
import ScriptHost.Proofs.DecimalLayouts

/-!
# JSON on one line

What is written for a value has no line break in it, whatever texts and numbers it consists of.
-/

set_option autoImplicit false

namespace ScriptHost.Json

open Decimal

/-- There is no line break. -/
def SingleLine (s : String) : Prop := '\n' ∉ s.toList

instance (s : String) : Decidable (SingleLine s) := inferInstanceAs (Decidable (¬ _))

namespace SingleLine

theorem append {s t : String} (first : SingleLine s) (second : SingleLine t) :
    SingleLine (s ++ t) := by
  rw [SingleLine, String.toList_append, List.mem_append, not_or]
  exact ⟨first, second⟩

theorem intercalate {separator : String} (single : SingleLine separator) {texts : List String}
    (all : ∀ s ∈ texts, SingleLine s) : SingleLine (separator.intercalate texts) := by
  induction texts with
  | nil => simp [SingleLine]
  | cons s rest ih =>
      obtain ⟨here, later⟩ := List.forall_mem_cons.mp all
      cases rest with
      | nil => simpa [SingleLine] using here
      | cons t rest =>
          rw [String.intercalate_cons_cons]
          exact (here.append single).append (ih later)

theorem ofList {cs : List Char} (absent : '\n' ∉ cs) : SingleLine (String.ofList cs) := by
  rwa [SingleLine, String.toList_ofList]

end SingleLine

theorem newline_not_mem_of_digits {cs : List Char} (digits : ∀ c ∈ cs, c.isDigit = true) :
    '\n' ∉ cs :=
  fun member => absurd (digits _ member) (by decide)

/-! ## Texts -/

theorem hexDigit_ne : ∀ n < 16, hexDigit n ≠ '\n' := by decide

theorem newline_not_mem_escapeChar (c : Char) : '\n' ∉ escapeChar c := by
  unfold escapeChar
  by_cases newline : c = '\n'
  · subst newline
    decide
  · have high : ∀ n, '\n' ≠ hexDigit (n % 16) := fun n =>
      (hexDigit_ne _ (Nat.mod_lt _ (by decide))).symm
    split_ifs with _ _ _ _ _ _ control
    all_goals try decide
    · have low := (hexDigit_ne (c.toNat / 16) (by omega)).symm
      simp [low, high]
    · exact List.mem_singleton.not.mpr (Ne.symm newline)

theorem singleLine_quote (s : String) : SingleLine (quote s) := by
  refine .ofList ?_
  simp only [List.cons_append, List.mem_cons, List.mem_append, List.mem_flatMap, not_or]
  exact ⟨by decide, fun ⟨c, _, member⟩ => newline_not_mem_escapeChar c member, by decide⟩

/-! ## Numbers -/

theorem singleLine_int (n : Int) : SingleLine (toString n) := by
  have digits : ∀ m : Nat, SingleLine m.repr := fun m => by
    rw [SingleLine, Nat.toList_repr]
    exact newline_not_mem_of_digits isDigit_digitChars
  rw [Int.toString_eq_repr, Int.repr_eq_if]
  split
  · exact digits _
  · exact SingleLine.append (by decide) (digits _)

theorem newline_not_mem_positional (s : Scaled) : '\n' ∉ s.positional := by
  unfold Scaled.positional
  split
  · split
    · decide
    · rw [List.mem_append, not_or]
      exact ⟨newline_not_mem_of_digits isDigit_digitChars, newline_not_mem_of_digits isDigit_zeros⟩
  · intro member
    have positive : 0 < (-s.exponent).toNat := by omega
    exact (mem_pointAt positive member).elim (by decide) (by decide)

theorem newline_not_mem_mantissa (s : Scaled) : '\n' ∉ s.mantissa := by
  have digits := @isDigit_digitChars s.digits
  unfold Scaled.mantissa
  generalize digitChars s.digits = cs at digits ⊢
  match cs, digits with
  | [], _ => exact List.not_mem_nil
  | [d], digits => exact newline_not_mem_of_digits digits
  | d :: e :: rest, digits =>
      have absent := newline_not_mem_of_digits digits
      rw [List.mem_cons, not_or] at absent ⊢
      refine ⟨absent.1, fun member => ?_⟩
      exact (List.mem_cons.mp member).elim (by decide) absent.2

theorem newline_not_mem_exponentText (width : Nat) (e : Int) : '\n' ∉ exponentText width e := by
  unfold exponentText
  simp only [List.mem_cons, List.mem_append, not_or]
  refine ⟨?_, newline_not_mem_of_digits isDigit_zeros, newline_not_mem_of_digits isDigit_digitChars⟩
  split <;> decide

theorem singleLine_withSign {cs : List Char} (absent : '\n' ∉ cs) (negative : Bool) :
    SingleLine (withSign negative cs) := by
  refine .ofList ?_
  split
  · rw [List.mem_cons, not_or]
    exact ⟨by decide, absent⟩
  · exact absent

theorem newline_not_mem_finiteText (s : Scaled) : '\n' ∉ finiteText s := by
  unfold finiteText
  split_ifs
  · decide
  · rw [List.mem_append, not_or]
    exact ⟨newline_not_mem_positional s, by decide⟩
  · exact newline_not_mem_positional s
  · rw [List.mem_append, List.mem_cons, not_or, not_or]
    exact ⟨newline_not_mem_mantissa s, by decide, newline_not_mem_exponentText 2 _⟩

theorem singleLine_floatText (x : Float) : SingleLine (floatText x) := by
  unfold floatText
  split
  · exact singleLine_withSign (newline_not_mem_finiteText _) _
  · simp [SingleLine]

/-! ## Values -/

mutual

theorem singleLine_compress : ∀ json : Json, SingleLine json.compress
  | .null | .bool true | .bool false => by decide
  | .int n => by
      rw [compress]
      exact singleLine_int n
  | .float x => by
      rw [compress]
      exact singleLine_floatText x
  | .str s => by
      rw [compress]
      exact singleLine_quote s
  | .arr items => by
      have listed : SingleLine (",".intercalate (compressItems items)) :=
        .intercalate (by decide) (singleLine_compressItems items)
      rw [compress]
      exact (SingleLine.append (by decide) listed).append (by decide)
  | .obj entries => by
      have listed : SingleLine (",".intercalate (compressEntries entries)) :=
        .intercalate (by decide) (singleLine_compressEntries entries)
      rw [compress]
      exact (SingleLine.append (by decide) listed).append (by decide)

theorem singleLine_compressItems :
    ∀ (items : List Json), ∀ s ∈ compressItems items, SingleLine s
  | [] => by simp [compressItems]
  | item :: items => by
      rw [compressItems]
      exact List.forall_mem_cons.mpr ⟨singleLine_compress item, singleLine_compressItems items⟩

theorem singleLine_compressEntries :
    ∀ (entries : List (String × Json)), ∀ s ∈ compressEntries entries, SingleLine s
  | [] => by simp [compressEntries]
  | (key, value) :: entries => by
      rw [compressEntries]
      have colon : SingleLine ":" := by decide
      have entry := ((singleLine_quote key).append colon).append (singleLine_compress value)
      exact List.forall_mem_cons.mpr ⟨entry, singleLine_compressEntries entries⟩

end

end ScriptHost.Json
