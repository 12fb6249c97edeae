import ScriptHost.Proofs.TomlStrings

/-!
# Values in TOML documents

Truth values, whole numbers, strings and arrays of strings are read back from their texts.
-/

set_option autoImplicit false

namespace ScriptHost.Toml

open Reader

variable {digits rest : List Char} {fuel depth n : Nat}

/-! ## Truth values and strings -/

theorem value?_booleanText (b : Bool) (rest : List Char) :
    value? (fuel + 1) depth ((booleanText b).toList ++ rest) = some (.boolean b, rest) := by
  cases b <;> rfl

theorem value?_stringText (s : String) (double : rest.head? ≠ some '"')
    (single : rest.head? ≠ some '\'') :
    value? (fuel + 1) depth ((stringText s).toList ++ rest) = some (.string s, rest) := by
  have read := string?_stringText s double single
  obtain ⟨quote, text, opens, isQuote⟩ := stringText_opens s
  rw [opens, List.cons_append] at read ⊢
  have quoted : (decide (quote = '"') || decide (quote = '\'')) = true := by simpa using isQuote
  simp only [value?, quoted, if_true, read]
  rfl

/-! ## Whole numbers -/

theorem head?_toDigits (positive : 0 < n) : (Nat.toDigits 10 n).head? ≠ some '0' := by
  induction n using Nat.strongRecOn with
  | ind n ih =>
      rw [Nat.toDigits_eq_if (by decide)]
      split
      · rename_i small
        have distinct : ∀ k < 10, 0 < k → Nat.digitChar k ≠ '0' := by decide
        simpa using distinct n small positive
      · rename_i large
        have first := ih (n / 10) (by omega) (by omega)
        obtain ⟨d, others, written⟩ := List.exists_cons_of_ne_nil
          (Nat.toDigits_ne_nil (n := n / 10) (b := 10))
        rw [written] at first ⊢
        exact first

theorem isDigit_toDigits : ∀ c ∈ Nat.toDigits 10 n, c.isDigit = true :=
  fun _ member => Nat.isDigit_of_mem_toDigits (by decide) (by decide) member

theorem hexValue?_of_isDigit {c : Char} (digit : c.isDigit = true) :
    Json.Reader.hexValue? c = some (c.toNat - '0'.toNat) := by
  have bounds : ('0' ≤ c && c ≤ '9') = true := by
    simpa [Char.isDigit, Char.le_def] using digit
  rw [Json.Reader.hexValue?, if_pos bounds]

theorem digitsValue_toDigits (n : Nat) : digitsValue 10 (Nat.toDigits 10 n) = n := by
  have folded : ∀ (digits : List Char) (start : Nat), (∀ c ∈ digits, c.isDigit = true) →
      digits.foldl (fun n c => n * 10 + (Json.Reader.hexValue? c).getD 0) start =
        Nat.ofDigitChars 10 digits start := by
    intro digits
    induction digits with
    | nil => exact fun _ _ => rfl
    | cons c digits ih =>
        intro start all
        rw [List.foldl_cons, hexValue?_of_isDigit (all c List.mem_cons_self), Option.getD_some,
          Nat.ofDigitChars_cons, Nat.mul_comm 10 start]
        exact ih _ fun d member => all d (List.mem_cons_of_mem c member)
  rw [digitsValue, folded _ _ isDigit_toDigits, Nat.ofDigitChars_ten_toDigits]

theorem noDoubled_of_isDigit (all : ∀ c ∈ digits, c.isDigit = true) :
    digits?.noDoubled digits = true := by
  induction digits with
  | nil => rfl
  | cons c digits ih =>
      have rest := ih fun d member => all d (List.mem_cons_of_mem c member)
      have digit := all c List.mem_cons_self
      unfold digits?.noDoubled
      split
      · rename_i same
        rw [(List.cons.inj same).1] at digit
        cases digit
      · rename_i same
        rw [(List.cons.inj same).2] at rest
        exact rest
      · rfl

theorem digits?_append (all : ∀ c ∈ digits, c.isDigit = true) (nonempty : digits ≠ []) :
    digits? Char.isDigit (digits ++ '\n' :: rest) = some (digits, '\n' :: rest) := by
  have run : (digits ++ '\n' :: rest).takeWhile (fun c => c.isDigit || c = '_') = digits := by
    rw [List.takeWhile_append_of_pos fun c member => by rw [all c member]; rfl]
    simp
  obtain ⟨first, others, rfl⟩ := List.exists_cons_of_ne_nil nonempty
  have last : ((first :: others).getLast?.any Char.isDigit) = true := by
    rw [List.getLast?_eq_some_getLast nonempty, Option.any_some]
    exact all _ (List.getLast_mem nonempty)
  have kept : (first :: others).filter Char.isDigit = first :: others :=
    List.filter_eq_self.mpr all
  unfold digits?
  simp only [run, last, kept, noDoubled_of_isDigit all, List.head?_cons, Option.all_some,
    all first List.mem_cons_self]
  simp

theorem decimalDigits?_toDigits (n : Nat) (rest : List Char) :
    decimalDigits? (Nat.toDigits 10 n ++ '\n' :: rest) = some (Nat.toDigits 10 n, '\n' :: rest) := by
  by_cases zero : n = 0
  · subst zero
    rfl
  · have first := head?_toDigits (Nat.pos_of_ne_zero zero)
    have read : digits? Char.isDigit (Nat.toDigits 10 n ++ '\n' :: rest) =
        some (Nat.toDigits 10 n, '\n' :: rest) :=
      digits?_append isDigit_toDigits Nat.toDigits_ne_nil
    unfold decimalDigits?
    split
    · rename_i same
      cases written : Nat.toDigits 10 n with
      | nil => exact absurd written Nat.toDigits_ne_nil
      | cons d others =>
          rw [written] at same first
          exact absurd (congrArg some (List.cons.inj same).1) first
    · exact read

/-- The end of a line follows digits, so neither a mark of a base nor one of a date does. -/
theorem second_of_toDigits {first second : Char} {more : List Char}
    (same : Nat.toDigits 10 n ++ '\n' :: rest = first :: second :: more) :
    first.isDigit = true ∧ (second.isDigit = true ∨ second = '\n') := by
  have all : ∀ c ∈ Nat.toDigits 10 n, c.isDigit = true := isDigit_toDigits
  obtain ⟨d, others, written⟩ := List.exists_cons_of_ne_nil
    (Nat.toDigits_ne_nil (n := n) (b := 10))
  rw [written] at same all
  obtain ⟨rfl, tail⟩ := List.cons.inj same
  refine ⟨all d List.mem_cons_self, ?_⟩
  cases others with
  | nil => exact .inr (List.cons.inj tail).1.symm
  | cons e others =>
      rw [← (List.cons.inj tail).1]
      exact .inl (all e (List.mem_cons_of_mem d List.mem_cons_self))

theorem integer?_natural (small : n < 2 ^ 63) : integer? (n : Int) = some (.integer n) := by
  have low : (-(2 ^ 63) : Int) ≤ n := by omega
  have high : (n : Int) < 2 ^ 63 := by omega
  unfold integer?
  rw [decide_eq_true low, decide_eq_true high]
  rfl

theorem unsigned?_toDigits (small : n < 2 ^ 63) (rest : List Char) :
    unsigned? false (Nat.toDigits 10 n ++ '\n' :: rest) = some (.integer n, '\n' :: rest) := by
  have read := decimalDigits?_toDigits n rest
  have fits := integer?_natural small
  unfold unsigned?
  split
  · rename_i same
    exact absurd (second_of_toDigits same).1 (by decide)
  · rename_i same
    exact absurd (second_of_toDigits same).1 (by decide)
  · rw [read]
    rw [Option.bind_eq_bind, Option.bind_some]
    dsimp only
    rw [digitsValue_toDigits, if_neg Bool.false_ne_true, fits]
    rfl

theorem number?_toDigits (small : n < 2 ^ 63) (rest : List Char) :
    number? (Nat.toDigits 10 n ++ '\n' :: rest) = some (.integer n, '\n' :: rest) := by
  have head : ∀ first more, Nat.toDigits 10 n ++ '\n' :: rest = first :: more →
      first.isDigit = true := by
    intro first more same
    obtain ⟨d, others, written⟩ := List.exists_cons_of_ne_nil
      (Nat.toDigits_ne_nil (n := n) (b := 10))
    rw [written] at same
    rw [← (List.cons.inj same).1]
    exact isDigit_toDigits d (written ▸ List.mem_cons_self)
  unfold number?
  split
  · rename_i same
    exact absurd (head _ _ same) (by decide)
  · rename_i same
    exact absurd (head _ _ same) (by decide)
  · rename_i same
    exact absurd (second_of_toDigits same).2 (by decide)
  · rename_i same
    exact absurd (second_of_toDigits same).2 (by decide)
  · rename_i same
    exact absurd (second_of_toDigits same).2 (by decide)
  · exact unsigned?_toDigits small rest

/-- After a few digits there is no mark that makes a date of them. -/
theorem head?_of_fixedDigits? {count value : Nat} {after : List Char}
    (all : ∀ c ∈ digits, c.isDigit = true)
    (read : fixedDigits? count (digits ++ '\n' :: rest) = some (value, after)) :
    ∃ c, after.head? = some c ∧ (c.isDigit = true ∨ c = '\n') := by
  unfold fixedDigits? at read
  dsimp only at read
  split at read
  · rename_i taken
    simp only [Bool.and_eq_true, decide_eq_true_eq] at taken
    cases read
    by_cases short : digits.length < count
    · -- The line end would be among the digits.
      obtain ⟨k, more⟩ := Nat.exists_eq_add_of_lt short
      have member : '\n' ∈ (digits ++ '\n' :: rest).take count := by
        rw [List.take_append, more, Nat.add_assoc, Nat.add_sub_cancel_left]
        exact List.mem_append_right _ List.mem_cons_self
      exact absurd (List.all_eq_true.mp taken.2 _ member) (by decide)
    · rw [List.drop_append_of_le_length (Nat.le_of_not_lt short)]
      cases left : digits.drop count with
      | nil => exact ⟨'\n', rfl, .inr rfl⟩
      | cons c others =>
          have member : c ∈ digits := List.mem_of_mem_drop (left ▸ List.mem_cons_self)
          exact ⟨c, rfl, .inl (all c member)⟩
  · cases read

theorem unmarked_toDigits (n : Nat) (rest : List Char) (count : Nat) {mark : Char}
    (notDigit : mark.isDigit = false) (newline : mark ≠ '\n') :
    ((fixedDigits? count (Nat.toDigits 10 n ++ '\n' :: rest)).any
      fun (_, rest) => rest.head? == some mark) = false := by
  cases read : fixedDigits? count (Nat.toDigits 10 n ++ '\n' :: rest) with
  | none => rfl
  | some pair =>
      obtain ⟨value, after⟩ := pair
      obtain ⟨c, first, kind⟩ := head?_of_fixedDigits? isDigit_toDigits read
      have different : c ≠ mark := by
        rintro rfl
        rcases kind with digit | same
        · rw [digit] at notDigit
          cases notDigit
        · exact newline same
      simp [first, different]

theorem looksLikeDate_toDigits (n : Nat) (rest : List Char) :
    looksLikeDate (Nat.toDigits 10 n ++ '\n' :: rest) = false := by
  rw [looksLikeDate, unmarked_toDigits n rest 4 rfl (by decide),
    unmarked_toDigits n rest 2 rfl (by decide)]
  rfl

theorem value?_toDigits (small : n < 2 ^ 63) (rest : List Char) :
    value? (fuel + 1) depth (Nat.toDigits 10 n ++ '\n' :: rest) =
      some (.integer n, '\n' :: rest) := by
  have number := number?_toDigits small rest
  have date := looksLikeDate_toDigits n rest
  obtain ⟨d, others, written⟩ := List.exists_cons_of_ne_nil
    (Nat.toDigits_ne_nil (n := n) (b := 10))
  have digit : d.isDigit = true := isDigit_toDigits d (written ▸ List.mem_cons_self)
  rw [written, List.cons_append] at number date ⊢
  have other : ∀ c : Char, c.isDigit = false → d ≠ c := by
    rintro c notDigit rfl
    rw [digit] at notDigit
    cases notDigit
  have unquoted : (decide (d = '"') || decide (d = '\'')) = false := by
    simp [other '"' rfl, other '\'' rfl]
  simp only [value?, unquoted, Bool.false_eq_true, if_false, other '[' rfl, other '\x7b' rfl]
  split
  · rename_i same
    exact absurd (List.cons.inj same).1 (other 't' rfl)
  · rename_i same
    exact absurd (List.cons.inj same).1 (other 'f' rfl)
  · rw [date]
    simpa using number

/-! ## Arrays of strings -/

/-- A text that begins with something to read, and not with a blank, a comment or a line end. -/
def Visible (text : List Char) : Prop :=
  ∃ c more, text = c :: more ∧ isSpace c = false ∧ c ≠ '#' ∧ c ≠ '\n' ∧ c ≠ '\r'

theorem visible_stringText (s : String) (rest : List Char) :
    Visible ((stringText s).toList ++ rest) := by
  obtain ⟨quote, text, opens, isQuote⟩ := stringText_opens s
  refine ⟨quote, text ++ rest, by rw [opens, List.cons_append], ?_⟩
  rcases isQuote with rfl | rfl <;> decide

theorem visible_cons {c : Char} (rest : List Char)
    (visible : isSpace c = false ∧ c ≠ '#' ∧ c ≠ '\n' ∧ c ≠ '\r') : Visible (c :: rest) :=
  ⟨c, rest, rfl, visible⟩

variable {text : List Char}

theorem skipLines_of_visible (visible : Visible text) (fuel : Nat) :
    skipLines fuel text = text := by
  obtain ⟨c, more, rfl, space, comment, newline, feed⟩ := visible
  cases fuel with
  | zero => rfl
  | succ fuel => simp [skipLines, skipSpace, space, skipComment, comment, newline?, newline, feed]

theorem skipLines_newline (fuel : Nat) (text : List Char) :
    skipLines (fuel + 1) ('\n' :: text) = skipLines fuel text := by
  simp [skipLines, skipSpace, isSpace, skipComment, newline?]

theorem skipLines_space (fuel : Nat) (text : List Char) :
    skipLines (fuel + 1) (' ' :: text) = skipLines (fuel + 1) text := by
  simp [skipLines, skipSpace, isSpace]

/-- The lines of an array of several strings. -/
def itemLines (strings : List String) : List Char :=
  strings.flatMap fun s => [' ', ' ', ' ', ' '] ++ (stringText s).toList ++ [',', '\n']

theorem itemLines_cons (s : String) (strings : List String) :
    itemLines (s :: strings) = ' ' :: ' ' :: ' ' :: ' ' :: ((stringText s).toList ++
      ',' :: '\n' :: itemLines strings) := by
  simp [itemLines]

/-- The items of an array from one that has been read on. -/
def itemsFrom? (fuel depth : Nat) (item : Toml) : List Char → Option (List Toml × List Char)
  | ']' :: rest => some ([item], rest)
  | ',' :: rest => do
    let (items, rest) ← items? fuel depth rest
    some (item :: items, rest)
  | _ => none

theorem items?_item (s : String) (after : List Char) (visible : Visible after)
    (double : after.head? ≠ some '"') (single : after.head? ≠ some '\'')
    (skipped : skipLines text.length text = (stringText s).toList ++ after) :
    items? (fuel + 2) depth text = itemsFrom? (fuel + 1) depth (.string s) after := by
  have value : value? (fuel + 1) depth ((stringText s).toList ++ after) = some (.string s, after) :=
    value?_stringText s double single
  have reached := skipLines_of_visible visible after.length
  obtain ⟨quote, text', opens, isQuote⟩ := stringText_opens s
  rw [opens, List.cons_append] at skipped value
  have open_ : quote ≠ ']' := by rcases isQuote with rfl | rfl <;> decide
  rw [items?.eq_2, skipped]
  split
  · rename_i same
    exact absurd (List.cons.inj same).1 open_
  · rw [value]
    simp only [Option.bind_eq_bind, Option.bind_some, reached]
    rfl

theorem items?_itemLines (strings : List String) (enough : strings.length < fuel) :
    items? fuel depth ('\n' :: (itemLines strings ++ ']' :: rest)) =
      some (strings.map .string, rest) := by
  induction strings generalizing fuel with
  | nil =>
      obtain ⟨fuel, rfl⟩ := Nat.exists_eq_succ_of_ne_zero (Nat.ne_zero_of_lt enough)
      have skipped : skipLines ('\n' :: ']' :: rest).length ('\n' :: ']' :: rest) = ']' :: rest := by
        rw [List.length_cons, skipLines_newline]
        exact skipLines_of_visible (visible_cons rest (by decide)) _
      rw [items?.eq_2]
      simp only [itemLines, List.flatMap_nil, List.nil_append, skipped]
      rfl
  | cons s strings ih =>
      obtain ⟨fuel, rfl⟩ : ∃ k, fuel = k + 2 := ⟨fuel - 2, by simp at enough; omega⟩
      have further : items? (fuel + 1) depth ('\n' :: (itemLines strings ++ ']' :: rest)) =
          some (strings.map .string, rest) := ih (by simpa using enough)
      rw [itemLines_cons]
      refine (items?_item s (',' :: '\n' :: (itemLines strings ++ ']' :: rest))
        (visible_cons _ (by decide)) (by simp) (by simp) ?_).trans ?_
      · simp only [List.cons_append, List.append_assoc, List.length_cons, skipLines_newline,
          skipLines_space]
        exact skipLines_of_visible (visible_stringText s _) _
      · simp only [itemsFrom?, further]
        rfl

theorem value?_arrayText (strings : List String) (rest : List Char)
    (enough : strings.length + 1 < fuel) (deep : 2 ≤ depth) :
    value? fuel depth ((arrayText (strings.map stringText)).toList ++ rest) =
      some (.array (strings.map .string), rest) := by
  obtain ⟨fuel, rfl⟩ : ∃ k, fuel = k + 2 := ⟨fuel - 2, by omega⟩
  have opened : ∀ text, value? (fuel + 2) depth ('[' :: text) =
      (items? (fuel + 1) (depth - 1) text).map fun (items, rest) => (.array items, rest) := by
    intro text
    have unquoted : (decide ('[' = '"') || decide ('[' = '\'')) = false := by decide
    simp only [value?, unquoted, Bool.false_eq_true, if_false, if_true, if_neg (by omega : ¬ depth ≤ 1)]
    cases items? (fuel + 1) (depth - 1) text <;> rfl
  match strings with
  | [] =>
      show value? (fuel + 2) depth ('[' :: ']' :: rest) = _
      rw [opened, items?.eq_2, skipLines_of_visible (visible_cons rest (by decide))]
      rfl
  | [s] =>
      obtain ⟨fuel, rfl⟩ : ∃ k, fuel = k + 1 := ⟨fuel - 1, by simp at enough; omega⟩
      have written : (arrayText ([s].map stringText)).toList ++ rest =
          '[' :: ((stringText s).toList ++ ']' :: rest) := by
        simp [arrayText]
      rw [written, opened, items?_item s (']' :: rest) (visible_cons rest (by decide))
        (by simp) (by simp) (skipLines_of_visible (visible_stringText s _) _)]
      rfl
  | s :: t :: strings =>
      have written : (arrayText ((s :: t :: strings).map stringText)).toList ++ rest =
          '[' :: '\n' :: (itemLines (s :: t :: strings) ++ ']' :: rest) := by
        simp [arrayText, itemLines, List.flatMap_map]
      rw [written, opened, items?_itemLines _ (by simp at enough ⊢; omega)]
      rfl

end ScriptHost.Toml
