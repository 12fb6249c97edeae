import ScriptHost.Toml.Printer
import ScriptHost.Toml.Reader

/-!
# Strings in TOML documents

Each of the four notations for a string is read back as the string. What follows a string must not
be one more of its quotes, as the reader takes quotes at the end of a long string for its own.
-/

set_option autoImplicit false

namespace ScriptHost.Toml

open Reader

variable {quote c : Char} {cs acc rest text : List Char} {seen : Nat}

/-! ## Single characters -/

theorem isComment_of_unescaped (plain : needsEscape c = false) (newline : c ≠ '\n') :
    isComment c = true := by
  simp only [needsEscape, isComment] at plain ⊢
  grind

/-- After a backslash a text goes on with the rest of the escape of a character. -/
structure Escapes (c : Char) (text : List Char) : Prop where
  read : ∀ rest, escape? (text ++ rest) = some (c, rest)
  inLine : ∀ rest, newline? (skipSpace (text ++ rest)) = none

theorem hexValue?_toUpper_hexDigit :
    ∀ k < 16, Json.Reader.hexValue? (Json.hexDigit k).toUpper = some k := by
  decide

/-- The code points below 256 have two hexadecimal digits. -/
theorem escapes_code (small : c.toNat < 256) :
    Escapes c ['u', '0', '0', (Json.hexDigit (c.toNat / 16)).toUpper,
      (Json.hexDigit (c.toNat % 16)).toUpper] where
  read rest := by
    have high := hexValue?_toUpper_hexDigit (c.toNat / 16) (by omega)
    have low := hexValue?_toUpper_hexDigit (c.toNat % 16) (by omega)
    have zero : Json.Reader.hexValue? '0' = some 0 := by decide
    have whole : (c.toNat / 16) * 16 + c.toNat % 16 = c.toNat := by omega
    simp [escape?, codePoint?, high, low, zero, whole]
    omega
  inLine rest := by simp [skipSpace, isSpace, newline?]

theorem escapes_letter {letter : Char} (read : ∀ rest, escape? (letter :: rest) = some (c, rest))
    (visible : isSpace letter = false) (newline : letter ≠ '\n') (feed : letter ≠ '\r') :
    Escapes c [letter] where
  read := read
  inLine rest := by simp [skipSpace, visible, newline?, newline, feed]

/-- A character in a basic string stands for itself, or it is escaped. -/
theorem escapeChar_cases (multiline : Bool) (c : Char) :
    (escapeChar multiline c = [c] ∧ c ≠ '\\' ∧ (isComment c = true ∨ multiline = true ∧ c = '\n')) ∨
      ∃ text, escapeChar multiline c = '\\' :: text ∧ Escapes c text := by
  unfold escapeChar
  split
  · subst c
    exact .inr ⟨_, rfl, escapes_letter (fun _ => rfl) rfl (by decide) (by decide)⟩
  split
  · subst c
    exact .inr ⟨_, rfl, escapes_letter (fun _ => rfl) rfl (by decide) (by decide)⟩
  split
  · subst c
    cases multiline with
    | true => exact .inl ⟨rfl, by decide, .inr ⟨rfl, rfl⟩⟩
    | false => exact .inr ⟨_, rfl, escapes_letter (fun _ => rfl) rfl (by decide) (by decide)⟩
  split
  · subst c
    exact .inr ⟨_, rfl, escapes_letter (fun _ => rfl) rfl (by decide) (by decide)⟩
  split
  · subst c
    exact .inr ⟨_, rfl, escapes_letter (fun _ => rfl) rfl (by decide) (by decide)⟩
  split
  · subst c
    exact .inr ⟨_, rfl, escapes_letter (fun _ => rfl) rfl (by decide) (by decide)⟩
  split
  · rename_i control
    refine .inr ⟨_, rfl, escapes_code ?_⟩
    simp only [needsEscape] at control
    grind
  · rename_i newline _ _ backslash plain
    exact .inl ⟨rfl, backslash, .inl (isComment_of_unescaped (by simpa using plain) newline)⟩

/-! ## Strings on one line -/

theorem basic?_escaped {fuel : Nat} (enough : (escaped false 0 0 cs).length < fuel) :
    basic? acc fuel (escaped false 0 0 cs ++ '"' :: rest) =
      some (String.ofList (acc.reverse ++ cs), rest) := by
  induction cs generalizing acc fuel with
  | nil =>
      obtain ⟨fuel, rfl⟩ := Nat.exists_eq_succ_of_ne_zero (Nat.ne_zero_of_lt enough)
      simp [escaped, basic?]
  | cons c cs ih =>
      obtain ⟨fuel, rfl⟩ := Nat.exists_eq_succ_of_ne_zero (Nat.ne_zero_of_lt enough)
      have next : ∀ fuel, (escaped false 0 0 cs).length < fuel →
          basic? (c :: acc) fuel (escaped false 0 0 cs ++ '"' :: rest) =
            some (String.ofList (acc.reverse ++ c :: cs), rest) := by
        intro fuel enough
        rw [ih enough, List.reverse_cons, List.append_assoc]
        rfl
      by_cases quote : c = '"'
      · subst quote
        simp only [escaped, if_true, Nat.lt_irrefl, if_false, List.length_cons] at enough ⊢
        simp only [List.cons_append, basic?, escape?]
        exact next fuel (by omega)
      · simp only [escaped, if_neg quote, List.length_append] at enough ⊢
        rcases escapeChar_cases false c with ⟨plain, backslash, shown⟩ | ⟨text, escapes, read⟩
        · rw [plain] at enough ⊢
          have shown : isComment c = true := by simpa using shown
          simp only [List.length_singleton] at enough
          simp only [List.cons_append, List.nil_append, basic?, if_neg quote, if_neg backslash,
            shown, if_true]
          exact next fuel (by omega)
        · rw [escapes] at enough ⊢
          simp only [List.length_cons] at enough
          simp only [List.cons_append, List.append_assoc, basic?, read.read]
          exact next fuel (by omega)

theorem literal?_append (plain : ∀ c ∈ cs, isComment c = true ∧ c ≠ '\'') :
    literal? (cs ++ '\'' :: rest) = some (String.ofList cs, rest) := by
  have inside : ∀ c ∈ cs, (isComment c && decide (c ≠ '\'')) = true := by
    intro c member
    simp [plain c member]
  unfold literal?
  rw [List.dropWhile_append_of_pos inside, List.takeWhile_append_of_pos inside]
  simp [isComment]

/-! ## Strings on several lines -/

/-- A text between long quotes stands for characters, of which the `seen` before it were quotes. At
most two quotes in a row stand for themselves. -/
inductive Spells (quote : Char) : Nat → List Char → List Char → Prop where
  | nil {seen : Nat} : Spells quote seen [] []
  | quote {seen : Nat} {text cs : List Char} (few : seen < 2)
      (rest : Spells quote (seen + 1) text cs) : Spells quote seen (quote :: text) (quote :: cs)
  | plain {seen : Nat} {c : Char} {text cs : List Char} (different : c ≠ quote)
      (unescaped : quote = '"' → c ≠ '\\') (shown : isComment c = true ∨ c = '\n')
      (rest : Spells quote 0 text cs) : Spells quote seen (c :: text) (c :: cs)
  | escape {seen : Nat} {c : Char} {escape text cs : List Char} (basic : quote = '"')
      (escapes : Escapes c escape) (rest : Spells quote 0 text cs) :
      Spells quote seen ('\\' :: (escape ++ text)) (c :: cs)

theorem spells_escaped (few : seen ≤ 2) : Spells '"' seen (escaped true 2 seen cs) cs := by
  induction cs generalizing seen with
  | nil => exact .nil
  | cons c cs ih =>
      by_cases quote : c = '"'
      · subst quote
        by_cases more : seen < 2
        · simp only [escaped, if_true, if_pos more]
          exact .quote more (ih more)
        · simp only [escaped, if_true, if_neg more]
          have escapes : Escapes '"' ['"'] :=
            escapes_letter (fun _ => rfl) rfl (by decide) (by decide)
          exact .escape rfl escapes (ih (Nat.zero_le 2))
      · simp only [escaped, if_neg quote]
        have rest := ih (Nat.zero_le 2)
        rcases escapeChar_cases true c with ⟨plain, backslash, shown⟩ | ⟨text, escapes, read⟩
        · rw [plain]
          exact .plain quote (fun _ => backslash) (shown.imp_right And.right) rest
        · rw [escapes]
          exact .escape rfl read rest

/-- The current run of a character and the longest one, after one more character. -/
def runStep (quote : Char) : Nat × Nat → Char → Nat × Nat := fun (run, best) d =>
  let run := if d = quote then run + 1 else 0
  (run, max run best)

theorem longestRun_eq (quote : Char) (cs : List Char) :
    longestRun quote cs = (cs.foldl (runStep quote) (0, 0)).2 := rfl

theorem best_le_foldl (quote : Char) (cs : List Char) (state : Nat × Nat) :
    state.2 ≤ (cs.foldl (runStep quote) state).2 := by
  induction cs generalizing state with
  | nil => exact Nat.le_refl _
  | cons c cs ih => exact Nat.le_trans (Nat.le_max_right _ _) (ih (runStep quote state c))

theorem spells_literal {best : Nat} (plain : ∀ c ∈ cs, needsEscape c = false)
    (runs : (cs.foldl (runStep '\'') (seen, best)).2 ≤ 2) : Spells '\'' seen cs cs := by
  induction cs generalizing seen best with
  | nil => exact .nil
  | cons c cs ih =>
      have others : ∀ c ∈ cs, needsEscape c = false :=
        fun d member => plain d (List.mem_cons_of_mem c member)
      rw [List.foldl_cons] at runs
      by_cases quote : c = '\''
      · subst quote
        have few := Nat.le_trans (best_le_foldl '\'' cs (runStep '\'' (seen, best) '\'')) runs
        simp only [runStep, if_true] at few runs
        exact .quote (by omega) (ih others runs)
      · simp only [runStep, if_neg quote] at runs
        refine .plain quote (fun basic => by cases basic) ?_ (ih others runs)
        by_cases newline : c = '\n'
        · exact .inr newline
        · exact .inl (isComment_of_unescaped (plain c List.mem_cons_self) newline)

namespace Spells

/-- The quotes that a text begins with are all of it, or they are too few to end a string. -/
theorem leading (spells : Spells quote seen text cs) (few : seen ≤ 2) :
    (∃ k, text = List.replicate k quote ∧ cs = List.replicate k quote ∧ k ≤ 2) ∨
      ∀ tail : List Char, ((text ++ tail).takeWhile (· = quote)).length + seen ≤ 2 := by
  -- Of a text of quotes it has to be known that no more than two have been seen in all.
  suffices (∃ k, text = List.replicate k quote ∧ cs = List.replicate k quote ∧ k + seen ≤ 2) ∨
      ∀ tail : List Char, ((text ++ tail).takeWhile (· = quote)).length + seen ≤ 2 by
    refine this.imp_left ?_
    rintro ⟨k, written, meant, most⟩
    exact ⟨k, written, meant, by omega⟩
  induction spells with
  | nil => exact .inl ⟨0, rfl, rfl, by omega⟩
  | quote fewer _ ih =>
      rcases ih fewer with ⟨k, written, meant, most⟩ | short
      · exact .inl ⟨k + 1, by rw [written]; rfl, by rw [meant]; rfl, by omega⟩
      · refine .inr fun tail => ?_
        have after := short tail
        simp only [List.cons_append, List.takeWhile_cons, decide_true, if_true, List.length_cons]
        omega
  | plain different _ _ _ _ => exact .inr fun tail => by simpa [different] using few
  | escape basic _ _ _ =>
      subst basic
      exact .inr fun tail => by simpa using few

theorem newline?_eq_none (spells : Spells quote seen text cs) (line : '\n' ∉ cs)
    (isQuote : quote = '"' ∨ quote = '\'') (tail : List Char) :
    newline? (text ++ quote :: tail) = none := by
  have shownQuote : quote ≠ '\n' ∧ quote ≠ '\r' := by
    rcases isQuote with rfl | rfl <;> decide
  cases spells with
  | nil | quote => simp [newline?, shownQuote]
  | @plain _ c _ _ _ _ shown _ =>
      have newline : c ≠ '\n' := fun same => line (same ▸ List.mem_cons_self)
      have feed : c ≠ '\r' := by
        rintro rfl
        rcases shown with shown | same
        · revert shown
          decide
        · exact newline same
      simp [newline?, newline, feed]
  | escape => simp [newline?]

end Spells

/-- Up to two quotes right before the end of a string belong to it. -/
theorem multiline?_final {k fuel : Nat} (few : k ≤ 2) (ends : rest.head? ≠ some quote) :
    multiline? quote acc (fuel + 1) (List.replicate k quote ++ quote :: quote :: quote :: rest) =
      some (String.ofList (acc.reverse ++ List.replicate k quote), rest) := by
  have whole : List.replicate k quote ++ quote :: quote :: quote :: rest =
      List.replicate (k + 3) quote ++ rest := by
    rw [← List.replicate_append_replicate, List.append_assoc]
    rfl
  have run : ((List.replicate (k + 3) quote ++ rest).takeWhile (· = quote)).length = k + 3 := by
    rw [List.takeWhile_append_of_pos (by simp)]
    cases rest with
    | nil => simp
    | cons d rest =>
        have different : d ≠ quote := fun same => ends (by rw [same]; rfl)
        simp [different]
  have closes : closing? quote acc (List.replicate (k + 3) quote ++ rest) =
      some (String.ofList (acc.reverse ++ List.replicate k quote), rest) := by
    have kept : min (k + 3 - 3) 2 = k := by omega
    have dropped : (List.replicate (k + 3) quote ++ rest).drop (k + 3) = rest := by simp
    simp only [closing?, run, kept, dropped]
    rw [if_neg (by omega)]
  rw [whole]
  rw [List.replicate_succ, List.cons_append] at closes ⊢
  rw [multiline?, if_pos rfl, closes]

theorem multiline?_spells {fuel : Nat} (spells : Spells quote seen text cs) (few : seen ≤ 2)
    (isQuote : quote = '"' ∨ quote = '\'') (ends : rest.head? ≠ some quote)
    (enough : text.length < fuel) :
    multiline? quote acc fuel (text ++ quote :: quote :: quote :: rest) =
      some (String.ofList (acc.reverse ++ cs), rest) := by
  induction spells generalizing acc fuel with
  | nil =>
      obtain ⟨fuel, rfl⟩ := Nat.exists_eq_succ_of_ne_zero (Nat.ne_zero_of_lt enough)
      exact multiline?_final (k := 0) (Nat.zero_le 2) ends
  | quote fewer spelled ih =>
      obtain ⟨fuel, rfl⟩ := Nat.exists_eq_succ_of_ne_zero (Nat.ne_zero_of_lt enough)
      rcases (Spells.quote fewer spelled).leading few with ⟨k, written, meant, most⟩ | short
      · rw [written, meant]
        exact multiline?_final most ends
      · have open_ := short (quote :: quote :: quote :: rest)
        rw [List.cons_append] at open_ ⊢
        rw [multiline?, if_pos rfl, closing?, if_pos (by omega)]
        refine (ih fewer (by simpa using enough)).trans ?_
        simp
  | @plain _ c _ _ different unescaped shown spelled ih =>
      obtain ⟨fuel, rfl⟩ := Nat.exists_eq_succ_of_ne_zero (Nat.ne_zero_of_lt enough)
      have unfolded : (decide (c = '\\') && decide (quote = '"')) = false := by
        simp only [Bool.and_eq_false_imp, decide_eq_true_eq, decide_eq_false_iff_not]
        exact fun backslash basic => unescaped basic backslash
      have next : multiline? quote (c :: acc) fuel (_ ++ quote :: quote :: quote :: rest) = _ :=
        ih (Nat.zero_le 2) (by simpa using enough)
      rw [List.reverse_cons, List.append_assoc, List.singleton_append] at next
      rw [List.cons_append, multiline?, if_neg different, unfolded]
      rcases shown with visible | rfl
      · have line : c ≠ '\n' ∧ c ≠ '\r' := by
          constructor <;> rintro rfl <;> revert visible <;> decide
        simpa [newline?, line, visible] using next
      · exact next
  | escape basic escapes spelled ih =>
      obtain ⟨fuel, rfl⟩ := Nat.exists_eq_succ_of_ne_zero (Nat.ne_zero_of_lt enough)
      subst basic
      simp only [List.length_cons, List.length_append] at enough
      rw [List.cons_append, List.append_assoc, multiline?, if_neg (by decide)]
      simp only [escapes.inLine, escapes.read, decide_true, Bool.and_self, if_true]
      refine (ih (Nat.zero_le 2) (by omega)).trans ?_
      simp

/-! ## The choice of a notation -/

theorem one_le_longestRun (member : c ∈ cs) (state : Nat × Nat) :
    1 ≤ (cs.foldl (runStep c) state).2 := by
  induction cs generalizing state with
  | nil => cases member
  | cons d cs ih =>
      rcases List.mem_cons.mp member with rfl | later
      · refine Nat.le_trans ?_ (best_le_foldl c cs (runStep c state c))
        simp only [runStep, if_true]
        omega
      · exact ih later _

namespace Notation

theorem of_literal (chosen : choose cs = .literal) :
    cs ≠ [] ∧ ∀ c ∈ cs, isComment c = true ∧ c ≠ '\'' := by
  constructor
  · rintro rfl
    cases chosen
  · intro c member
    have facts : cs.any needsEscape = false ∧ longestRun '\'' cs = 0 ∧ '\n' ∉ cs := by
      unfold choose at chosen
      grind
    obtain ⟨control, singles, newline⟩ := facts
    have line : c ≠ '\n' := fun same => newline (same ▸ member)
    have shown : needsEscape c = false := by simpa using List.any_eq_false.mp control c member
    refine ⟨isComment_of_unescaped shown line, ?_⟩
    rintro rfl
    have some_ := one_le_longestRun member (0, 0)
    rw [← longestRun_eq] at some_
    omega

theorem of_multilineLiteral (chosen : choose cs = .multilineLiteral) :
    (∀ c ∈ cs, needsEscape c = false) ∧ longestRun '\'' cs ≤ 2 := by
  have facts : cs.any needsEscape = false ∧ longestRun '\'' cs ≤ 2 := by
    unfold choose at chosen
    grind
  exact ⟨fun c member => by simpa using List.any_eq_false.mp facts.1 c member, facts.2⟩

end Notation

theorem head?_escaped (cs : List Char) : (escaped false 0 0 cs).head? ≠ some '"' := by
  cases cs with
  | nil => simp [escaped]
  | cons c cs =>
      by_cases quote : c = '"'
      · simp [escaped, quote]
      · simp only [escaped, if_neg quote]
        rcases escapeChar_cases false c with ⟨plain, _⟩ | ⟨text, escapes, _⟩
        · simpa [plain] using quote
        · simp [escapes]

/-- A long string begins after its quotes, and after a line end that keeps its first line apart. -/
theorem string?_multiline {body : List Char} (spells : Spells quote 0 body cs)
    (isQuote : quote = '"' ∨ quote = '\'') (ends : rest.head? ≠ some quote) :
    string? (quote :: quote :: quote :: ((if '\n' ∈ cs then ['\n'] else []) ++ body ++
      quote :: quote :: quote :: rest)) = some (String.ofList cs, rest) := by
  have opened : ∀ more, string? (quote :: quote :: quote :: more) =
      multiline? quote [] (more.length + 1) (dropNewline more) := by
    rcases isQuote with rfl | rfl <;> exact fun _ => rfl
  rw [opened]
  have started : dropNewline ((if '\n' ∈ cs then ['\n'] else []) ++ body ++
      quote :: quote :: quote :: rest) = body ++ quote :: quote :: quote :: rest := by
    split
    · rfl
    · rename_i line
      rw [List.nil_append, dropNewline, spells.newline?_eq_none line isQuote]
      rfl
  rw [started, multiline?_spells spells (Nat.zero_le 2) isQuote ends]
  · rfl
  · simp only [List.length_append, List.length_cons]
    omega

theorem string?_basic (short : ∀ more, text ≠ '"' :: '"' :: more) :
    string? ('"' :: text) = basic? [] (text.length + 1) text := by
  unfold string?
  split
  · rename_i more same
    exact absurd (List.cons.inj same).2 (short more)
  · rename_i same
    cases (List.cons.inj same).1
  · rename_i same
    rw [(List.cons.inj same).2]
  · rename_i same
    cases (List.cons.inj same).1
  · rename_i none_ _
    exact absurd rfl (none_ text)

theorem string?_literal (short : ∀ more, text ≠ '\'' :: '\'' :: more) :
    string? ('\'' :: text) = literal? text := by
  unfold string?
  split
  · rename_i same
    cases (List.cons.inj same).1
  · rename_i more same
    exact absurd (List.cons.inj same).2 (short more)
  · rename_i same
    cases (List.cons.inj same).1
  · rename_i same
    rw [(List.cons.inj same).2]
  · rename_i none_
    exact absurd rfl (none_ text)

theorem string?_stringText (s : String) (double : rest.head? ≠ some '"')
    (single : rest.head? ≠ some '\'') :
    string? ((stringText s).toList ++ rest) = some (s, rest) := by
  have whole : String.ofList s.toList = s := String.ofList_toList
  unfold stringText
  generalize s.toList = cs at whole ⊢
  subst whole
  simp only [String.toList_ofList]
  cases chosen : Notation.choose cs with
  | basic =>
      have read : basic? [] ((escaped false 0 0 cs ++ '"' :: rest).length + 1)
          (escaped false 0 0 cs ++ '"' :: rest) = some (String.ofList ([].reverse ++ cs), rest) :=
        basic?_escaped (by simp only [List.length_append, List.length_cons]; omega)
      have notLong : ∀ more, escaped false 0 0 cs ++ '"' :: rest ≠ '"' :: '"' :: more := by
        intro more same
        cases text : escaped false 0 0 cs with
        | nil =>
            rw [text] at same
            exact double (by rw [(List.cons.inj same).2]; rfl)
        | cons d text' =>
            have first := head?_escaped cs
            rw [text] at first same
            exact first (by rw [(List.cons.inj same).1]; rfl)
      simp only [List.cons_append, List.append_assoc, List.nil_append]
      rw [string?_basic notLong, read]
      rfl
  | literal =>
      obtain ⟨nonempty, plain⟩ := Notation.of_literal chosen
      obtain ⟨c, cs, rfl⟩ := List.exists_cons_of_ne_nil nonempty
      have notLong : ∀ more, c :: cs ++ '\'' :: rest ≠ '\'' :: '\'' :: more := by
        intro more same
        exact (plain c List.mem_cons_self).2 (List.cons.inj same).1
      simp only [List.cons_append, List.append_assoc, List.nil_append] at notLong ⊢
      rw [string?_literal notLong]
      exact literal?_append plain
  | multilineBasic =>
      have spelled : Spells '"' 0 (escaped true 2 0 cs) cs := spells_escaped (Nat.zero_le 2)
      have read := string?_multiline spelled (.inl rfl) double
      simpa [List.contains_eq_mem, List.replicate] using read
  | multilineLiteral =>
      obtain ⟨plain, few⟩ := Notation.of_multilineLiteral chosen
      have read := string?_multiline (spells_literal plain few) (.inr rfl) single
      simpa [List.contains_eq_mem, List.replicate] using read

theorem stringText_opens (s : String) :
    ∃ quote text, (stringText s).toList = quote :: text ∧ (quote = '"' ∨ quote = '\'') := by
  unfold stringText
  rw [String.toList_ofList]
  dsimp only
  cases Notation.choose s.toList with
  | basic | multilineBasic => exact ⟨_, _, rfl, .inl rfl⟩
  | literal | multilineLiteral => exact ⟨_, _, rfl, .inr rfl⟩

end ScriptHost.Toml
